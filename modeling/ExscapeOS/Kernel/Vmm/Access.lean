import ExscapeOS.Kernel.Vmm.Basic

/-!
# The checks of user pointers

`sys_read` and `sys_write` check the first address of the buffer and the address behind its end,
which they compute with 32 bits. If that does not wrap around, an accepted buffer lies in user
space, and for `sys_read` in one writable area. Otherwise, the buffer contains all addresses from
its start to the end of the address space.
-/
namespace ExscapeOS.Vmm

open Lib

variable {areas : List Area} {addr len : Nat}

/-- The addresses of a buffer, without wrap-around. -/
def inBuffer (addr len b : Nat) : Prop := addr ≤ b ∧ b < addr + len

/-- Every byte of the buffer is in user space. -/
def bufferInUserSpace (addr len : Nat) : Prop := ∀ b, inBuffer addr len b → isUserSpace b

/-- Every byte of the buffer is in an area that is writable. -/
def bufferWritable (areas : List Area) (addr len : Nat) : Prop :=
  ∀ b, inBuffer addr len b → ∃ a ∈ areas, a.writable = true ∧ a.start ≤ b ∧ b < a.stop

lemma not_bufferInUserSpace (user : isUserSpace addr) (wraps : wordSize ≤ addr + len) :
    ¬ bufferInUserSpace addr len := by
  intro inside
  unfold wordSize at wraps
  have last := inside 0xc0000000 ⟨user.2.le, by omega⟩
  exact absurd last.2 (lt_irrefl _)

lemma checkAccessRead_sound (accepted : checkAccessRead addr len) (fits : addr + len < wordSize) :
    bufferInUserSpace addr len := by
  obtain ⟨first, last⟩ := accepted
  rw [add32_eq fits] at last
  rintro b ⟨ge, lt⟩
  exact ⟨first.1.trans ge, lt.trans last.2⟩

lemma vmmCheckAccessWrite_sound (accepted : vmmCheckAccessWrite areas addr len)
    (fits : addr + len < wordSize) : bufferWritable areas addr len := by
  obtain ⟨a, mem, writable, ⟨start, -⟩, stop⟩ := accepted
  rw [add32_eq fits] at stop
  rintro b ⟨ge, lt⟩
  exact ⟨a, mem, writable, start.trans ge, lt.trans stop⟩

/-- The buffers that the checks of `sys_write` and `sys_read` accept are safe exactly if they do not
wrap around. -/
theorem user_buffers_safe_iff (areas : List Area) (addr len : Nat) :
    (checkAccessRead addr len → (bufferInUserSpace addr len ↔ addr + len < wordSize)) ∧
      (checkAccessWrite areas addr len →
        (bufferInUserSpace addr len ∧ bufferWritable areas addr len ↔ addr + len < wordSize)) := by
  have fits (user : isUserSpace addr) (safe : bufferInUserSpace addr len) :
      addr + len < wordSize := by
    by_contra wraps
    exact not_bufferInUserSpace user (not_lt.mp wraps) safe
  refine ⟨fun read => ⟨fits read.1, checkAccessRead_sound read⟩, fun write => ?_⟩
  refine ⟨fun safe => fits write.1.1 safe.1, fun small => ?_⟩
  exact ⟨checkAccessRead_sound write.1 small, vmmCheckAccessWrite_sound write.2 small⟩

theorem user_buffers_safe_iff_sample :
    let areas : List Area := [⟨0x10000000, 0x10002000, true, 0, 1⟩]
    checkAccessWrite areas 0x10000800 0x1000 ∧ bufferWritable areas 0x10000800 0x1000 := by
  intro areas
  have accepted : checkAccessWrite areas 0x10000800 0x1000 := by decide
  exact ⟨accepted, (((user_buffers_safe_iff areas _ _).2 accepted).mpr (by decide)).2⟩

/-- A negative length: the end of the buffer wraps around into its area. -/
theorem user_buffer_unsafe :
    let areas : List Area := [⟨0x10000000, 0x10002000, true, 0, 1⟩]
    checkAccessRead 0x10001000 0xfffff800 ∧ checkAccessWrite areas 0x10001000 0xfffff800 ∧
      inBuffer 0x10001000 0xfffff800 0xc0000000 ∧ ¬ isUserSpace 0xc0000000 := by
  refine ⟨by decide, by decide, ⟨by decide, by decide⟩, by decide⟩

end ExscapeOS.Vmm
