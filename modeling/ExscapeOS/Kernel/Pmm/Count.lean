import ExscapeOS.Kernel.Pmm.Init
import Mathlib.Data.Nat.Count

/-!
# Counting frames

`pmm_bytes_free` and `pmm_bytes_used` walk the words of the bitmap, and so do not see the frames
behind the last whole word. Nor does `pmm_alloc`: the frames that are counted as free are those that
it can hand out. The two sums are right exactly if the number of frames is a multiple of 32.
-/
namespace ExscapeOS.Bitmap

open Lib Function Option

open Vmm (pageSize)

variable {m m' : Bitmap} {p : Pmm} {bit : Bool} {bytes index k : Nat}

/-- The loop over one word: the frames whose bit is `bit` are added. -/
def countWord (bit : Bool) (word : BitVec 32) (bytes : Nat) : Nat :=
  if word = 0 then if bit then bytes else add32 bytes (pageSize * 32)
  else if word = 0xffffffff#32 then if bit then add32 bytes (pageSize * 32) else bytes
  else (List.range 32).foldl (fun bytes offset =>
    if (word &&& mask offset != 0) = bit then add32 bytes pageSize else bytes) bytes

def countBytes (bit : Bool) (m : Bitmap) : Nat :=
  (List.range (m.nframes / 32)).foldl
    (fun bytes index => countWord bit (m.usedFrames index) bytes) 0

def pmmBytesFree (m : Bitmap) : Option Nat := do
  let unused := m.countBytes false
  kassert (unused % 4096 = 0)
  return unused

def pmmBytesUsed (m : Bitmap) : Nat := m.countBytes true

/-- The addresses that the next `n` calls of `pmm_alloc` return. -/
def pmmAllocs : Nat → Bitmap → Option (List Nat)
  | 0, _ => some []
  | n + 1, m => do
    let (addr, m) ← m.pmmAlloc
    let rest ← pmmAllocs n m
    return addr :: rest

/-- Both functions count all frames, and every frame counted as free is returned. -/
structure CountsRight (m : Bitmap) : Prop where
  free : m.pmmBytesFree = some (4096 * Nat.count (fun f => m.used f = false) m.nframes)
  used : m.pmmBytesUsed = 4096 * Nat.count (fun f => m.used f = true) m.nframes
  returned : ∀ f, f / 32 < m.nframes / 32 → m.used f = false →
    ∃ n addrs, m.pmmAllocs n = some addrs ∧ f * pageSize ∈ addrs

/-! ## The words -/

lemma used_word {offset : Nat} (lt : offset < 32) :
    m.used (32 * index + offset) = (m.usedFrames index).getLsbD offset := by
  rw [used, show (32 * index + offset) / 32 = index by omega,
    show (32 * index + offset) % 32 = offset by omega]

lemma countWord_eq (room : bytes + pageSize * 32 < wordSize) :
    countWord bit (m.usedFrames index) bytes =
      bytes + pageSize * Nat.count (fun i => m.used (32 * index + i) = bit) 32 := by
  -- all the bits of a word are the same in the first two cases
  have whole {value : Bool} (same : ∀ i < 32, m.used (32 * index + i) = value) :
      Nat.count (fun i => m.used (32 * index + i) = bit) 32 = if value = bit then 32 else 0 := by
    split_ifs with eq
    · exact Nat.count_of_forall fun {i} lt => (same i lt).trans eq
    · exact Nat.count_of_forall_not fun {i} lt => same i lt ▸ eq
  unfold countWord
  split_ifs with clear is_used set is_used
  · rw [@whole false fun i lt => by rw [used_word lt, clear]; simp]
    simp [is_used]
  · rw [@whole false fun i lt => by rw [used_word lt, clear]; simp]
    simp [is_used, add32_eq room]
  · rw [@whole true fun i lt => by rw [used_word lt, set]; interval_cases i <;> rfl]
    simp [is_used, add32_eq room]
  · rw [@whole true fun i lt => by rw [used_word lt, set]; interval_cases i <;> rfl]
    simp [is_used]
  · refine foldl_range (F := fun k =>
      bytes + pageSize * Nat.count (fun i => m.used (32 * index + i) = bit) k) rfl fun k lt => ?_
    have test : (m.usedFrames index &&& mask k != 0) = m.used (32 * index + k) := by
      have clear := and_mask_eq_zero (m.usedFrames index) k
      rw [Nat.mod_eq_of_lt lt, ← used_word lt] at clear
      cases eq : m.used (32 * index + k) <;> simp_all
    have few := Nat.count_le (fun i => m.used (32 * index + i) = bit) (n := k)
    rw [Nat.count_succ, test]
    split_ifs
    · rw [add32_eq (by unfold pageSize at *; omega), Nat.mul_add, Nat.mul_one, Nat.add_assoc]
    · rfl

lemma countBytes_eq (bit : Bool) (m : Bitmap) : m.countBytes bit =
    pageSize * Nat.count (fun f => m.used f = bit) (32 * (m.nframes / 32)) := by
  refine foldl_range (F := fun k => pageSize * Nat.count (fun f => m.used f = bit) (32 * k)) rfl
    fun k lt => ?_
  have few := Nat.count_le (fun f => m.used f = bit) (n := 32 * k)
  have small := m.small
  rw [Nat.mul_succ, Nat.count_add, Nat.mul_add]
  exact countWord_eq (by unfold nframes pageSize wordSize at *; omega)

lemma count_total (m : Bitmap) (n : Nat) :
    Nat.count (fun f => m.used f = false) n + Nat.count (fun f => m.used f = true) n = n := by
  induction n with
  | zero => rfl
  | succ n ih =>
    rw [Nat.count_succ, Nat.count_succ]
    cases m.used n <;> simp <;> omega

/-- The two functions together count the frames of the whole words. -/
lemma bytes_total (m : Bitmap) : m.countBytes false + m.countBytes true =
    pageSize * (32 * (m.nframes / 32)) := by
  rw [countBytes_eq, countBytes_eq, ← Nat.mul_add, count_total]

/-! ## The frames that are returned -/

lemma Represents.pmmAllocs (h : Represents m p) {f : Nat} (mem : f ∈ p.avail) :
    ∃ n addrs, m.pmmAllocs n = some addrs ∧ f * pageSize ∈ addrs := by
  induction card : p.avail.card using Nat.strong_induction_on generalizing m p with
  | _ c ih =>
    have found := isSome_iff_ne_none.mp (Pmm.alloc_isSome_iff.mpr ⟨f, mem⟩)
    obtain ⟨⟨addr, m'⟩, ran⟩ := ne_none_iff_exists'.mp (mt h.pmmAlloc.eq_none_iff.mp found)
    obtain ⟨⟨g, p'⟩, alloc, address, h'⟩ := h.pmmAlloc.of_some ran
    obtain rfl : addr = g * pageSize := address
    by_cases own : f = g
    · exact ⟨1, [g * pageSize], by simp [Bitmap.pmmAllocs, ran], by simp [own]⟩
    · have left := Pmm.alloc_avail alloc
      have fewer : p'.avail.card < c := by
        rw [left, ← card]
        exact Finset.card_erase_lt_of_mem (Pmm.alloc_spec alloc).1
      obtain ⟨n, addrs, more, later⟩ := ih _ fewer h' (left ▸ Finset.mem_erase.mpr ⟨own, mem⟩) rfl
      exact ⟨n + 1, g * pageSize :: addrs, by simp [Bitmap.pmmAllocs, ran, more], .tail _ later⟩

lemma clearFrame_last {addr : Nat} (ran : m.clearFrame addr = some m') :
    m'.lastAllocatedFrame = m.lastAllocatedFrame := by
  simp only [clearFrame, bind, bind_eq_some_iff, kassert_eq_some, exists_const, pure,
    some.injEq] at ran
  obtain ⟨-, -, rfl⟩ := ran
  rfl

lemma clearFrames_last {check : Nat → Prop} [DecidablePred check] {addrs : List Nat}
    (ran : clearFrames check addrs m = some m') : m'.lastAllocatedFrame = m.lastAllocatedFrame := by
  induction addrs generalizing m with
  | nil =>
    cases ran
    rfl
  | cons addr rest ih =>
    simp only [clearFrames, bind, bind_eq_some_iff, kassert_eq_some, exists_const] at ran
    obtain ⟨-, m₁, first, more⟩ := ran
    exact (ih more).trans (clearFrame_last first)

lemma pmmInit_last {map : List MemoryMap} {upperMem : Nat} (ran : pmmInit map upperMem = some m) :
    m.lastAllocatedFrame = noFrame := by
  have regions {map : List MemoryMap} {m₀ : Bitmap} (ran : clearRegions map m₀ = some m) :
      m.lastAllocatedFrame = m₀.lastAllocatedFrame := by
    induction map generalizing m₀ with
    | nil =>
      cases ran
      rfl
    | cons e rest ih =>
      obtain ⟨m₁, first, more⟩ := bind_eq_some_iff.mp ran
      refine (ih more).trans ?_
      unfold clearRegion at first
      split_ifs at first
      · rw [some.inj first]
      · rw [some.inj first]
      · rw [some.inj first]
      · simp only [bind, bind_eq_some_iff, kassert_eq_some, exists_const] at first
        exact clearFrames_last first.2.2.2
  unfold pmmInit at ran
  dsimp only at ran
  split_ifs at ran
  · exact clearFrames_last ran
  · exact regions ran

/-- After `pmm_init`, the frames are counted right if they fill the words of the bitmap. -/
theorem countsRight_iff {map : List MemoryMap} {upperMem : Nat} {as : List Action} {m₀ : Bitmap}
    (init : pmmInit map upperMem = some m₀) (run : Run (fun m a m' => step m a = some m') m₀ as m) :
    m.CountsRight ↔ m.nframes % 32 = 0 := by
  constructor
  · rintro ⟨free, used, -⟩
    have both := m.bytes_total
    have all := m.count_total m.nframes
    simp only [pmmBytesFree, bind, bind_eq_some_iff, kassert_eq_some, exists_const, pure,
      some.injEq] at free
    rw [pmmBytesUsed] at used
    rw [free.2, used] at both
    unfold pageSize at both
    omega
  · intro whole
    have words : 32 * (m.nframes / 32) = m.nframes := by omega
    refine ⟨?_, ?_, fun f bound free => ?_⟩
    · have eq := m.countBytes_eq false
      rw [words] at eq
      simp [pmmBytesFree, eq, kassert, pageSize]
    · rw [pmmBytesUsed, countBytes_eq, words]
      rfl
    · obtain ⟨p, h⟩ := exists_represents (pmmInit_last init) run
      exact h.pmmAllocs (Pmm.mem_avail.mpr ⟨h.nframes ▸ bound, h.used ▸ free⟩)

/-- 288 frames, of which the last 32 are free. -/
theorem countsRight_wholeWords : ∃ m₀ m, pmmInit [] 128 = some m₀ ∧
    Run (fun m a m' => step m a = some m') m₀ [.alloc, .alloc, .free 0x100000] m ∧
      m.CountsRight := by
  obtain ⟨m₀, init, m, ran, frames⟩ : ∃ m₀ ∈ pmmInit [] 128,
      ∃ m ∈ exec step m₀ [.alloc, .alloc, .free 0x100000], m.nframes = 288 := by decide +kernel
  have run := Run.of_exec ran
  exact ⟨m₀, m, init, run, (countsRight_iff init run).mpr (by rw [frames])⟩

/-- The frame behind the whole words is free, but neither counted nor returned. -/
theorem last_frame_not_counted : ∃ m ∈ pmmInit [] 4, m.nframes = 257 ∧ m.used 256 = false ∧
    m.pmmBytesFree = some 0 ∧ m.pmmAlloc = none := by
  decide +kernel

end ExscapeOS.Bitmap
