import ExscapeOS.Kernel.Vmm.Access
import ExscapeOS.Kernel.Vmm.Space

/-!
# What the check of writable buffers accepts

`vmm_check_access_write` looks for one area that contains the first byte of a buffer and, by a
strict comparison, also the byte behind the last one. So it rejects a buffer that ends with its
area, or goes from one area into the next, although every page of it can be written to.
-/
namespace ExscapeOS.Vmm

open Lib

variable {vm₀ : Vm} {s₀ s : TaskMm × Vm} {acts : List Action} {vm : Vm} {mm : TaskMm}
  {addr len b d : Nat}

/-- Every byte of the buffer is on a page that user mode can write to. -/
def pagesWritable (vm : Vm) (d addr len : Nat) : Prop :=
  ∀ b, inBuffer addr len b → (vm.entry d (b / pageSize)).present = true ∧
    (vm.entry d (b / pageSize)).user = true ∧ (vm.entry d (b / pageSize)).rw = true

instance : Std.Symm Area.apart := ⟨fun _ _ => Or.symm⟩

lemma Layout.writable_area (layout : Layout vm mm)
    (user : (vm.entry mm.directory (b / pageSize)).user = true)
    (rw : (vm.entry mm.directory (b / pageSize)).rw = true) :
    ∃ a ∈ mm.areas, a.writable = true ∧ a.start ≤ b ∧ b < a.stop := by
  obtain ⟨a, mem, here⟩ := layout.covered _ user
  have rights := (layout.inside a mem _ here).2
  have aligned := (layout.areas a mem).stop
  refine ⟨a, mem, rights.symm.trans rw, ?_⟩
  unfold Area.hasPage isPageAligned pageSize at *
  omega

/-- The area that accepts a buffer is the only one that meets it. -/
lemma Layout.stop_of_accepted (layout : Layout vm mm)
    (accepted : vmmCheckAccessWrite mm.areas addr len)
    (fits : addr + len < wordSize) {a : Area} (mem : a ∈ mm.areas) :
    ¬ (addr < a.stop ∧ a.stop ≤ addr + len) := by
  obtain ⟨c, memc, -, start, stop⟩ := accepted
  rw [add32_eq fits] at stop
  by_cases same : a = c
  · subst same
    omega
  · have nonempty := (layout.areas a mem).lt
    rcases layout.apart.forall mem memc same with before | behind <;> omega

/-- In every state of an address space, a buffer in writable pages is accepted exactly if no area
ends in it or with it. -/
theorem accepts_iff (kernel : KernelOk vm₀) (created : vm₀.vmmCreateUserMm = some s₀)
    (run : AlignedRun s₀ acts s) (pos : 0 < len)
    (writable : pagesWritable s.2 s.1.directory addr len) :
    vmmCheckAccessWrite s.1.areas addr len ↔
      ∀ a ∈ s.1.areas, ¬ (addr < a.stop ∧ a.stop ≤ addr + len) := by
  have layout := Layout.run kernel created run
  obtain ⟨-, user, rw⟩ := writable addr ⟨le_rfl, by omega⟩
  obtain ⟨a, mem, rights, start, stop⟩ := layout.writable_area user rw
  obtain ⟨-, user', rw'⟩ := writable (addr + len - 1) ⟨by omega, by omega⟩
  obtain ⟨c, memc, -, -, last⟩ := layout.writable_area user' rw'
  -- the last byte is in an area, so the sum does not wrap around
  have fits : addr + len < wordSize := by
    have bound := (layout.areas c memc).bound
    omega
  constructor
  · intro accepted a mem
    exact layout.stop_of_accepted accepted fits mem
  · intro clear
    have room := clear a mem
    refine ⟨a, mem, rights, ⟨start, stop⟩, ?_⟩
    rw [add32_eq fits]
    omega

instance (areas : List Area) (addr len : Nat) : Decidable (vmmCheckAccessWrite areas addr len) :=
  inferInstanceAs (Decidable (∃ a ∈ areas, _))

/-- A heap of two pages. -/
def growHeap : List Action := [.load 0x10002000 0x10002000 0x10002000, .sbrk 0x2000]

/-- The two pages of the heap can be written to, and their area ends with them. -/
lemma growHeap_runs : ∃ s₀ s, (bareMachine 32).vmmCreateUserMm = some s₀ ∧
    AlignedRun s₀ growHeap s ∧ pagesWritable s.2 s.1.directory 0x10002000 0x2000 ∧
    (∀ a ∈ s.1.areas, ¬ (0x10002000 < a.stop ∧ a.stop ≤ 0x10003fff)) ∧
    ¬ vmmCheckAccessWrite s.1.areas 0x10002000 0x2000 := by
  obtain ⟨s₀, created, s, ran, first, second, clear, rejected⟩ :
      ∃ s₀ ∈ (bareMachine 32).vmmCreateUserMm,
      ∃ s ∈ exec (fun s a => if aligned a then step s a else none) s₀ growHeap,
        s.2.entry s.1.directory 0x10002 = ⟨19, true, true, true, false, false, 0⟩ ∧
        s.2.entry s.1.directory 0x10003 = ⟨20, true, true, true, false, false, 0⟩ ∧
        (∀ a ∈ s.1.areas, ¬ (0x10002000 < a.stop ∧ a.stop ≤ 0x10003fff)) ∧
        ¬ vmmCheckAccessWrite s.1.areas 0x10002000 0x2000 := by decide +kernel
  refine ⟨s₀, s, created, Run.of_exec_guarded ran, fun b inside => ?_, clear, rejected⟩
  have page : b / pageSize = 0x10002 ∨ b / pageSize = 0x10003 := by
    unfold inBuffer pageSize at *
    omega
  rcases page with page | page <;> simp [page, first, second]

/-- All of the heap but its last byte. -/
theorem accepts_growHeap : ∃ s₀ s, (bareMachine 32).vmmCreateUserMm = some s₀ ∧
    AlignedRun s₀ growHeap s ∧ vmmCheckAccessWrite s.1.areas 0x10002000 0x1fff := by
  obtain ⟨s₀, s, created, run, writable, clear, -⟩ := growHeap_runs
  have most : pagesWritable s.2 s.1.directory 0x10002000 0x1fff :=
    fun b inside => writable b ⟨inside.1, inside.2.trans (by decide)⟩
  exact ⟨s₀, s, created, run,
    (accepts_iff (bareMachine_kernelOk 32) created run (by decide) most).mpr clear⟩

/-- The whole heap is rejected. -/
theorem heap_rejected : ∃ s₀ s, (bareMachine 32).vmmCreateUserMm = some s₀ ∧
    AlignedRun s₀ growHeap s ∧ pagesWritable s.2 s.1.directory 0x10002000 0x2000 ∧
    ¬ vmmCheckAccessWrite s.1.areas 0x10002000 0x2000 := by
  obtain ⟨s₀, s, created, run, writable, -, rejected⟩ := growHeap_runs
  exact ⟨s₀, s, created, run, writable, rejected⟩

end ExscapeOS.Vmm
