import ExscapeOS.Kernel.Vmm.Clone

/-!
# What a new address space leaves alone

An address space that is created and taken down again uses new blocks and free frames only. `Spares`
says that everything else is as it was, and `OwnDir` adds what is needed of the new directory to
carry it through the functions that map and free its pages.
-/
namespace ExscapeOS.Vmm

open Lib Function Vm List Option

variable {vm vm' vm₀ : Vm} {mm : TaskMm} {b d f i addr : Nat} {e : Pte}

/-- The blocks and frames in use in `vm₀` are in `vm` as they were. -/
structure Spares (vm₀ vm : Vm) : Prop where
  next : vm₀.next ≤ vm.next
  dir : ∀ d < vm₀.next, vm.dir d = vm₀.dir d
  table : ∀ t < vm₀.next, vm.table t = vm₀.table t
  used : ∀ f, vm₀.pmm.used f = true → vm.pmm.used f = true
  mem : ∀ f, vm₀.pmm.used f = true → vm.mem f = vm₀.mem f

/-- Moreover, the directory `d` is new, with its tables and pages in user space. -/
structure OwnDir (vm₀ : Vm) (d : Nat) (vm : Vm) : Prop extends Spares vm₀ vm where
  new : vm₀.next ≤ d
  tables : ∀ i t, isUserSpace (i * 1024 * pageSize) → vm.dir d i = some t → vm₀.next ≤ t
  frames : ∀ addr, isUserSpace addr → vm.pte d addr ≠ .zero →
    vm₀.pmm.used (vm.pte d addr).frame = false

lemma Spares.refl (vm : Vm) : Spares vm vm :=
  ⟨le_rfl, fun _ _ => rfl, fun _ _ => rfl, fun _ => id, fun _ _ => rfl⟩

lemma Spares.entry (h : Spares vm₀ vm) (ok : DirOk vm₀ d) (old : d < vm₀.next) :
    vm.entry d = vm₀.entry d :=
  entry_congr (h.dir d old) fun i t used => h.table t (ok.old i t used)

lemma Spares.newBlock (h : Spares vm₀ vm) (new : NewBlock vm b vm') : Spares vm₀ vm' where
  next := h.next.trans (new.next ▸ Nat.le_succ _)
  dir c old := (congrFun new.dir c).trans (h.dir c old)
  table t old := (congrFun new.table t).trans (h.table t old)
  used f used := new.pmm.used f (h.used f used)
  mem f used := (new.mem f (h.used f used)).trans (h.mem f used)

lemma isUserSpace_tableIndex (space : isUserSpace addr) :
    isUserSpace (tableIndex addr * 1024 * pageSize) := by
  rw [isUserSpace_table]
  unfold isUserSpace at space
  unfold tableIndex pageSize
  omega

lemma vmmGetPage_zero {pmm : Pmm} (zero : vm.pte d addr = .zero)
    (got : { vm with pmm := pmm }.vmmGetPage addr d = some vm') : vm'.pte d addr = .zero := by
  unfold Vm.vmmGetPage at got
  split at got
  · simp only [vmmCreatePageTable, bind, bind_eq_some_iff, kassert_eq_some, exists_const, pure,
      some.injEq] at got
    obtain ⟨-, ⟨t, vm₁⟩, -, -, rfl⟩ := got
    unfold pte
    simp [linkTable]
  · cases got
    exact zero

namespace OwnDir

variable (h : OwnDir vm₀ d vm)

include h

/-! ## Frames and blocks -/

/-- A step that changes neither the directories nor the tables. -/
lemma keep (spares : Spares vm₀ vm') (dir : vm'.dir d = vm.dir d) (table : vm'.table = vm.table) :
    OwnDir vm₀ d vm' where
  toSpares := spares
  new := h.new
  tables i t space used := h.tables i t space (dir ▸ used)
  frames addr space := by
    have same : vm'.pte d addr = vm.pte d addr := by rw [pte, pte, dir, table]
    rw [same]
    exact h.frames addr space

lemma newBlock (new : NewBlock vm b vm') : OwnDir vm₀ d vm' :=
  h.keep (h.toSpares.newBlock new) (congrFun new.dir d) new.table

lemma pmmAlloc (alloc : vm.pmmAlloc = some (f, vm')) :
    OwnDir vm₀ d vm' ∧ vm₀.pmm.used f = false := by
  obtain ⟨takes, mem, -⟩ := pmmAlloc_takes alloc
  have spares : Spares vm₀ vm' := by
    refine ⟨?_, fun c old => ?_, fun t old => ?_, fun g used => ?_, fun g used => ?_⟩
    · rw [takes.eq]
      exact h.next
    · rw [takes.eq]
      exact h.dir c old
    · rw [takes.eq]
      exact h.table t old
    · exact takes.pmm.used g (h.used g used)
    · exact (takes.mem g (h.used g used)).trans (h.mem g used)
  refine ⟨h.keep spares (by rw [takes.eq]) (by rw [takes.eq]), ?_⟩
  by_contra taken
  have used := h.used f (by simpa using taken)
  rw [(Pmm.mem_avail.mp mem).2] at used
  cases used

lemma pmmFree (unused : vm₀.pmm.used f = false) (freed : vm.pmmFree f = some vm') :
    OwnDir vm₀ d vm' := by
  obtain ⟨pmm, free, rfl⟩ := map_eq_some_iff.mp freed
  refine h.keep ⟨h.next, h.dir, h.table, fun g used => ?_, h.mem⟩ rfl rfl
  have other : g ≠ f := by
    rintro rfl
    rw [unused] at used
    cases used
  rw [(Pmm.free_spec free).2, update_of_ne other]
  exact h.used g used

lemma kfree (freed : vm.kfree b = some vm') : OwnDir vm₀ d vm' := by
  simp only [Vm.kfree, bind, bind_eq_some_iff, kassert_eq_some, exists_const, pure,
    some.injEq] at freed
  obtain ⟨-, rfl⟩ := freed
  exact h.keep ⟨h.next, h.dir, h.table, h.used, h.mem⟩ rfl rfl

lemma touch (b : Nat) : OwnDir vm₀ d (vm.touch b) :=
  h.keep ⟨h.next, h.dir, h.table, h.used, h.mem⟩ rfl rfl

/-! ## Pages -/

lemma linkTable {t : Nat} (fresh : vm₀.next ≤ t) : OwnDir vm₀ d (vm.linkTable d i t) where
  next := h.next
  dir c old := (update_of_ne (old.trans_le h.new).ne _ _).trans (h.dir c old)
  table u old := (update_of_ne (old.trans_le fresh).ne _ _).trans (h.table u old)
  used := h.used
  mem := h.mem
  new := h.new
  tables j u space used := by
    rw [linkTable_dir] at used
    split_ifs at used with own
    · exact some.inj used ▸ fresh
    · exact h.tables j u space used
  frames addr space := by
    intro mapped
    unfold pte at mapped ⊢
    rw [linkTable_dir] at mapped ⊢
    by_cases own : tableIndex addr = i
    · simp [own, Vm.linkTable] at mapped
    · simp only [own, if_false] at mapped ⊢
      have before := h.frames addr space
      unfold pte at before
      cases used : vm.dir d (tableIndex addr) with
      | none => simp [used] at mapped
      | some u =>
        simp only [used, Vm.linkTable] at mapped before ⊢
        by_cases same : u = t
        · simp [same] at mapped
        · rw [update_of_ne same] at mapped ⊢
          exact before mapped

lemma vmmGetPage (got : vm.vmmGetPage addr d = some vm') : OwnDir vm₀ d vm' := by
  unfold Vm.vmmGetPage at got
  split at got
  · simp only [vmmCreatePageTable, bind, bind_eq_some_iff, kassert_eq_some, exists_const, pure,
      some.injEq] at got
    obtain ⟨-, ⟨t, vm₁⟩, alloc, -, rfl⟩ := got
    have new := kmalloc_newBlock alloc
    exact ((h.touch d).newBlock new).linkTable (new.block ▸ h.next)
  · cases got
    exact (h.touch d).touch _

section

variable (space : isUserSpace addr)
include space

lemma setPte (free : e ≠ .zero → vm₀.pmm.used e.frame = false) :
    OwnDir vm₀ d (vm.setPte d addr e) := by
  unfold Vm.setPte
  cases table : vm.dir d (tableIndex addr) with
  | none => exact h
  | some t =>
    have fresh : vm₀.next ≤ t := h.tables _ t (isUserSpace_tableIndex space) table
    refine ⟨⟨h.next, h.dir, fun u old => ?_, h.used, h.mem⟩, h.new, h.tables, fun a space => ?_⟩
    · exact (update_of_ne (old.trans_le fresh).ne _ _).trans (h.table u old)
    · -- the entry is the one that has been set, or as it was
      have before := h.frames a space
      unfold pte at before ⊢
      cases used : vm.dir d (tableIndex a) with
      | none => simp
      | some u =>
        simp only [used] at before ⊢
        by_cases same : u = t
        · subst same
          rw [update_self]
          by_cases index : pageIndex a = pageIndex addr
          · rw [index, update_self]
            exact free
          · rw [update_of_ne index]
            exact before
        · rw [update_of_ne same]
          exact before

lemma vmmMap {writable : Bool} (free : vm₀.pmm.used f = false)
    (mapped : vm.vmmMap addr f d false writable = some vm') : OwnDir vm₀ d vm' := by
  simp only [Vm.vmmMap, bind, bind_eq_some_iff, kassert_eq_some, exists_const, pure,
    some.injEq] at mapped
  obtain ⟨vm₁, got, -, rfl⟩ := mapped
  exact (h.vmmGetPage got).setPte space fun _ => free

lemma vmmSetGuard {guard : Bool} (set : vm.vmmSetGuard addr d guard = some vm') :
    OwnDir vm₀ d vm' := by
  simp only [Vm.vmmSetGuard, bind, bind_eq_some_iff, kassert_eq_some, exists_const, pure,
    some.injEq] at set
  obtain ⟨vm₁, got, flags, rfl⟩ := set
  have own := h.vmmGetPage got
  refine own.setPte space fun _ => own.frames addr space fun zero => ?_
  rw [zero] at flags
  cases guard <;> simp [Pte.zero] at flags

lemma vmmFree (freed : vm.vmmFree addr d = some vm') : OwnDir vm₀ d vm' := by
  simp only [Vm.vmmFree, vmmUnmap, bind, bind_eq_some_iff, kassert_eq_some, exists_const, pure,
    some.injEq] at freed
  obtain ⟨vm₁, got, vm₂, free, vm₃, got', flags, rfl⟩ := freed
  have own := h.vmmGetPage got
  obtain ⟨pmm, -, eq⟩ := map_eq_some_iff.mp free
  have mapped : vm₁.pte d addr ≠ .zero := by
    intro zero
    rw [← eq] at got'
    rw [vmmGetPage_zero zero got'] at flags
    simp [Pte.zero] at flags
  have own' := (own.pmmFree (own.frames addr space mapped) free).vmmGetPage got'
  exact own'.setPte space fun nonzero => absurd rfl nonzero

end

lemma allocPages {addrs : List Nat} {writable : Bool} (space : ∀ addr ∈ addrs, isUserSpace addr)
    (ran : Vm.allocPages d writable addrs vm = some vm') : OwnDir vm₀ d vm' := by
  induction addrs generalizing vm with
  | nil =>
    cases ran
    exact h
  | cons addr rest ih =>
    simp only [Vm.allocPages, bind, bind_eq_some_iff] at ran
    obtain ⟨⟨f, vm₁⟩, alloc, vm₂, mapped, more⟩ := ran
    obtain ⟨here, later⟩ := forall_mem_cons.mp space
    obtain ⟨own, free⟩ := h.pmmAlloc alloc
    exact ih (own.vmmMap here free mapped) later more

lemma freePages {addrs : List Nat} (space : ∀ addr ∈ addrs, isUserSpace addr)
    (ran : Vm.freePages d addrs vm = some vm') : OwnDir vm₀ d vm' := by
  induction addrs generalizing vm with
  | nil =>
    cases ran
    exact h
  | cons addr rest ih =>
    simp only [Vm.freePages, bind, bind_eq_some_iff] at ran
    obtain ⟨vm₁, freed, more⟩ := ran
    obtain ⟨here, later⟩ := forall_mem_cons.mp space
    exact ih (h.vmmFree here freed) later more

/-! ## Taking the address space down -/

lemma kfreeAll {bs : List Nat} (ran : Vm.kfreeAll bs vm = some vm') : OwnDir vm₀ d vm' := by
  induction bs generalizing vm with
  | nil =>
    cases ran
    exact h
  | cons b bs ih =>
    simp only [Vm.kfreeAll, bind, bind_eq_some_iff] at ran
    obtain ⟨vm₁, freed, more⟩ := ran
    exact ih (h.kfree freed) more

lemma freeTables {is : List Nat} (ran : Vm.freeTables d is vm = some vm') : OwnDir vm₀ d vm' := by
  induction is generalizing vm with
  | nil =>
    cases ran
    exact h
  | cons i is ih =>
    unfold Vm.freeTables at ran
    split at ran
    · exact ih h ran
    · split_ifs at ran
      · exact ih h ran
      · simp only [bind, bind_eq_some_iff] at ran
        obtain ⟨vm₁, freed, more⟩ := ran
        exact ih (h.kfree freed) more

lemma destroyUserPageDir (ran : vm.destroyUserPageDir d = some vm') : OwnDir vm₀ d vm' := by
  simp only [Vm.destroyUserPageDir, bind, bind_eq_some_iff, kassert_eq_some,
    exists_const] at ran
  obtain ⟨-, vm₁, tables, vm₂, removed, freed⟩ := ran
  have own := h.freeTables tables
  refine OwnDir.kfree ?_ freed
  unfold removePagedir at removed
  split at removed
  · cases removed
    exact own
  · refine OwnDir.kfree ?_ removed
    exact own.keep ⟨own.next, own.dir, own.table, own.used, own.mem⟩ rfl rfl

lemma freeAreas {areas : List Area}
    (space : ∀ a ∈ areas, ∀ addr ∈ pagesFrom a.start a.stop, isUserSpace addr)
    (ran : Vm.freeAreas d areas vm = some vm') : OwnDir vm₀ d vm' := by
  induction areas generalizing vm with
  | nil =>
    cases ran
    exact h
  | cons a as ih =>
    simp only [Vm.freeAreas, bind, bind_eq_some_iff] at ran
    obtain ⟨vm₁, pages, vm₂, freed, more⟩ := ran
    obtain ⟨here, later⟩ := forall_mem_cons.mp space
    exact ih ((h.freePages here pages).kfree freed) later more

end OwnDir

lemma OwnDir.teardown (h : OwnDir vm₀ mm.directory vm)
    (space : ∀ a ∈ mm.areas, ∀ addr ∈ pagesFrom a.start a.stop, isUserSpace addr)
    (ran : vm.teardown mm = some vm') : OwnDir vm₀ mm.directory vm' := by
  simp only [Vm.teardown, vmmDestroyTaskMm, bind, bind_eq_some_iff] at ran
  obtain ⟨vm₁, destroyed, vm₂, areas, vm₃, nodes, vm₄, list, block⟩ := ran
  exact (((h.destroyUserPageDir destroyed).freeAreas space areas).kfreeAll nodes).kfree list
    |>.kfree block

/-! ## Creating an address space -/

/-- The kernel's directory has no table in user space. -/
def KernelOnly (vm : Vm) : Prop :=
  ∀ i, isUserSpace (i * 1024 * pageSize) → vm.dir vm.kernelDirectory i = none

lemma createUserPageDir_own (spares : Spares vm₀ vm) (kernel : KernelOnly vm)
    (h : vm.createUserPageDir = some (d, vm')) : OwnDir vm₀ d vm' := by
  simp only [createUserPageDir, bind, bind_eq_some_iff, pure, some.injEq,
    Prod.mk.injEq] at h
  obtain ⟨⟨d', vm₁⟩, alloc, ⟨node, vm₂⟩, alloc', rfl, rfl⟩ := h
  have new := kmalloc_newBlock alloc
  have spares₁ := spares.newBlock new
  have fresh : vm₀.next ≤ d' := new.block ▸ spares.next
  have empty (i : Nat) (space : isUserSpace (i * 1024 * pageSize)) :
      (vm₁.setDir d' (vm₁.dir vm₁.kernelDirectory)).dir d' i = none := by
    rw [setDir_dir, new.dir, new.kernelDirectory]
    exact kernel i space
  have own : OwnDir vm₀ d' (vm₁.setDir d' (vm₁.dir vm₁.kernelDirectory)) := by
    refine ⟨⟨spares₁.next, fun c old => ?_, spares₁.table, spares₁.used, spares₁.mem⟩,
      fresh, ?_, ?_⟩
    · exact (update_of_ne (old.trans_le fresh).ne _ _).trans (spares₁.dir c old)
    · intro i t space used
      rw [empty i space] at used
      cases used
    · intro addr space mapped
      refine absurd ?_ mapped
      rw [pte, empty _ (isUserSpace_tableIndex space)]
  have last := own.newBlock (kmalloc_newBlock alloc')
  exact last.keep ⟨last.next, last.dir, last.table, last.used, last.mem⟩ rfl rfl

lemma vmmCreateUserMm_own (spares : Spares vm₀ vm) (kernel : KernelOnly vm)
    (h : vm.vmmCreateUserMm = some (mm, vm')) :
    OwnDir vm₀ mm.directory vm' ∧
      ∀ a ∈ mm.areas, ∀ addr ∈ pagesFrom a.start a.stop, isUserSpace addr := by
  simp only [vmmCreateUserMm, vmmAllocUser, vmmStoreArea, bind, bind_eq_some_iff, pure,
    some.injEq, Prod.mk.injEq, kassert_eq_some, exists_const] at h
  obtain ⟨⟨block, vm₁⟩, alloc, ⟨list, vm₂⟩, alloc', ⟨d, vm₃⟩, created, ⟨mm₁, vm₄⟩,
    ⟨-, vm₅, filled, ⟨areas, vm₆⟩, ⟨⟨a, vm₇⟩, alloc₃, ⟨node, vm₈⟩, alloc₄, rfl, rfl⟩, rfl, rfl⟩,
    vm₉, guarded, rfl, rfl⟩ := h
  have stack : ∀ addr ∈ pagesFrom (userStackStart - (userStackSize + pageSize))
      (userStackStart + pageSize), isUserSpace addr := by
    intro addr mem
    obtain ⟨-, low, high⟩ := (mem_pagesFrom (by decide) (by decide)).mp mem
    constructor
    · exact le_trans (by decide) low
    · exact lt_of_lt_of_le high (by decide)
  have new := kmalloc_newBlock alloc
  have new' := kmalloc_newBlock alloc'
  have kernel₂ : KernelOnly vm₂ := by
    intro i space
    rw [new'.kernelDirectory, new'.dir, new.kernelDirectory, new.dir]
    exact kernel i space
  have own := createUserPageDir_own ((spares.newBlock new).newBlock new') kernel₂ created
  have mapped := ((own.allocPages stack filled).newBlock (kmalloc_newBlock alloc₃)).newBlock
    (kmalloc_newBlock alloc₄)
  refine ⟨mapped.vmmSetGuard (by decide) guarded, fun a mem => ?_⟩
  obtain rfl := mem_singleton.mp mem
  exact stack

end ExscapeOS.Vmm
