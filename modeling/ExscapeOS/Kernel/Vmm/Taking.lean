import ExscapeOS.Kernel.Vmm.Clone

/-!
# Taking pages

`_vmm_get_page`, `_vmm_map` and the loop of `vmm_alloc_user` come to an end exactly when there are
enough frames for the pages and for the page tables that are missing.
-/
namespace ExscapeOS.Vmm

open Lib Function Vm List Option

variable {vm vm' : Vm} {d addr : Nat} {writable : Bool} {addrs : List Nat}

/-- The page tables that have to be created for some addresses. -/
def missingTables (vm : Vm) (d : Nat) (addrs : List Nat) : Finset Nat :=
  (addrs.map tableIndex).toFinset.filter fun i => vm.dir d i = none

lemma missingTables_rest
    (dir : ∀ i, vm'.dir d i = none ↔ vm.dir d i = none ∧ i ≠ tableIndex addr) :
    missingTables vm' d addrs = (missingTables vm d (addr :: addrs)).erase (tableIndex addr) := by
  ext i
  simp only [missingTables, Finset.mem_filter, Finset.mem_erase, List.mem_toFinset, List.map_cons,
    List.mem_cons, dir]
  tauto

lemma missingTables_card (vm : Vm) (d addr : Nat) (addrs : List Nat) :
    (missingTables vm d (addr :: addrs)).card =
      (if vm.dir d (tableIndex addr) = none then 1 else 0) +
        ((missingTables vm d (addr :: addrs)).erase (tableIndex addr)).card := by
  have mem : tableIndex addr ∈ missingTables vm d (addr :: addrs) ↔
      vm.dir d (tableIndex addr) = none := by
    simp [missingTables]
  split_ifs with missing
  · rw [Nat.add_comm]
    exact (Finset.card_erase_add_one (mem.mpr missing)).symm
  · rw [Finset.erase_eq_of_notMem (mt mem.mp missing), Nat.zero_add]

lemma userSpace_tableIndex (user : isUserSpace addr) :
    isUserSpace (tableIndex addr * 4096 * 1024) ∧ tableIndex addr < 1024 := by
  unfold isUserSpace tableIndex pageSize at *
  omega

/-- What `_vmm_get_page` has done. -/
structure Looked (d addr : Nat) (vm vm' : Vm) : Prop where
  keeps : Keeps d vm vm'
  grows : Grows vm vm'
  table : ∃ t, vm'.dir d (tableIndex addr) = some t
  dir : ∀ i, vm'.dir d i = none ↔ vm.dir d i = none ∧ i ≠ tableIndex addr

lemma vmmGetPage_costs (ok : DirOk vm d) (user : isUserSpace addr) :
    Costs vm (if vm.dir d (tableIndex addr) = none then 1 else 0) 0 id (Looked d addr vm)
      (vm.vmmGetPage addr d) := by
  obtain ⟨space, bound⟩ := userSpace_tableIndex user
  have keeps (vm' : Vm) (got : vm.vmmGetPage addr d = some vm') := vmmGetPage_keeps ok bound got
  unfold vmmGetPage at keeps ⊢
  cases missing : vm.dir d (tableIndex addr) with
  | none =>
    simp only [missing, vmmCreatePageTable, kassert, bind] at keeps ⊢
    rw [if_pos (show (vm.touch d).dir d (tableIndex addr) = none from missing)] at keeps ⊢
    have costs := (kmalloc_costs (vm.touch d)).same vm rfl rfl
    rcases costs with ⟨⟨t, vm₁⟩, alloc, spent, new⟩ | ⟨short, few⟩
    · rw [alloc] at keeps ⊢
      simp only [bind_some, space, true_or, if_true, pure] at keeps ⊢
      obtain ⟨kept, table⟩ := keeps _ rfl
      refine .inl ⟨_, rfl, ⟨spent.growth, spent.avail⟩, kept, ⟨new.pmm, new.mem⟩,
        table, fun i => ?_⟩
      have same : vm₁.dir d i = vm.dir d i := congrFun (congrFun new.dir d) i
      rw [linkTable_dir, same]
      by_cases own : i = tableIndex addr <;> simp [own]
    · rw [short]
      exact .inr ⟨rfl, few⟩
  | some t =>
    simp only [missing] at keeps ⊢
    obtain ⟨kept, table⟩ := keeps _ rfl
    refine .inl ⟨_, rfl, ⟨rfl, by simp [touch]⟩, kept, ⟨.refl _, fun _ _ => rfl⟩,
      table, fun i => ?_⟩
    refine ⟨fun none => ⟨none, ?_⟩, And.left⟩
    rintro rfl
    rw [show ((vm.touch d).touch t).dir d (tableIndex addr) = some t from missing] at none
    cases none

lemma setPte_same (vm : Vm) (d addr : Nat) (e : Pte) : (vm.setPte d addr e).growth = vm.growth ∧
    (vm.setPte d addr e).mem = vm.mem ∧ (vm.setPte d addr e).dir = vm.dir := by
  unfold setPte
  split <;> exact ⟨rfl, rfl, rfl⟩

/-- What `_vmm_map` has done. -/
structure Mapped (d addr : Nat) (e : Pte) (vm vm' : Vm) : Prop where
  ok : DirOk vm' d
  grows : Grows vm vm'
  entry : vm'.entry d = update (vm.entry d) (addr / pageSize) e
  dir : ∀ i, vm'.dir d i = none ↔ vm.dir d i = none ∧ i ≠ tableIndex addr

lemma vmmMap_costs (f : Nat) (writable : Bool) (ok : DirOk vm d) (user : isUserSpace addr)
    (empty : vm.entry d (addr / pageSize) = .zero) :
    Costs vm (if vm.dir d (tableIndex addr) = none then 1 else 0) 0 id
      (Mapped d addr (userPage f addr writable) vm) (vm.vmmMap addr f d false writable) := by
  refine Costs.bind (l := 0) (q := 0) (vmmGetPage_costs ok user) (fun vm₁ looked => ?_) rfl rfl
  obtain ⟨t, table⟩ := looked.table
  have zero : vm₁.pte d addr = .zero := by
    rw [pte_eq, looked.keeps.entry]
    exact empty
  obtain ⟨ok', entry⟩ := setPte_entry looked.keeps.ok table (userPage f addr writable)
  obtain ⟨growth, contents, dir⟩ := setPte_same vm₁ d addr (userPage f addr writable)
  have pmm := setPte_pmm vm₁ d addr (userPage f addr writable)
  simp only [kassert, id_eq, zero, if_true, bind, bind_some, pure]
  refine .inl ⟨vm₁.setPte d addr (userPage f addr writable), rfl, ⟨growth, by simp [pmm]⟩, ok',
    ⟨?_, ?_⟩, ?_, fun i => ?_⟩
  · rw [pmm]
    exact looked.grows.pmm
  · rw [contents]
    exact looked.grows.mem
  · rw [entry, looked.keeps.entry]
  · rw [dir]
    exact looked.dir i

/-- The pages are taken, or there are not enough frames for them and for the new page tables. -/
lemma allocPages_costs (ok : DirOk vm d) (user : ∀ addr ∈ addrs, isUserSpace addr)
    (nodup : (addrs.map (· / pageSize)).Nodup)
    (empty : ∀ addr ∈ addrs, vm.entry d (addr / pageSize) = .zero) :
    Costs vm (missingTables vm d addrs).card addrs.length id (Grows vm)
      (allocPages d writable addrs vm) := by
  induction addrs generalizing vm with
  | nil => exact .pure vm rfl (.refl vm)
  | cons addr rest ih =>
    rw [map_cons, nodup_cons] at nodup
    rw [allocPages, missingTables_card, length_cons]
    refine Costs.bind (pmmAlloc_costs vm) (fun r alloc => ?_) (Nat.zero_add _).symm
      (Nat.add_comm _ _)
    obtain ⟨f, vm₁⟩ := r
    have takes := (pmmAlloc_takes alloc).1
    have first := takes.keeps ok
    have dir₁ : vm₁.dir = vm.dir := by rw [takes.eq]
    have maps := vmmMap_costs f writable first.ok (user addr mem_cons_self)
      (first.entry ▸ empty addr mem_cons_self)
    rw [dir₁] at maps
    refine Costs.bind maps (fun vm₂ mapped => ?_) rfl (Nat.zero_add _).symm
    have more (a : Nat) (mem : a ∈ rest) : vm₂.entry d (a / pageSize) = .zero := by
      have ne : a / pageSize ≠ addr / pageSize := fun same =>
        nodup.1 (same ▸ mem_map_of_mem mem)
      rw [mapped.entry, update_of_ne ne, first.entry]
      exact empty a (mem_cons_of_mem _ mem)
    have loop := ih mapped.ok (fun a mem => user a (mem_cons_of_mem _ mem)) nodup.2 more
    rw [missingTables_rest fun i => dir₁ ▸ mapped.dir i] at loop
    exact loop.imp fun vm' grows => takes.grows.trans (mapped.grows.trans grows)

end ExscapeOS.Vmm
