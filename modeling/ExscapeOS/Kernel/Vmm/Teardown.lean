import ExscapeOS.Kernel.Vmm.Isolation

/-!
# Taking a clone down again

`destroy_task` frees the page directory of a task, with its tables, and then calls
`vmm_destroy_task_mm`, which looks up the pages of every area in that directory to free their
frames. So it uses a block that has been freed, unless there is nothing to look up. Apart from that,
nothing is left of the clone.
-/
namespace ExscapeOS.Vmm

open Lib Function Vm List Option

variable {vm vm' vm'' : Vm} {mm child : TaskMm} {b d addr : Nat} {is bs rest : List Nat}
  {live live₀ : Nat → Bool}

/-! ## The blocks that remain -/

/-- The live blocks are those of `live₀` and the new ones in `rest`. -/
structure Remains (live₀ : Nat → Bool) (rest : List Nat) (live : Nat → Bool) : Prop where
  live : ∀ b, live b = (live₀ b || decide (b ∈ rest))
  new : ∀ b ∈ rest, live₀ b = false
  nodup : rest.Nodup

/-- The same memory with other blocks and another list of directories. -/
def Vm.withBlocks (vm : Vm) (live : Nat → Bool) (pagedirs : List (Nat × Nat)) : Vm :=
  { vm with live := live, pagedirs := pagedirs }

lemma kfree_remains (vm : Vm) (pagedirs : List (Nat × Nat)) (h : Remains live₀ (b :: rest) live) :
    ∃ live', (vm.withBlocks live pagedirs).kfree b = some (vm.withBlocks live' pagedirs) ∧
      Remains live₀ rest live' := by
  obtain ⟨fresh, nodup⟩ := nodup_cons.mp h.nodup
  have here : live b = true := by simp [h.live]
  refine ⟨update live b false, by simp [kfree, kassert, withBlocks, here], ?_, ?_, nodup⟩
  · intro c
    by_cases own : c = b
    · simp [own, fresh, h.new b mem_cons_self]
    · simp [own, h.live]
  · exact fun c mem => h.new c (mem_cons_of_mem b mem)

lemma kfreeAll_remains (vm : Vm) (pagedirs : List (Nat × Nat))
    (h : Remains live₀ (bs ++ rest) live) :
    ∃ live', kfreeAll bs (vm.withBlocks live pagedirs) = some (vm.withBlocks live' pagedirs) ∧
      Remains live₀ rest live' := by
  induction bs generalizing live with
  | nil => exact ⟨live, rfl, h⟩
  | cons b bs ih =>
    obtain ⟨live₁, freed, h₁⟩ := kfree_remains vm pagedirs h
    obtain ⟨live', more, h'⟩ := ih h₁
    exact ⟨live', by simp [kfreeAll, freed, more], h'⟩

lemma freeTables_eq (tables : ∀ i t, vm.dir d i = some t →
      (vm.dir vm.kernelDirectory i = some t ↔ ¬ isUserSpace (i * 1024 * pageSize))) :
    freeTables d is vm = kfreeAll (userTables vm d is) vm := by
  induction is generalizing vm with
  | nil => rfl
  | cons i is ih =>
    rw [freeTables, userTables]
    cases table : vm.dir d i with
    | none =>
      rw [filterMap_cons_none (by simp [table])]
      exact ih tables
    | some t =>
      dsimp only
      by_cases space : isUserSpace (i * 1024 * pageSize)
      · have own : ¬ vm.dir vm.kernelDirectory i = some t := fun same =>
          (tables i t table).mp same space
        rw [if_neg own, filterMap_cons_some (b := t) (by simp [space, table]), kfreeAll]
        cases freed : vm.kfree t with
        | none => rfl
        | some vm₁ =>
          obtain ⟨live, rfl⟩ : ∃ live, vm₁ = { vm with live := live } := by
            simp only [kfree, bind, bind_eq_some_iff, kassert_eq_some, exists_const, pure,
              some.injEq] at freed
            exact ⟨_, freed.2.symm⟩
          exact ih tables
      · rw [if_pos ((tables i t table).mpr space), filterMap_cons_none (by simp [space])]
        exact ih tables

lemma pagesFrom_eq_nil {start stop : Nat} : pagesFrom start stop = [] ↔ stop ≤ start := by
  unfold pagesFrom pageSize
  rw [map_eq_nil_iff, range_eq_nil]
  omega

lemma freeAreas_eq {areas : List Area} (none : ∀ a ∈ areas, a.stop ≤ a.start) :
    freeAreas d areas vm = kfreeAll (areas.map Area.block) vm := by
  induction areas generalizing vm with
  | nil => rfl
  | cons a as ih =>
    obtain ⟨empty, rest⟩ := forall_mem_cons.mp none
    rw [freeAreas, pagesFrom_eq_nil.mpr empty, freePages, map_cons, kfreeAll]
    simp only [bind, bind_some, ih rest]

lemma blocks_perm (areas : List Area) :
    (areas.flatMap Area.blocks).Perm (areas.map Area.block ++ areas.map Area.node) := by
  induction areas with
  | nil => rfl
  | cons a as ih =>
    calc
      _ = a.node :: a.block :: as.flatMap Area.blocks := rfl
      List.Perm _ (a.node :: a.block :: (as.map Area.block ++ as.map Area.node)) :=
        (ih.cons _).cons _
      List.Perm _ (a.block :: a.node :: (as.map Area.block ++ as.map Area.node)) := .swap ..
      List.Perm _ (a.block :: (as.map Area.block ++ a.node :: as.map Area.node)) :=
        perm_middle.symm.cons _

/-! ## The clone taken down -/

/-- The blocks that have not been handed out are not live, and no freed block has been used. -/
structure BlocksOk (vm : Vm) : Prop where
  dead : ∀ b, vm.next ≤ b → vm.live b = false
  dirs : ∀ q ∈ vm.pagedirs, q.2 < vm.next
  kernelDirectory : vm.kernelDirectory < vm.next
  kernelTables : ∀ i t, vm.dir vm.kernelDirectory i = some t → t < vm.next
  clean : vm.stale = false

/-- The blocks of the clone, in the order in which they are freed. -/
def freedBlocks (vm' : Vm) (node : Nat) (child : TaskMm) : List Nat :=
  userTables vm' child.directory (List.range 1024) ++
    (node :: child.directory ::
      (child.areas.map Area.block ++ (child.areas.map Area.node ++ [child.list, child.block])))

/-- They are the blocks that the clone has allocated. -/
lemma Cloned.freedBlocks_perm {vm₁ : Vm} (h : Cloned vm mm child vm')
    (tables : userTables vm' child.directory (List.range 1024) =
      List.range' (child.directory + 1) (vm₁.next - (child.directory + 1)))
    (lt : child.directory < vm₁.next) :
    (freedBlocks vm' vm₁.next child).Perm (List.range' vm.next (vm₁.next + 1 - vm.next)) := by
  have first : (child.areas.map Area.block ++
      (child.areas.map Area.node ++ [child.list, child.block])).Perm
      (List.range' vm.next (2 + 2 * mm.areas.length)) := by
    rw [← h.blocks, ← append_assoc]
    calc
      List.Perm _ (child.areas.flatMap Area.blocks ++ [child.list, child.block]) :=
        (blocks_perm child.areas).symm.append_right _
      List.Perm _ ([child.list, child.block] ++ child.areas.flatMap Area.blocks) := perm_append_comm
      List.Perm _ _ := .swap ..
  have last : List.range' (child.directory + 1) (vm₁.next - (child.directory + 1)) ++ [vm₁.next] =
      List.range' (child.directory + 1) (vm₁.next - child.directory) := by
    rw [show vm₁.next - child.directory = vm₁.next - (child.directory + 1) + 1 by omega,
      range'_concat, Nat.one_mul, Nat.add_sub_cancel' (Nat.succ_le_of_lt lt)]
  have all : List.range' vm.next (2 + 2 * mm.areas.length) ++
      child.directory :: List.range' (child.directory + 1) (vm₁.next - child.directory) =
        List.range' vm.next (vm₁.next + 1 - vm.next) := by
    have directory := h.directory
    rw [← range'_succ, directory, range'_append_1,
      show 2 + 2 * mm.areas.length + (vm₁.next - (vm.next + (2 + 2 * mm.areas.length)) + 1) =
        vm₁.next + 1 - vm.next by omega]
  rw [freedBlocks, tables, ← all, ← last]
  calc
    List.Perm _ (List.range' (child.directory + 1) (vm₁.next - (child.directory + 1)) ++
        vm₁.next :: child.directory :: List.range' vm.next (2 + 2 * mm.areas.length)) :=
      ((first.cons _).cons _).append_left _
    _ = (List.range' (child.directory + 1) (vm₁.next - (child.directory + 1)) ++ [vm₁.next]) ++
        child.directory :: List.range' vm.next (2 + 2 * mm.areas.length) := by simp
    List.Perm _ (child.directory :: List.range' vm.next (2 + 2 * mm.areas.length) ++
        (List.range' (child.directory + 1) (vm₁.next - (child.directory + 1)) ++ [vm₁.next])) :=
      perm_append_comm
    List.Perm _ _ := perm_middle.symm

/-- Without pages to look up, the clone is taken down completely. -/
lemma Cloned.teardown (blocks : BlocksOk vm)
    (shared : ∀ i, ¬ isUserSpace (i * 1024 * pageSize) →
      vm.dir mm.directory i = vm.dir vm.kernelDirectory i)
    (user : UserDir vm mm.directory) (h : Cloned vm mm child vm')
    (none : ∀ a ∈ child.areas, a.stop ≤ a.start) :
    ∃ vm'', vm'.teardown child = some vm'' ∧ vm''.live = vm.live ∧ vm''.pmm = vm'.pmm ∧
      vm''.stale = false := by
  have dir := h.dir user
  obtain ⟨vm₁, vm₂, copying, block, eq⟩ := h.copying
  have dirs : vm'.dir = vm₁.dir := by rw [eq, ← block.dir]
  have tables : userTables vm' child.directory (List.range 1024) =
      List.range' (child.directory + 1) (vm₁.next - (child.directory + 1)) :=
    (userTables_congr fun i _ _ => by rw [dirs]).trans copying.tables.2
  have perm := h.freedBlocks_perm tables copying.tables.1
  have kernelDirectory : vm'.kernelDirectory = vm.kernelDirectory := by
    rw [eq]
    exact block.kernelDirectory.trans copying.kernelDirectory
  have pagedirs : vm'.pagedirs = vm.pagedirs ++ [(vm₁.next, child.directory)] :=
    congrArg Vm.pagedirs eq
  have clean : vm'.stale = false := by
    rw [eq]
    rw [block.eq]
    exact copying.stale.trans blocks.clean
  -- the blocks that are there now
  have remains : Remains vm.live (freedBlocks vm' vm₁.next child) vm'.live := by
    have above := copying.next
    refine ⟨fun b => ?_, fun b mem => ?_, perm.nodup_iff.mpr nodup_range'⟩
    · have live : vm'.live = update vm₁.live vm₁.next true := by
        rw [eq]
        exact block.live
      simp only [live, perm.mem_iff, mem_range'_1, update_apply, copying.live]
      grind
    · rw [perm.mem_iff, mem_range'_1] at mem
      exact blocks.dead b mem.1
  have kernel (i t : Nat) (table : vm'.dir child.directory i = some t) :
      vm'.dir vm'.kernelDirectory i = some t ↔ ¬ isUserSpace (i * 1024 * pageSize) := by
    rw [kernelDirectory, dir.dir _ (blocks.kernelDirectory.trans_le dir.new).ne]
    constructor
    · intro same space
      rw [dirs] at table
      exact absurd (blocks.kernelTables i t same) (not_lt.mpr (copying.fresh i t space table))
    · intro outside
      rw [← shared i outside, ← dir.shared i outside, table]
  have found : vm'.pagedirs.find? (fun q => q.2 = child.directory) =
    some (vm₁.next, child.directory) := by
    have older : vm.pagedirs.find? (fun q => q.2 = child.directory) = Option.none := by
      refine find?_eq_none.mpr fun q mem => ?_
      simpa using ((blocks.dirs q mem).trans_le dir.new).ne
    rw [pagedirs, find?_append, older]
    simp
  -- the blocks are freed one after the other
  set pagedirs' := vm'.pagedirs.erase (vm₁.next, child.directory) with erased
  obtain ⟨live₁, freed₁, remains₁⟩ := kfreeAll_remains vm' vm'.pagedirs remains
  obtain ⟨live₂, freed₂, remains₂⟩ := kfree_remains vm' pagedirs' remains₁
  obtain ⟨live₃, freed₃, remains₃⟩ := kfree_remains vm' pagedirs' remains₂
  obtain ⟨live₄, freed₄, remains₄⟩ := kfreeAll_remains vm' pagedirs' remains₃
  obtain ⟨live₅, freed₅, remains₅⟩ := kfreeAll_remains vm' pagedirs' remains₄
  obtain ⟨live₆, freed₆, remains₆⟩ := kfree_remains vm' pagedirs' remains₅
  obtain ⟨live₇, freed₇, remains₇⟩ := kfree_remains vm' pagedirs' remains₆
  have other : child.directory ≠ vm'.kernelDirectory :=
    kernelDirectory ▸ (blocks.kernelDirectory.trans_le dir.new).ne'
  have removed : (vm'.withBlocks live₁ vm'.pagedirs).removePagedir child.directory =
      some (vm'.withBlocks live₂ pagedirs') := by
    simp only [removePagedir, withBlocks, found]
    exact freed₂
  have destroyed : vm'.destroyUserPageDir child.directory =
    some (vm'.withBlocks live₃ pagedirs') := by
    have freed : freeTables child.directory (List.range 1024) vm' =
        some (vm'.withBlocks live₁ vm'.pagedirs) := (freeTables_eq kernel).trans freed₁
    simp only [destroyUserPageDir, kassert, if_pos other, bind, bind_some, freed, removed, freed₃]
  refine ⟨vm'.withBlocks live₇ pagedirs', ?_, ?_, rfl, clean⟩
  · simp only [Vm.teardown, destroyed, vmmDestroyTaskMm, freeAreas_eq none, bind, bind_some,
      freed₄, freed₅, freed₆, freed₇]
  · funext b
    simpa [withBlocks] using remains₇.live b

/-! ## Looking up freed directories -/

lemma kfree_stale (h : vm.kfree b = some vm') : vm'.stale = vm.stale ∧ vm'.live =
    update vm.live b false := by
  simp only [kfree, bind, bind_eq_some_iff, kassert_eq_some, exists_const, pure,
    some.injEq] at h
  obtain ⟨-, rfl⟩ := h
  exact ⟨rfl, rfl⟩

lemma vmmCreatePageTable_stale {i : Nat} (h : vm.vmmCreatePageTable i d = some vm') :
    vm'.stale = vm.stale := by
  simp only [vmmCreatePageTable, bind, bind_eq_some_iff, kassert_eq_some, exists_const, pure,
    some.injEq] at h
  obtain ⟨-, ⟨t, vm₁⟩, alloc, -, rfl⟩ := h
  change vm₁.stale = _
  rw [(kmalloc_newBlock alloc).eq]

/-- A lookup is noted if the directory has been freed, and a note stays. -/
lemma vmmGetPage_stale (before : vm.stale = true ∨ vm.live d = false)
    (h : vm.vmmGetPage addr d = some vm') : vm'.stale = true := by
  have touched : (vm.touch d).stale = true := by
    rcases before with stale | dead <;> simp [touch, *]
  unfold vmmGetPage at h
  split at h
  · rw [vmmCreatePageTable_stale h, touched]
  · cases h
    rw [touch, touched, Bool.true_or]

lemma vmmFree_stale (before : vm.stale = true ∨ vm.live d = false)
    (h : vm.vmmFree addr d = some vm') :
    vm'.stale = true := by
  simp only [vmmFree, vmmUnmap, bind, bind_eq_some_iff, kassert_eq_some, exists_const, pure,
    some.injEq] at h
  obtain ⟨vm₁, got, vm₂, freed, vm₃, got', -, rfl⟩ := h
  obtain ⟨pmm, rfl, -⟩ := pmmFree_spec freed
  have first : vm₁.stale = true := vmmGetPage_stale before got
  have stale : vm₃.stale = true := by
    refine vmmGetPage_stale ?_ got'
    exact .inl first
  unfold setPte
  split <;> exact stale

lemma freePages_stale {addrs : List Nat} (before : vm.stale = true)
    (h : freePages d addrs vm = some vm') : vm'.stale = true := by
  induction addrs generalizing vm with
  | nil => exact some.inj h ▸ before
  | cons addr addrs ih =>
    obtain ⟨vm₁, freed, more⟩ := bind_eq_some_iff.mp h
    exact ih (vmmFree_stale (.inl before) freed) more

lemma freeAreas_stale {areas : List Area} (before : vm.stale = true)
    (h : freeAreas d areas vm = some vm') : vm'.stale = true := by
  induction areas generalizing vm with
  | nil => exact some.inj h ▸ before
  | cons a as ih =>
    simp only [freeAreas, bind, bind_eq_some_iff] at h
    obtain ⟨vm₁, freed, vm₂, block, more⟩ := h
    refine ih ?_ more
    rw [(kfree_stale block).1, freePages_stale before freed]

/-- If no lookup in the freed directory has been noted, there was none. -/
lemma freeAreas_pages {areas : List Area} (dead : vm.live d = false) (after : vm'.stale = false)
    (h : freeAreas d areas vm = some vm') : ∀ a ∈ areas, a.stop ≤ a.start := by
  induction areas generalizing vm with
  | nil => simp
  | cons a as ih =>
    simp only [freeAreas, bind, bind_eq_some_iff] at h
    obtain ⟨vm₁, freed, vm₂, block, more⟩ := h
    obtain ⟨stale, live⟩ := kfree_stale block
    cases pages : pagesFrom a.start a.stop with
    | nil =>
      rw [pages] at freed
      cases freed
      refine forall_mem_cons.mpr ⟨pagesFrom_eq_nil.mp pages, ih ?_ more⟩
      rw [live, update_apply, dead, ite_self]
    | cons addr addrs =>
      rw [pages] at freed
      obtain ⟨vm₃, first, others⟩ := bind_eq_some_iff.mp freed
      have noted := freePages_stale (vmmFree_stale (.inr dead) first) others
      rw [freeAreas_stale (stale.trans noted) more] at after
      cases after

lemma kfreeAll_stale (h : kfreeAll bs vm = some vm') : vm'.stale = vm.stale := by
  induction bs generalizing vm with
  | nil => exact congrArg Vm.stale (some.inj h).symm
  | cons b bs ih =>
    obtain ⟨vm₁, freed, more⟩ := bind_eq_some_iff.mp h
    rw [ih more, (kfree_stale freed).1]

lemma teardown_pages (after : vm'.stale = false) (h : vm.teardown mm = some vm') :
    ∀ a ∈ mm.areas, a.stop ≤ a.start := by
  simp only [Vm.teardown, destroyUserPageDir, vmmDestroyTaskMm, bind, bind_eq_some_iff,
    kassert_eq_some, exists_const] at h
  obtain ⟨vm₁, ⟨-, vm₂, -, vm₃, -, freed⟩, vm₄, areas, vm₅, nodes, vm₆, list, block⟩ := h
  have dead : vm₁.live mm.directory = false := by rw [(kfree_stale freed).2, update_self]
  refine freeAreas_pages dead ?_ areas
  rw [← after, (kfree_stale block).1, (kfree_stale list).1, kfreeAll_stale nodes]

/-! ## When everything is restored -/

lemma Area.bounds_le {areas areas' : List Area}
    (bounds : areas'.map Area.bounds = areas.map Area.bounds) :
    (∀ a ∈ areas', a.stop ≤ a.start) ↔ ∀ a ∈ areas, a.stop ≤ a.start := by
  have iff (as : List Area) : (∀ a ∈ as, a.stop ≤ a.start) ↔ ∀ b ∈ as.map Area.bounds,
    b.2.1 ≤ b.1 := by
    simp [Area.bounds]
  rw [iff, iff, bounds]

/-- Cloning an address space and taking the clone down restores the used frames and the live blocks,
without looking up pages in freed tables, if and only if the clone has needed no frame and no area
has a page. -/
theorem teardown_restores_iff (blocks : BlocksOk vm)
    (shared : ∀ i, ¬ isUserSpace (i * 1024 * pageSize) →
      vm.dir mm.directory i = vm.dir vm.kernelDirectory i)
    (user : UserDir vm mm.directory) (ran : vm.vmmCloneMm mm = some (child, vm')) :
    (∃ vm'', vm'.teardown child = some vm'' ∧ vm''.stale = false ∧
      vm''.pmm.used = vm.pmm.used ∧ vm''.live = vm.live) ↔
      (∀ a ∈ mm.areas, a.stop ≤ a.start) ∧ cloneNeeds vm mm = 0 := by
  obtain ⟨spent, cloned⟩ := (vmmCloneMm_costs user).of_some ran
  have grows : Grows vm vm' := (cloned.dir user).grows
  have needs : vm'.pmm.avail.card + cloneNeeds vm mm = vm.pmm.avail.card := spent.avail
  rw [← Area.bounds_le cloned.bounds]
  constructor
  · rintro ⟨vm'', down, clean, used, -⟩
    have none := teardown_pages clean down
    refine ⟨none, ?_⟩
    -- nothing has been given back
    obtain ⟨vm₁, eq, -, pmm, -⟩ := cloned.teardown blocks shared user none
    obtain rfl := some.inj (down.symm.trans eq)
    rw [pmm] at used
    have avail : vm'.pmm.avail = vm.pmm.avail := by
      unfold Pmm.avail
      rw [used, grows.pmm.nframes]
    rw [avail] at needs
    omega
  · rintro ⟨none, nothing⟩
    obtain ⟨vm'', down, live, pmm, clean⟩ := cloned.teardown blocks shared user none
    rw [nothing] at needs
    exact ⟨vm'', down, clean, pmm ▸ grows.pmm.used_eq needs, live⟩

lemma onePage_blocksOk : BlocksOk onePage where
  dead b above := decide_eq_false (not_lt.mpr above)
  dirs := by simp [onePage]
  kernelDirectory := by decide
  kernelTables := by simp [onePage]
  clean := rfl

lemma onePage_shared (i : Nat) (kernel : ¬ isUserSpace (i * 1024 * pageSize)) :
    onePage.dir 1 i = onePage.dir onePage.kernelDirectory i := by
  rw [isUserSpace_table] at kernel
  have other : i ≠ 100 := by omega
  simp [onePage, bareMachine, other]

theorem teardown_restores_iff_sample : ∃ child vm', onePage.vmmCloneMm onePageMm =
    some (child, vm') ∧ ¬ ∃ vm'', vm'.teardown child = some vm'' ∧ vm''.stale = false ∧
      vm''.pmm.used = onePage.pmm.used ∧ vm''.live = onePage.live := by
  have needs : cloneNeeds onePage onePageMm = 1 := by decide +kernel
  have user : UserDir onePage onePageMm.directory := onePage_userDir
  obtain ⟨⟨child, vm'⟩, ran, -⟩ := (vmmCloneMm_costs user).of_enough (needs.le.trans (by decide))
  refine ⟨child, vm', ran, fun restored => ?_⟩
  have nothing := ((teardown_restores_iff onePage_blocksOk onePage_shared user ran).mp restored).2
  rw [needs] at nothing
  cases nothing

/-- The same task, with an area for its page. -/
def oneAreaMm : TaskMm :=
  { onePageMm with
    areas :=
      [{ start := 0x19005000, stop := 0x19006000, writable := true, block := 0, node := 0 }] }

/-- The page of the clone is looked up in the directory that has been freed. -/
theorem freed_directory_used : ∃ child vm', onePage.vmmCloneMm oneAreaMm = some (child, vm') ∧
    ∀ vm'', vm'.teardown child = some vm'' → vm''.stale = true := by
  have needs : cloneNeeds onePage oneAreaMm = 1 := by decide +kernel
  have user : UserDir onePage oneAreaMm.directory := onePage_userDir
  obtain ⟨⟨child, vm'⟩, ran, -, cloned⟩ := (vmmCloneMm_costs user).of_enough
    (needs.le.trans (by decide))
  refine ⟨child, vm', ran, fun vm'' down => ?_⟩
  by_contra clean
  have none := (Area.bounds_le cloned.bounds).mp (teardown_pages (by simpa using clean) down)
  exact absurd (none _ mem_cons_self) (by decide)

end ExscapeOS.Vmm
