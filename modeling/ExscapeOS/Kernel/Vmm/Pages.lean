import ExscapeOS.Kernel.Vmm.Basic

/-!
# What the page functions do to a directory

Seen from one directory, memory is a function from page numbers to entries, `Vm.entry`. Mapping and
unmapping a page, and moving a guard page, change it at one place; allocating blocks and page tables
does not change it. The condition, `DirOk`, is that the tables of the directory are different blocks
that have been handed out.
-/
namespace ExscapeOS.Vmm

open Lib Function Vm List Option

variable {vm vm' vm'' : Vm} {d f i n p t addr : Nat} {e : Pte}

/-- The entry for page number `p`. -/
def Vm.entry (vm : Vm) (d p : Nat) : Pte := vm.pte d (p * pageSize)

lemma pte_eq (vm : Vm) (d addr : Nat) : vm.pte d addr = vm.entry d (addr / pageSize) := by
  unfold Vm.entry pte tableIndex pageIndex
  rw [Nat.mul_div_cancel _ (by decide)]

/-- The tables of the directory are different blocks in use. -/
structure DirOk (vm : Vm) (d : Nat) : Prop where
  bound : ∀ i t, vm.dir d i = some t → i < 1024
  inj : ∀ i j t, vm.dir d i = some t → vm.dir d j = some t → i = j
  old : ∀ i t, vm.dir d i = some t → t < vm.next

lemma DirOk.congr (ok : DirOk vm d) (dir : vm'.dir d = vm.dir d) (next : vm.next ≤ vm'.next) :
    DirOk vm' d where
  bound := by
    rw [dir]
    exact ok.bound
  inj := by
    rw [dir]
    exact ok.inj
  old i t h := (ok.old i t (dir ▸ h)).trans_le next

lemma entry_congr (dir : vm'.dir d = vm.dir d)
    (table : ∀ i t, vm.dir d i = some t → vm'.table t = vm.table t) : vm'.entry d = vm.entry d := by
  funext p
  unfold Vm.entry pte
  rw [dir]
  cases h : vm.dir d (tableIndex (p * pageSize)) with
  | none => rfl
  | some t => simp only [table _ t h]

/-- A step that leaves the directory as it is and frees no frame. -/
structure Keeps (d : Nat) (vm vm' : Vm) : Prop where
  ok : DirOk vm' d
  entry : vm'.entry d = vm.entry d
  used : ∀ f, vm.pmm.pooled f = true → vm'.pmm.pooled f = true

lemma Keeps.refl (ok : DirOk vm d) : Keeps d vm vm := ⟨ok, rfl, fun _ => id⟩

lemma Keeps.trans (h : Keeps d vm vm') (h' : Keeps d vm' vm'') : Keeps d vm vm'' :=
  ⟨h'.ok, h'.entry.trans h.entry, fun f used => h'.used f (h.used f used)⟩

/-! ## Blocks and frames -/

/-- A step that takes `n` free frames and leaves the contents of the used ones. -/
structure Takes (n : Nat) (vm vm' : Vm) : Prop where
  eq : vm' = { vm with pmm := vm'.pmm, mem := vm'.mem }
  pmm : vm.pmm.Extends vm'.pmm
  mem : ∀ f, vm.pmm.used f = true → vm'.mem f = vm.mem f
  avail : vm'.pmm.avail.card + n = vm.pmm.avail.card

lemma Takes.refl (vm : Vm) : Takes 0 vm vm := ⟨rfl, .refl _, fun _ _ => rfl, rfl⟩

lemma Takes.trans {m n : Nat} (h : Takes m vm vm') (h' : Takes n vm' vm'') :
    Takes (m + n) vm vm'' where
  eq := by
    obtain ⟨eq, -⟩ := h
    obtain ⟨eq', -⟩ := h'
    generalize vm'.pmm = pmm, vm'.mem = contents at eq
    subst eq
    exact eq'
  pmm := h.pmm.trans h'.pmm
  mem f used := (h'.mem f (h.pmm.used f used)).trans (h.mem f used)
  avail := by
    have first := h.avail
    have last := h'.avail
    omega

lemma pmmAlloc_takes (h : vm.pmmAlloc = some (f, vm')) :
    Takes 1 vm vm' ∧ f ∈ vm.pmm.avail ∧ vm'.pmm.used f = true := by
  obtain ⟨⟨g, pmm⟩, alloc, eq⟩ := map_eq_some_iff.mp h
  simp only [Prod.mk.injEq] at eq
  obtain ⟨rfl, rfl⟩ := eq
  obtain ⟨mem, -, used⟩ := Pmm.alloc_spec alloc
  have free := (Pmm.mem_avail.mp mem).2
  refine ⟨⟨rfl, Pmm.alloc_extends alloc, fun f' before => ?_, ?_⟩, mem, ?_⟩
  · have ne : f' ≠ g := by
      rintro rfl
      rw [free] at before
      cases before
    simp [ne]
  · rw [Pmm.alloc_avail alloc]
    exact Finset.card_erase_add_one mem
  · simp [used]

lemma pmmAlloc_isSome (room : 0 < vm.pmm.avail.card) : ∃ f vm', vm.pmmAlloc = some (f, vm') := by
  have some := Pmm.alloc_isSome_iff.mpr (Finset.card_pos.mp room)
  obtain ⟨⟨f, pmm⟩, alloc⟩ := isSome_iff_exists.mp some
  exact ⟨f, _, by rw [pmmAlloc, alloc]; rfl⟩

lemma heapExpand_takes {n : Nat} (h : heapExpand n vm = some vm') : Takes n vm vm' := by
  induction n generalizing vm with
  | zero =>
    obtain rfl := some.inj h
    exact .refl vm
  | succ n ih =>
    simp only [heapExpand, bind, bind_eq_some_iff] at h
    obtain ⟨⟨f, vm₁⟩, alloc, rest⟩ := h
    rw [Nat.add_comm]
    exact (pmmAlloc_takes alloc).1.trans (ih rest)

/-- `kmalloc` hands out a new block, and takes frames as the heap grows. -/
structure NewBlock (vm : Vm) (block : Nat) (vm' : Vm) : Prop where
  block : block = vm.next
  eq : vm' = { vm with
    pmm := vm'.pmm, mem := vm'.mem, growth := vm.growth.tail, next := vm.next + 1
    live := update vm.live vm.next true }
  pmm : vm.pmm.Extends vm'.pmm
  mem : ∀ f, vm.pmm.used f = true → vm'.mem f = vm.mem f
  avail : vm'.pmm.avail.card + vm.growth.headD 0 = vm.pmm.avail.card

lemma kmalloc_newBlock (h : vm.kmalloc = some (t, vm')) : NewBlock vm t vm' := by
  simp only [kmalloc, bind, bind_eq_some_iff, pure, some.injEq, Prod.mk.injEq] at h
  obtain ⟨vm₁, grown, rfl, rfl⟩ := h
  obtain ⟨eq, taken, mem, avail⟩ := heapExpand_takes grown
  generalize vm₁.pmm = pmm, vm₁.mem = contents at *
  subst eq
  exact ⟨rfl, rfl, taken, mem, avail⟩

namespace NewBlock

variable (h : NewBlock vm t vm')

include h

lemma dir : vm'.dir = vm.dir := by rw [h.eq]

lemma table : vm'.table = vm.table := by rw [h.eq]

lemma next : vm'.next = vm.next + 1 := by rw [h.eq]

lemma kernelDirectory : vm'.kernelDirectory = vm.kernelDirectory := by rw [h.eq]

lemma pagedirs : vm'.pagedirs = vm.pagedirs := by rw [h.eq]

lemma live : vm'.live = update vm.live vm.next true := by rw [h.eq]

lemma keeps (ok : DirOk vm d) : Keeps d vm vm' where
  ok := ok.congr (congrFun h.dir d) (h.next ▸ Nat.le_succ _)
  entry := entry_congr (congrFun h.dir d) fun _ t _ => congrFun h.table t
  used _ := h.pmm.pooled

end NewBlock

lemma Takes.keeps (h : Takes n vm vm') (ok : DirOk vm d) : Keeps d vm vm' where
  ok := ok.congr (by rw [h.eq]) (by rw [h.eq])
  entry := entry_congr (by rw [h.eq]) fun _ t _ => by rw [h.eq]
  used _ := h.pmm.pooled

/-! ## Page tables -/

lemma setDir_dir (vm : Vm) (d : Nat) (tables : Nat → Option Nat) :
    (vm.setDir d tables).dir d = tables :=
  update_self ..

lemma linkTable_dir (vm : Vm) (d i t j : Nat) :
    (vm.linkTable d i t).dir d j = if j = i then some t else vm.dir d j := by
  simp only [linkTable, update_self, update_apply]

lemma linkTable_keeps (ok : DirOk vm d) (bound : i < 1024) (missing : vm.dir d i = none)
    (fresh : ∀ j u, vm.dir d j = some u → u ≠ t) (old : t < vm.next) :
    Keeps d vm (vm.linkTable d i t) := by
  refine ⟨⟨?_, ?_, ?_⟩, ?_, fun _ => id⟩
  · intro j u used
    rw [linkTable_dir] at used
    split_ifs at used with own
    · exact own ▸ bound
    · exact ok.bound j u used
  · intro j k u used used'
    rw [linkTable_dir] at used used'
    split_ifs at used used' with own own' own'
    · rw [own, own']
    · exact absurd (some.inj used).symm (fresh k u used')
    · exact absurd (some.inj used').symm (fresh j u used)
    · exact ok.inj j k u used used'
  · intro j u used
    rw [linkTable_dir] at used
    split_ifs at used with own
    · exact some.inj used ▸ old
    · exact ok.old j u used
  · funext p
    unfold Vm.entry pte
    rw [linkTable_dir]
    split_ifs with own
    · simp [own, missing, linkTable]
    · cases used : vm.dir d (tableIndex (p * pageSize)) with
      | none => rfl
      | some u => simp [linkTable, fresh _ u used]

lemma vmmCreatePageTable_keeps (ok : DirOk vm d) (bound : i < 1024)
    (h : vm.vmmCreatePageTable i d = some vm') : Keeps d vm vm' ∧ ∃ t, vm'.dir d i = some t := by
  simp only [vmmCreatePageTable, bind, bind_eq_some_iff, kassert_eq_some, exists_const, pure,
    some.injEq] at h
  obtain ⟨missing, ⟨t, vm₁⟩, alloc, -, rfl⟩ := h
  have new := kmalloc_newBlock alloc
  have first := new.keeps ok
  rw [← new.dir] at missing
  refine ⟨first.trans (linkTable_keeps first.ok bound missing (fun j u used => ?_) ?_), t, ?_⟩
  · rw [new.dir] at used
    exact new.block ▸ (ok.old j u used).ne
  · rw [new.next, new.block]
    exact Nat.lt_succ_self _
  · rw [linkTable_dir, if_pos rfl]

lemma touch_keeps (ok : DirOk vm d) (block : Nat) : Keeps d vm (vm.touch block) where
  ok := ok.congr rfl le_rfl
  entry := entry_congr rfl fun _ _ _ => rfl
  used _ := id

lemma vmmGetPage_keeps (ok : DirOk vm d) (bound : tableIndex addr < 1024)
    (h : vm.vmmGetPage addr d = some vm') :
    Keeps d vm vm' ∧ ∃ t, vm'.dir d (tableIndex addr) = some t := by
  unfold vmmGetPage at h
  split at h
  · have first := touch_keeps ok d
    obtain ⟨keeps, table⟩ := vmmCreatePageTable_keeps first.ok bound h
    exact ⟨first.trans keeps, table⟩
  · case h_2 t used =>
    cases h
    have first := touch_keeps ok d
    exact ⟨first.trans (touch_keeps first.ok t), t, used⟩

lemma vmmGetPage_of_entry (mapped : vm.entry d (addr / pageSize) ≠ .zero) :
    ∃ t, vm.vmmGetPage addr d = some ((vm.touch d).touch t) := by
  rw [← pte_eq, pte] at mapped
  unfold vmmGetPage
  split at mapped
  · exact absurd rfl mapped
  · case h_2 t used => exact ⟨t, rfl⟩

lemma setPte_entry (ok : DirOk vm d) (table : vm.dir d (tableIndex addr) = some t) (e : Pte) :
    DirOk (vm.setPte d addr e) d ∧
      (vm.setPte d addr e).entry d = update (vm.entry d) (addr / pageSize) e := by
  simp only [setPte, table]
  refine ⟨ok.congr rfl le_rfl, ?_⟩
  funext p
  have index : tableIndex (p * pageSize) = p / 1024 := by
    rw [tableIndex, Nat.mul_div_cancel _ (by decide)]
  have offset : pageIndex (p * pageSize) = p % 1024 := by
    rw [pageIndex, Nat.mul_div_cancel _ (by decide)]
  by_cases own : p = addr / pageSize
  · subst own
    have table' : vm.dir d (addr / pageSize / 1024) = some t := table
    unfold Vm.entry pte
    rw [index, offset, table']
    simp [pageIndex]
  · rw [update_of_ne own]
    unfold Vm.entry pte
    rw [index, offset]
    cases used : vm.dir d (p / 1024) with
    | none => rfl
    | some u =>
      by_cases same : u = t
      · -- another page of the same table
        subst same
        have other : p % 1024 ≠ pageIndex addr := by
          have tables := ok.inj _ _ u used table
          unfold tableIndex at tables
          unfold pageIndex
          omega
        simp [other]
      · simp [same]

lemma setPte_pmm (vm : Vm) (d addr : Nat) (e : Pte) : (vm.setPte d addr e).pmm = vm.pmm := by
  unfold setPte
  split <;> rfl

/-! ## Pages -/

/-- A step that changes the entry of one page, and frees no frame. -/
structure Sets (d p : Nat) (e : Pte) (vm vm' : Vm) : Prop where
  ok : DirOk vm' d
  entry : vm'.entry d = update (vm.entry d) p e
  used : ∀ f, vm.pmm.pooled f = true → vm'.pmm.pooled f = true

lemma Keeps.sets (keeps : Keeps d vm vm') (table : vm'.dir d (tableIndex addr) = some t) (e : Pte) :
    Sets d (addr / pageSize) e vm (vm'.setPte d addr e) := by
  obtain ⟨ok, entry⟩ := setPte_entry keeps.ok table e
  refine ⟨ok, by rw [entry, keeps.entry], fun f used => ?_⟩
  rw [setPte_pmm]
  exact keeps.used f used

/-- The entry that `vmm_alloc_user` makes. -/
def userPage (f addr : Nat) (writable : Bool) : Pte :=
  { Pte.zero with
    frame := f, present := true, rw := writable, user := true, global :=
      !decide (isUserSpace addr) }

lemma vmmMap_sets {writable : Bool} (ok : DirOk vm d) (bound : tableIndex addr < 1024)
    (h : vm.vmmMap addr f d false writable = some vm') :
    vm.entry d (addr / pageSize) = .zero ∧
      Sets d (addr / pageSize) (userPage f addr writable) vm vm' := by
  simp only [vmmMap, bind, bind_eq_some_iff, kassert_eq_some, exists_const, pure,
    some.injEq] at h
  obtain ⟨vm₁, got, empty, rfl⟩ := h
  obtain ⟨keeps, t, table⟩ := vmmGetPage_keeps ok bound got
  rw [pte_eq, keeps.entry] at empty
  exact ⟨empty, keeps.sets table _⟩

lemma vmmSetGuard_sets {guard : Bool} (ok : DirOk vm d) (bound : tableIndex addr < 1024)
    (h : vm.vmmSetGuard addr d guard = some vm') :
    Sets d (addr / pageSize)
      { vm.entry d (addr / pageSize) with present := !guard, guard := guard } vm vm' := by
  simp only [vmmSetGuard, bind, bind_eq_some_iff, kassert_eq_some, exists_const, pure,
    some.injEq] at h
  obtain ⟨vm₁, got, -, rfl⟩ := h
  obtain ⟨keeps, t, table⟩ := vmmGetPage_keeps ok bound got
  rw [pte_eq, keeps.entry]
  exact keeps.sets table _

lemma pmmFree_spec (h : vm.pmmFree f = some vm') : ∃ pmm, vm' = { vm with pmm := pmm } ∧
    pmm.pooled = update vm.pmm.pooled f false := by
  obtain ⟨pmm, freed, rfl⟩ := map_eq_some_iff.mp h
  exact ⟨pmm, rfl, Pmm.free_pooled freed⟩

lemma vmmFree_spec (ok : DirOk vm d) (mapped : vm.entry d (addr / pageSize) ≠ .zero)
    (h : vm.vmmFree addr d = some vm') : DirOk vm' d ∧
      vm'.entry d = update (vm.entry d) (addr / pageSize) .zero ∧
      vm'.pmm.pooled = update vm.pmm.pooled (vm.entry d (addr / pageSize)).frame false := by
  simp only [vmmFree, vmmUnmap, bind, bind_eq_some_iff, kassert_eq_some, exists_const, pure,
    some.injEq] at h
  obtain ⟨vm₁, got, vm₂, freed, vm₃, got', -, rfl⟩ := h
  obtain ⟨t, eq⟩ := vmmGetPage_of_entry mapped
  obtain rfl := some.inj (eq.symm.trans got)
  obtain ⟨pmm, rfl, used⟩ := pmmFree_spec freed
  have entry : vm.entry d = { (vm.touch d).touch t with pmm := pmm }.entry d := rfl
  rw [entry] at mapped
  have bound : tableIndex addr < 1024 := by
    by_contra high
    refine mapped ?_
    rw [← pte_eq, pte]
    split
    · rfl
    · case h_2 u used => exact absurd (ok.bound _ u used) high
  have ok₂ : DirOk { (vm.touch d).touch t with pmm := pmm } d := ok.congr rfl le_rfl
  obtain ⟨keeps, u, table⟩ := vmmGetPage_keeps ok₂ bound got'
  obtain ⟨t', eq'⟩ := vmmGetPage_of_entry mapped
  obtain rfl := some.inj (eq'.symm.trans got')
  obtain ⟨ok', after⟩ := setPte_entry keeps.ok table .zero
  refine ⟨ok', after, ?_⟩
  rw [setPte_pmm]
  rw [pte_eq] at used
  exact used

end ExscapeOS.Vmm
