import ExscapeOS.Kernel.Vmm.Isolation
import ExscapeOS.Lib.Lockstep

/-!
# Address spaces that behave alike

Which pages of a task are mapped, and whether the next allocation succeeds, does not depend on the
numbers of its frames and blocks. Two directories are twins if they agree in everything else; then
all functions change both in the same way.
-/
namespace ExscapeOS.Vmm

open Lib Function Vm List Option

variable {vm vm' vm₁ vm₂ vm₁' vm₂' : Vm} {d d₁ d₂ f f₁ f₂ i p addr : Nat} {e e₁ e₂ : Pte}
  {writable : Bool}

/-- An entry without its frame. -/
def Pte.flags (e : Pte) : Pte := { e with frame := 0 }

/-- Entries that differ only in their frames. -/
structure SameFlags (e₁ e₂ : Pte) : Prop where
  flags : e₁.flags = e₂.flags
  zero : e₁ = .zero ↔ e₂ = .zero

section

variable (h : SameFlags e₁ e₂)
include h

lemma SameFlags.user : e₁.user = e₂.user :=
  show e₁.flags.user = e₂.flags.user by rw [h.flags]

lemma SameFlags.rw : e₁.rw = e₂.rw :=
  show e₁.flags.rw = e₂.flags.rw by rw [h.flags]

lemma SameFlags.present : e₁.present = e₂.present :=
  show e₁.flags.present = e₂.flags.present by rw [h.flags]

lemma SameFlags.guard : e₁.guard = e₂.guard :=
  show e₁.flags.guard = e₂.flags.guard by rw [h.flags]

end

/-- Seen from the outside, `d₁` in `vm₁` and `d₂` in `vm₂` are the same. -/
structure Twin (d₁ d₂ : Nat) (vm₁ vm₂ : Vm) : Prop where
  ok₁ : DirOk vm₁ d₁
  ok₂ : DirOk vm₂ d₂
  own₁ : d₁ ≠ vm₁.kernelDirectory
  own₂ : d₂ ≠ vm₂.kernelDirectory
  entries : ∀ p, SameFlags (vm₁.entry d₁ p) (vm₂.entry d₂ p)
  tables : ∀ i, (vm₁.dir d₁ i).isSome = (vm₂.dir d₂ i).isSome
  growth : vm₁.growth = vm₂.growth
  avail : vm₁.pmm.avail.card = vm₂.pmm.avail.card

/-! ## Steps that cannot be seen -/

/-- The directory looks as before. -/
structure Unseen (d : Nat) (vm vm' : Vm) : Prop where
  ok : DirOk vm' d
  entry : vm'.entry d = vm.entry d
  tables : ∀ i, (vm'.dir d i).isSome = (vm.dir d i).isSome
  kernelDirectory : vm'.kernelDirectory = vm.kernelDirectory

lemma Takes.unseen {n : Nat} (h : Takes n vm vm') (ok : DirOk vm d) : Unseen d vm vm' where
  ok := (h.keeps ok).ok
  entry := (h.keeps ok).entry
  tables i := by rw [h.eq]
  kernelDirectory := by rw [h.eq]

lemma NewBlock.unseen {t : Nat} (h : NewBlock vm t vm') (ok : DirOk vm d) : Unseen d vm vm' where
  ok := (h.keeps ok).ok
  entry := (h.keeps ok).entry
  tables i := by rw [h.dir]
  kernelDirectory := h.kernelDirectory

lemma touch_unseen (ok : DirOk vm d) (b : Nat) : Unseen d vm (vm.touch b) where
  ok := (touch_keeps ok b).ok
  entry := (touch_keeps ok b).entry
  tables _ := rfl
  kernelDirectory := rfl

lemma Twin.unseen (h : Twin d₁ d₂ vm₁ vm₂) (h₁ : Unseen d₁ vm₁ vm₁') (h₂ : Unseen d₂ vm₂ vm₂')
    (growth : vm₁'.growth = vm₂'.growth) (avail : vm₁'.pmm.avail.card = vm₂'.pmm.avail.card) :
    Twin d₁ d₂ vm₁' vm₂' where
  ok₁ := h₁.ok
  ok₂ := h₂.ok
  own₁ := h₁.kernelDirectory ▸ h.own₁
  own₂ := h₂.kernelDirectory ▸ h.own₂
  entries p := by
    rw [h₁.entry, h₂.entry]
    exact h.entries p
  tables i := by rw [h₁.tables, h₂.tables, h.tables]
  growth := growth
  avail := avail

/-! ## Frames and blocks -/

lemma pmmAlloc_isSome_iff : vm.pmmAlloc.isSome ↔ 0 < vm.pmm.avail.card := by
  rw [pmmAlloc, isSome_map, Pmm.alloc_isSome_iff, Finset.card_pos]

lemma Twin.pmmAlloc (h : Twin d₁ d₂ vm₁ vm₂) :
    Lockstep (fun r s => Twin d₁ d₂ r.2 s.2) vm₁.pmmAlloc vm₂.pmmAlloc := by
  refine .of_isSome ?_ fun r s alloc alloc' => ?_
  · rw [Bool.eq_iff_iff, pmmAlloc_isSome_iff, pmmAlloc_isSome_iff, h.avail]
  · have takes := (pmmAlloc_takes alloc).1
    have takes' := (pmmAlloc_takes alloc').1
    refine h.unseen (takes.unseen h.ok₁) (takes'.unseen h.ok₂) ?_ ?_
    · rw [takes.eq, takes'.eq]
      exact h.growth
    · have left := takes.avail
      have left' := takes'.avail
      have same := h.avail
      omega

lemma kmalloc_isSome_iff : vm.kmalloc.isSome ↔ (vm.growth.take 1).sum ≤ vm.pmm.avail.card := by
  constructor
  · intro some
    obtain ⟨r, alloc⟩ := isSome_iff_exists.mp some
    have spent := (kmalloc_newBlock alloc).spends.avail
    omega
  · intro room
    obtain ⟨vm', alloc⟩ := kmalloc_isSome room
    rw [alloc]
    rfl

section

variable (h : Twin d₁ d₂ vm₁ vm₂)
include h

lemma Twin.kmalloc :
    Lockstep (fun r s => Twin d₁ d₂ r.2 s.2) vm₁.kmalloc vm₂.kmalloc := by
  refine .of_isSome ?_ fun r s alloc alloc' => ?_
  · rw [Bool.eq_iff_iff, kmalloc_isSome_iff, kmalloc_isSome_iff, h.growth, h.avail]
  · have new := kmalloc_newBlock alloc
    have new' := kmalloc_newBlock alloc'
    refine h.unseen (new.unseen h.ok₁) (new'.unseen h.ok₂) ?_ ?_
    · rw [new.spends.growth, new'.spends.growth, h.growth]
    · have left := new.spends.avail
      have left' := new'.spends.avail
      rw [← h.growth, ← h.avail] at left'
      omega

/-! ## Page tables and pages -/

lemma Twin.missing (i : Nat) :
    vm₁.dir d₁ i = none ↔ vm₂.dir d₂ i = none := by
  have same := h.tables i
  cases table : vm₁.dir d₁ i <;> cases table' : vm₂.dir d₂ i <;> simp_all

lemma Twin.vmmCreatePageTable (bound : i < 1024) :
    Lockstep (Twin d₁ d₂) (vm₁.vmmCreatePageTable i d₁) (vm₂.vmmCreatePageTable i d₂) := by
  have seen : Lockstep (fun a b => (d₁ ≠ a.kernelDirectory ∧ d₂ ≠ b.kernelDirectory) ∧
      (∀ j, (a.dir d₁ j).isSome = (b.dir d₂ j).isSome) ∧ a.growth = b.growth ∧
      a.pmm.avail.card = b.pmm.avail.card)
      (vm₁.vmmCreatePageTable i d₁) (vm₂.vmmCreatePageTable i d₂) := by
    refine .kassert (h.missing i) fun _ _ => h.kmalloc.bind ?_
    rintro ⟨t₁, vm₁'⟩ ⟨t₂, vm₂'⟩ - - twin
    refine .kassert ?_ fun _ _ => .both ⟨⟨twin.own₁, twin.own₂⟩, fun j => ?_,
      twin.growth, twin.avail⟩
    · simp [twin.own₁, twin.own₂]
    · rw [linkTable_dir, linkTable_dir]
      split_ifs
      · rfl
      · exact twin.tables j
  refine seen.imp fun a b created created' ⟨own, tables, growth, avail⟩ => ?_
  have keeps := (vmmCreatePageTable_keeps h.ok₁ bound created).1
  have keeps' := (vmmCreatePageTable_keeps h.ok₂ bound created').1
  refine ⟨keeps.ok, keeps'.ok, own.1, own.2, fun p => ?_, tables, growth, avail⟩
  rw [keeps.entry, keeps'.entry]
  exact h.entries p

lemma Twin.touch (b₁ b₂ : Nat) : Twin d₁ d₂ (vm₁.touch b₁) (vm₂.touch b₂) :=
  h.unseen (touch_unseen h.ok₁ b₁) (touch_unseen h.ok₂ b₂) h.growth h.avail

lemma Twin.vmmGetPage (bound : tableIndex addr < 1024) :
    Lockstep (Twin d₁ d₂) (vm₁.vmmGetPage addr d₁) (vm₂.vmmGetPage addr d₂) := by
  have missing := h.missing (tableIndex addr)
  unfold Vm.vmmGetPage
  cases table : vm₁.dir d₁ (tableIndex addr) with
  | none =>
    rw [missing.mp table]
    exact (h.touch d₁ d₂).vmmCreatePageTable bound
  | some t =>
    cases table' : vm₂.dir d₂ (tableIndex addr) with
    | none =>
      rw [missing.mpr table'] at table
      cases table
    | some t' => exact .both ((h.touch d₁ d₂).touch t t')

end

lemma setPte_eq (vm : Vm) (d addr : Nat) (e : Pte) :
    ∃ table, vm.setPte d addr e = { vm with table := table } := by
  unfold setPte
  split
  · exact ⟨vm.table, rfl⟩
  · exact ⟨_, rfl⟩

lemma Twin.setPte {t₁ t₂ : Nat} (h : Twin d₁ d₂ vm₁ vm₂) (same : SameFlags e₁ e₂)
    (table₁ : vm₁.dir d₁ (tableIndex addr) = some t₁)
    (table₂ : vm₂.dir d₂ (tableIndex addr) = some t₂) :
    Twin d₁ d₂ (vm₁.setPte d₁ addr e₁) (vm₂.setPte d₂ addr e₂) := by
  obtain ⟨ok₁, entry₁⟩ := setPte_entry h.ok₁ table₁ e₁
  obtain ⟨ok₂, entry₂⟩ := setPte_entry h.ok₂ table₂ e₂
  have entries (p : Nat) : SameFlags ((vm₁.setPte d₁ addr e₁).entry d₁ p)
      ((vm₂.setPte d₂ addr e₂).entry d₂ p) := by
    rw [entry₁, entry₂, update_apply, update_apply]
    split_ifs
    · exact same
    · exact h.entries p
  obtain ⟨tables₁, eq₁⟩ := setPte_eq vm₁ d₁ addr e₁
  obtain ⟨tables₂, eq₂⟩ := setPte_eq vm₂ d₂ addr e₂
  rw [eq₁] at ok₁ entries ⊢
  rw [eq₂] at ok₂ entries ⊢
  exact ⟨ok₁, ok₂, h.own₁, h.own₂, entries, h.tables, h.growth, h.avail⟩

lemma Twin.vmmMap (h : Twin d₁ d₂ vm₁ vm₂) (bound : tableIndex addr < 1024) :
    Lockstep (Twin d₁ d₂) (vm₁.vmmMap addr f₁ d₁ false writable)
      (vm₂.vmmMap addr f₂ d₂ false writable) := by
  refine (h.vmmGetPage bound).bind fun vm₁' vm₂' got got' twin => ?_
  obtain ⟨-, t₁, table₁⟩ := vmmGetPage_keeps h.ok₁ bound got
  obtain ⟨-, t₂, table₂⟩ := vmmGetPage_keeps h.ok₂ bound got'
  refine .kassert ?_ fun _ _ => .both (twin.setPte ⟨rfl, ?_⟩ table₁ table₂)
  · rw [pte_eq, pte_eq]
    exact (twin.entries _).zero
  · constructor <;> intro zero <;> cases congrArg Pte.present zero

lemma Twin.allocPages {addrs : List Nat} (h : Twin d₁ d₂ vm₁ vm₂)
    (small : ∀ addr ∈ addrs, addr < wordSize) :
    Lockstep (Twin d₁ d₂) (allocPages d₁ writable addrs vm₁)
      (allocPages d₂ writable addrs vm₂) := by
  induction addrs generalizing vm₁ vm₂ with
  | nil => exact .both h
  | cons addr rest ih =>
    obtain ⟨here, others⟩ := forall_mem_cons.mp small
    refine h.pmmAlloc.bind ?_
    rintro ⟨f₁, vm₁'⟩ ⟨f₂, vm₂'⟩ - - twin
    refine (twin.vmmMap (tableIndex_lt here)).bind fun vm₁'' vm₂'' _ _ twin' => ?_
    exact ih twin' others

/-! ## Areas -/

lemma Area.bounds_cons {a b : Area} {as bs : List Area}
    (same : (a :: as).map Area.bounds = (b :: bs).map Area.bounds) :
    (a.start = b.start ∧ a.stop = b.stop ∧ a.writable = b.writable) ∧
      as.map Area.bounds = bs.map Area.bounds := by
  simpa [Area.bounds] using same

lemma Twin.vmmStoreArea {start stop : Nat} {as bs : List Area} (h : Twin d₁ d₂ vm₁ vm₂)
    (same : as.map Area.bounds = bs.map Area.bounds) :
    Lockstep (fun r s => r.1.map Area.bounds = s.1.map Area.bounds ∧ Twin d₁ d₂ r.2 s.2)
      (vmmStoreArea start stop writable as vm₁) (vmmStoreArea start stop writable bs vm₂) := by
  induction as generalizing bs with
  | nil =>
    obtain rfl : bs = [] := by simpa using same.symm
    refine h.kmalloc.bind fun r s _ _ twin => twin.kmalloc.bind fun r' s' _ _ twin' =>
      .both ⟨?_, twin'⟩
    rfl
  | cons a as ih =>
    cases bs with
    | nil => simp at same
    | cons b bs =>
      obtain ⟨⟨start_eq, stop_eq, writable_eq⟩, rest⟩ := Area.bounds_cons same
      unfold Vm.vmmStoreArea
      rw [start_eq, stop_eq, writable_eq]
      split_ifs
      · exact .both ⟨by simp [Area.bounds, rest], h⟩
      · exact .both ⟨by simp [Area.bounds, rest], h⟩
      · exact .stop
      · refine (ih rest).bind fun r s _ _ related => .both ⟨?_, related.2⟩
        simpa [Area.bounds, start_eq, stop_eq, writable_eq] using related.1

/-- Two tasks with the same areas and break, on twin directories. -/
structure Twins (s t : TaskMm × Vm) : Prop where
  twin : Twin s.1.directory t.1.directory s.2 t.2
  bounds : s.1.areas.map Area.bounds = t.1.areas.map Area.bounds
  brkStart : s.1.brkStart = t.1.brkStart
  brk : s.1.brk = t.1.brk
  initialBrk : s.1.initialBrk = t.1.initialBrk

variable {mm₁ mm₂ : TaskMm} {start stop : Nat}

lemma Twins.vmmAllocUser (h : Twins (mm₁, vm₁) (mm₂, vm₂)) (bound : stop < wordSize) :
    Lockstep Twins (vm₁.vmmAllocUser start stop mm₁ writable)
      (vm₂.vmmAllocUser start stop mm₂ writable) := by
  refine .kassert Iff.rfl fun ⟨_, startAligned, stopAligned⟩ _ => ?_
  have small (addr : Nat) (mem : addr ∈ pagesFrom start stop) : addr < wordSize :=
    ((mem_pagesFrom startAligned stopAligned).mp mem).2.2.trans bound
  refine (h.twin.allocPages small).bind fun vm₁' vm₂' _ _ twin => ?_
  refine (twin.vmmStoreArea h.bounds).bind fun r s _ _ ⟨bounds, twin'⟩ => .both ?_
  exact ⟨twin', bounds, h.brkStart, h.brk, h.initialBrk⟩

lemma pmmFree_isSome (pooled : vm.pmm.pooled f = true) : (vm.pmmFree f).isSome = true := by
  obtain ⟨used, low⟩ := Pmm.pooled_iff.mp pooled
  rw [pmmFree, isSome_map, Pmm.free, if_pos ⟨low.le, used⟩]
  rfl

lemma pmmFree_avail (pooled : vm.pmm.pooled f = true) (h : vm.pmmFree f = some vm') :
    vm'.pmm.avail.card = vm.pmm.avail.card + 1 := by
  obtain ⟨pmm, freed, rfl⟩ := map_eq_some_iff.mp h
  obtain ⟨nframes, after⟩ := Pmm.free_spec freed
  obtain ⟨used, low⟩ := Pmm.pooled_iff.mp pooled
  have insert : pmm.avail = insert f vm.pmm.avail := by
    ext g
    rw [Finset.mem_insert, Pmm.mem_avail, Pmm.mem_avail, nframes, after]
    by_cases own : g = f
    · simp [own, low]
    · simp [own]
  have new : f ∉ vm.pmm.avail := fun mem => by
    rw [(Pmm.mem_avail.mp mem).2] at used
    cases used
  rw [insert, Finset.card_insert_of_notMem new]

lemma Twin.pmmFree (h : Twin d₁ d₂ vm₁ vm₂) (pooled₁ : vm₁.pmm.pooled f₁ = true)
    (pooled₂ : vm₂.pmm.pooled f₂ = true) :
    Lockstep (Twin d₁ d₂) (vm₁.pmmFree f₁) (vm₂.pmmFree f₂) := by
  refine .of_isSome ?_ fun vm₁' vm₂' freed freed' => ?_
  · rw [pmmFree_isSome pooled₁, pmmFree_isSome pooled₂]
  · have avail : vm₁'.pmm.avail.card = vm₂'.pmm.avail.card := by
      rw [pmmFree_avail pooled₁ freed, pmmFree_avail pooled₂ freed', h.avail]
    obtain ⟨pmm, rfl, -⟩ := pmmFree_spec freed
    obtain ⟨pmm', rfl, -⟩ := pmmFree_spec freed'
    exact ⟨h.ok₁.congr rfl le_rfl, h.ok₂.congr rfl le_rfl, h.own₁, h.own₂, h.entries, h.tables,
      h.growth, avail⟩

lemma ne_zero_of_user (user : e.user = true) : e ≠ .zero := by
  rintro rfl
  cases user

lemma Twin.vmmFree {n₁ n₂ : Nat} (h : Twin d₁ d₂ vm₁ vm₂) (pages₁ : PagesOk vm₁ d₁ n₁)
    (pages₂ : PagesOk vm₂ d₂ n₂) (user : (vm₁.entry d₁ (addr / pageSize)).user = true) :
    Lockstep (Twin d₁ d₂) (vm₁.vmmFree addr d₁) (vm₂.vmmFree addr d₂) := by
  have user' : (vm₂.entry d₂ (addr / pageSize)).user = true := (h.entries _).user ▸ user
  have bound : tableIndex addr < 1024 := by
    have small := pages₁.pages.bound _ user
    unfold tableIndex
    omega
  refine (h.vmmGetPage bound).bind fun vm₁' vm₂' got got' twin => ?_
  obtain ⟨t₁, eq₁⟩ := vmmGetPage_of_entry (ne_zero_of_user user)
  obtain ⟨t₂, eq₂⟩ := vmmGetPage_of_entry (ne_zero_of_user user')
  obtain rfl := some.inj (eq₁.symm.trans got)
  obtain rfl := some.inj (eq₂.symm.trans got')
  have pooled₁ := pages₁.pages.used _ user
  have pooled₂ := pages₂.pages.used _ user'
  rw [← pte_eq] at pooled₁ pooled₂
  refine (twin.pmmFree pooled₁ pooled₂).bind fun vm₃ vm₄ _ _ twin' => ?_
  refine (twin'.vmmGetPage bound).bind fun vm₅ vm₆ got₅ got₆ twin'' => ?_
  obtain ⟨-, t₅, table₅⟩ := vmmGetPage_keeps twin'.ok₁ bound got₅
  obtain ⟨-, t₆, table₆⟩ := vmmGetPage_keeps twin'.ok₂ bound got₆
  refine .kassert ?_ fun _ _ => .both (twin''.setPte ⟨rfl, Iff.rfl⟩ table₅ table₆)
  have same := twin''.entries (addr / pageSize)
  rw [pte_eq, pte_eq, same.present, same.guard]

lemma Twin.freePages {addrs : List Nat} {n₁ n₂ : Nat} (h : Twin d₁ d₂ vm₁ vm₂)
    (pages₁ : PagesOk vm₁ d₁ n₁) (pages₂ : PagesOk vm₂ d₂ n₂)
    (nodup : (addrs.map (· / pageSize)).Nodup)
    (user : ∀ addr ∈ addrs, (vm₁.entry d₁ (addr / pageSize)).user = true) :
    Lockstep (Twin d₁ d₂) (freePages d₁ addrs vm₁) (freePages d₂ addrs vm₂) := by
  induction addrs generalizing vm₁ vm₂ n₁ n₂ with
  | nil => exact .both h
  | cons addr rest ih =>
    obtain ⟨here, others⟩ := forall_mem_cons.mp user
    have here' : (vm₂.entry d₂ (addr / pageSize)).user = true := (h.entries _).user ▸ here
    rw [map_cons, nodup_cons] at nodup
    refine (h.vmmFree pages₁ pages₂ here).bind fun vm₁' vm₂' freed freed' twin => ?_
    have single : ([addr].map (· / pageSize)).Nodup := nodup_singleton _
    have freed₁ : Vm.freePages d₁ [addr] vm₁ = some vm₁' := by
      simp [Vm.freePages, freed]
    have freed₂ : Vm.freePages d₂ [addr] vm₂ = some vm₂' := by
      simp [Vm.freePages, freed']
    obtain ⟨ok₁, -, other⟩ := freePages_spec pages₁ single (by simpa using here) freed₁
    obtain ⟨ok₂, -, -⟩ := freePages_spec pages₂ single (by simpa using here') freed₂
    refine ih twin ok₁ ok₂ nodup.2 fun a mem => ?_
    rw [other (a / pageSize)]
    · exact others a mem
    · intro b mem' same
      rw [mem_singleton.mp mem'] at same
      exact nodup.1 (same ▸ mem_map_of_mem mem)

/-! ## Resizing and the break -/

lemma areaOf_bounds {as bs : List Area} (same : as.map Area.bounds = bs.map Area.bounds)
    (addr : Nat) :
    areaOf as addr = areaOf bs addr := by
  have through (cs : List Area) : areaOf cs addr =
      (cs.map Area.bounds).findIdx fun b => b.1 ≤ addr ∧ addr < b.2.1 := by
    rw [areaOf, findIdx_map]
    rfl
  rw [through, through, same]

lemma all_stop_bounds {as bs : List Area} (same : as.map Area.bounds = bs.map Area.bounds)
    (k newEnd : Nat) :
    (as.take k).all (fun a => a.stop ≠ newEnd) = (bs.take k).all fun a => a.stop ≠ newEnd := by
  have through (cs : List Area) : (cs.take k).all (fun a => decide (a.stop ≠ newEnd)) =
      ((cs.map Area.bounds).take k).all fun b => b.2.1 ≠ newEnd := by
    rw [← List.map_take, List.all_map]
    rfl
  rw [through, through, same]

lemma Twins.vmmResizeArea {newEnd : Nat} (h : Twins (mm₁, vm₁) (mm₂, vm₂))
    (layout₁ : Layout vm₁ mm₁) (layout₂ : Layout vm₂ mm₂) (bound : newEnd < wordSize)
    (aligned : isPageAligned newEnd) :
    Lockstep Twins (vm₁.vmmResizeArea start newEnd mm₁) (vm₂.vmmResizeArea start newEnd mm₂) := by
  have index : areaOf mm₁.areas start = areaOf mm₂.areas start := areaOf_bounds h.bounds start
  have found : (mm₁.areas[areaOf mm₁.areas start]?).map Area.bounds =
      (mm₂.areas[areaOf mm₂.areas start]?).map Area.bounds := by
    rw [← getElem?_map, ← getElem?_map, index]
    exact congrArg (·[_]?) h.bounds
  unfold Vm.vmmResizeArea
  refine Lockstep.kassert Iff.rfl fun enough _ => ?_
  refine Lockstep.kassert ?_ fun _ _ => ?_
  · rw [index, all_stop_bounds h.bounds]
  · cases area : mm₁.areas[areaOf mm₁.areas start]? with
    | none =>
      rw [area, eq_comm, map_none, map_eq_none_iff] at found
      rw [found]
      exact .both h
    | some a =>
      rw [area, eq_comm, map_some, map_eq_some_iff] at found
      obtain ⟨b, area', same⟩ := found
      rw [area']
      simp only [Area.bounds, Prod.mk.injEq] at same
      obtain ⟨start_eq, stop_eq, writable_eq⟩ := same
      have mem : a ∈ mm₁.areas := mem_of_getElem? area
      have above := (layout₁.areas a mem).start_lt (areaOf_spec area) enough
      have user := layout₁.user_from mem above aligned
      dsimp only
      rw [stop_eq, writable_eq]
      split_ifs
      · exact h.vmmAllocUser bound
      · refine (h.twin.freePages layout₁.ok layout₂.ok (pagesFrom_nodup _ _) user).bind ?_
        refine fun vm₁' vm₂' _ _ twin => .both ⟨twin, ?_, h.brkStart, h.brk, h.initialBrk⟩
        rw [map_set, map_set, index]
        refine congrArg₂ (fun l v => List.set l _ v) h.bounds ?_
        simp [Area.bounds, start_eq]

lemma Twins.sbrk (h : Twins (mm₁, vm₁) (mm₂, vm₂)) (delta : Int) (layout₁ : Layout vm₁ mm₁)
    (layout₂ : Layout vm₂ mm₂) :
    Lockstep (fun r s => r.1 = s.1 ∧ Twins r.2 s.2) (vm₁.sbrk delta mm₁) (vm₂.sbrk delta mm₂) := by
  have brk : mm₁.brk = mm₂.brk := h.brk
  have brkStart : mm₁.brkStart = mm₂.brkStart := h.brkStart
  have initialBrk : mm₁.initialBrk = mm₂.initialBrk := h.initialBrk
  unfold Vm.sbrk
  rw [brk]
  refine Lockstep.kassert Iff.rfl fun _ _ => ?_
  dsimp only
  split_ifs
  · exact .both ⟨rfl, h⟩
  · refine Lockstep.kassert Iff.rfl fun limit _ => ?_
    refine (h.vmmAllocUser (limit.trans (by decide))).bind fun r s _ _ twins => .both ⟨rfl, ?_⟩
    exact ⟨twins.twin, twins.bounds, twins.brkStart, rfl, twins.initialBrk⟩
  · exact .both ⟨rfl, h⟩
  · rw [initialBrk, brkStart]
    refine Lockstep.kassert Iff.rfl fun low _ => ?_
    refine (h.vmmResizeArea layout₁ layout₂ (sub32_lt _ _) low.2).bind fun r s _ _ twins =>
      .both ⟨rfl, ?_⟩
    exact ⟨twins.twin, twins.bounds, twins.brkStart, rfl, twins.initialBrk⟩

end ExscapeOS.Vmm
