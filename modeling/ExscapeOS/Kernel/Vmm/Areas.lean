import ExscapeOS.Kernel.Vmm.Pages
import ExscapeOS.Lib.Transition

/-!
# Areas and page tables

The memory of a user task is described by its list of areas and by the entries of its page
directory. `Layout` says that the two agree. Every function keeps this, if `vmm_resize_area` is
called with a page-aligned end; it does not check that, and cuts an area in the middle of a page
otherwise.
-/
namespace ExscapeOS.Vmm

open Lib Function Vm List

variable {vm vm' : Vm} {mm mm' : TaskMm} {d f n p addr start stop : Nat} {writable : Bool}
  {entry : Nat → Pte} {used used' : Nat → Bool}

/-! ## User pages -/

/-- The pages of user mode. -/
def userPages (entry : Nat → Pte) : Finset Nat :=
  (Finset.range (2 ^ 20)).filter fun p => (entry p).user = true

/-- Every user page is mapped or a guard page, with a frame of its own; there are `n`. -/
structure Pages (entry : Nat → Pte) (used : Nat → Bool) (n : Nat) : Prop where
  bound : ∀ p, (entry p).user = true → p < 2 ^ 20
  mapped : ∀ p, (entry p).user = true → (entry p).present = true ∨ (entry p).guard = true
  used : ∀ p, (entry p).user = true → used (entry p).frame = true
  inj : ∀ p q, (entry p).user = true → (entry q).user = true → (entry p).frame = (entry q).frame →
    p = q
  count : n = (userPages entry).card

section

variable (pages : Pages entry used n)
include pages

lemma mem_userPages : p ∈ userPages entry ↔ (entry p).user = true := by
  simp only [userPages, Finset.mem_filter, Finset.mem_range]
  exact ⟨And.right, fun user => ⟨pages.bound p user, user⟩⟩

lemma Pages.mono (mono : ∀ f, used f = true → used' f = true) : Pages entry used' n :=
  { pages with used := fun p user => mono _ (pages.used p user) }

lemma Pages.map {e : Pte} (small : p < 2 ^ 20) (empty : entry p = .zero) (user : e.user = true)
    (present : e.present = true) (free : used e.frame = false)
    (mono : ∀ f, used f = true → used' f = true) (taken : used' e.frame = true) :
    Pages (update entry p e) used' (n + 1) := by
  have fresh (q : Nat) (h : (entry q).user = true) : (entry q).frame ≠ e.frame := by
    intro same
    rw [← same, pages.used q h] at free
    cases free
  have old : ¬ (entry p).user = true := by
    rw [empty]
    nofun
  constructor
  · intro q h
    by_cases own : q = p
    · exact own ▸ small
    · exact pages.bound q (by simpa [own] using h)
  · intro q h
    by_cases own : q = p
    · simp [own, present]
    · simpa [own] using pages.mapped q (by simpa [own] using h)
  · intro q h
    by_cases own : q = p
    · simpa [own] using taken
    · simpa [own] using mono _ (pages.used q (by simpa [own] using h))
  · intro q r hq hr same
    by_cases own : q = p <;> by_cases own' : r = p
    · rw [own, own']
    · simp only [own, own', update_self, update_of_ne, ne_eq, not_false_eq_true] at same hr
      exact absurd same.symm (fresh r hr)
    · simp only [own, own', update_self, update_of_ne, ne_eq, not_false_eq_true] at same hq
      exact absurd same (fresh q hq)
    · simp only [own, own', update_of_ne, ne_eq, not_false_eq_true] at same hq hr
      exact pages.inj q r hq hr same
  · have insert : userPages (update entry p e) = insert p (userPages entry) := by
      ext q
      simp only [userPages, Finset.mem_filter, Finset.mem_range, Finset.mem_insert]
      by_cases own : q = p
      · simpa [own, user] using small
      · simp [own]
    rw [insert, Finset.card_insert_of_notMem, pages.count]
    simp [userPages, old]

lemma Pages.unmap (user : (entry p).user = true) :
    Pages (update entry p .zero) (update used (entry p).frame false) (n - 1) := by
  have other (q : Nat) (h : (update entry p .zero q).user = true) :
    q ≠ p ∧ (entry q).user = true := by
    by_cases own : q = p
    · simp [own, Pte.zero] at h
    · exact ⟨own, by simpa [own] using h⟩
  constructor
  · exact fun q h => pages.bound q (other q h).2
  · intro q h
    obtain ⟨ne, h⟩ := other q h
    simpa [ne] using pages.mapped q h
  · intro q h
    obtain ⟨ne, h⟩ := other q h
    have frames : (entry q).frame ≠ (entry p).frame := fun same => ne (pages.inj q p h user same)
    simpa [ne, frames] using pages.used q h
  · intro q r hq hr same
    obtain ⟨ne, hq⟩ := other q hq
    obtain ⟨ne', hr⟩ := other r hr
    exact pages.inj q r hq hr (by simpa [ne, ne'] using same)
  · have erase : userPages (update entry p .zero) = (userPages entry).erase p := by
      ext q
      simp only [userPages, Finset.mem_filter, Finset.mem_range, Finset.mem_erase]
      by_cases own : q = p
      · simp [own, Pte.zero]
      · simp [own]
    rw [erase, Finset.card_erase_of_mem ((mem_userPages pages).mpr user), pages.count]

lemma Pages.guard (p : Nat) (guard : Bool) :
    Pages (update entry p { entry p with present := !guard, guard := guard }) used n := by
  have user (q : Nat) : (update entry p { entry p with present := !guard, guard := guard } q).user =
      (entry q).user := by
    by_cases own : q = p <;> simp [own]
  have frame (q : Nat) :
      (update entry p { entry p with present := !guard, guard := guard } q).frame =
        (entry q).frame := by
    by_cases own : q = p <;> simp [own]
  constructor
  · exact fun q h => pages.bound q (user q ▸ h)
  · intro q h
    by_cases own : q = p
    · cases guard <;> simp [own]
    · simpa [own] using pages.mapped q (user q ▸ h)
  · exact fun q h => frame q ▸ pages.used q (user q ▸ h)
  · exact fun q r hq hr same => pages.inj q r (user q ▸ hq) (user r ▸ hr)
      (by rwa [← frame, ← frame r])
  · rw [pages.count]
    unfold userPages
    simp only [user]

end

/-! ## Ranges of pages -/

/-- The directory is in order, and its user pages are. -/
structure PagesOk (vm : Vm) (d n : Nat) : Prop where
  dir : DirOk vm d
  pages : Pages (vm.entry d) vm.pmm.pooled n

lemma PagesOk.keeps (ok : PagesOk vm d n) (keeps : Keeps d vm vm') : PagesOk vm' d n where
  dir := keeps.ok
  pages := by
    rw [keeps.entry]
    exact ok.pages.mono keeps.used

lemma mem_pagesFrom (startAligned : isPageAligned start) (stopAligned : isPageAligned stop) :
    addr ∈ pagesFrom start stop ↔ isPageAligned addr ∧ start ≤ addr ∧ addr < stop := by
  unfold isPageAligned pageSize at *
  simp only [pagesFrom, mem_map, mem_range, pageSize]
  constructor
  · rintro ⟨k, lt, rfl⟩
    omega
  · rintro ⟨aligned, ge, lt⟩
    exact ⟨(addr - start) / 0x1000, by omega, by omega⟩

lemma tableIndex_lt (small : addr < wordSize) : tableIndex addr < 1024 := by
  unfold tableIndex pageSize wordSize at *
  omega

/-- The pages at `addrs` were empty and get new entries, with free frames; the others stay. -/
lemma allocPages_entries {addrs : List Nat} (ok : PagesOk vm d n)
    (small : ∀ addr ∈ addrs, addr < wordSize) (h : allocPages d writable addrs vm = some vm') :
    PagesOk vm' d (n + addrs.length) ∧ (∀ addr ∈ addrs, vm.entry d (addr / pageSize) = .zero) ∧
      (∀ addr ∈ addrs, ∃ f, vm.pmm.pooled f = false ∧
        vm'.entry d (addr / pageSize) = userPage f addr writable) ∧
      ∀ p, (∀ addr ∈ addrs, addr / pageSize ≠ p) → vm'.entry d p = vm.entry d p := by
  induction addrs generalizing vm n with
  | nil =>
    cases h
    exact ⟨ok, by simp, by simp, fun _ _ => rfl⟩
  | cons addr rest ih =>
    simp only [allocPages, bind, Option.bind_eq_some_iff] at h
    obtain ⟨⟨f, vm₁⟩, alloc, vm₂, mapped, more⟩ := h
    have here := small addr mem_cons_self
    obtain ⟨takes, mem, used⟩ := pmmAlloc_takes alloc
    obtain ⟨low, unused⟩ := Pmm.mem_avail.mp mem
    have free : vm.pmm.pooled f = false := by rw [Pmm.pooled, unused, Bool.false_and]
    have taken : vm₁.pmm.pooled f = true := Pmm.pooled_iff.mpr ⟨used, takes.pmm.nframes ▸ low⟩
    have first := takes.keeps ok.dir
    obtain ⟨empty, sets⟩ := vmmMap_sets first.ok (tableIndex_lt here) mapped
    rw [first.entry] at empty
    have entry := sets.entry
    rw [first.entry] at entry
    have bound : addr / pageSize < 2 ^ 20 := by
      unfold wordSize at here
      unfold pageSize
      omega
    have ok₂ : PagesOk vm₂ d (n + 1) := by
      refine ⟨sets.ok, ?_⟩
      rw [entry]
      exact ok.pages.map bound empty rfl rfl free (fun g h => sets.used g (first.used g h))
        (sets.used f taken)
    obtain ⟨ok', zero, new, other⟩ := ih ok₂ (fun a mem => small a (mem_cons_of_mem _ mem)) more
    rw [length_cons, Nat.add_comm rest.length, ← Nat.add_assoc]
    have ne (a : Nat) (mem : a ∈ rest) : a / pageSize ≠ addr / pageSize := by
      -- the page is mapped by now, and `vmm_map` would stop
      intro same
      have zero := zero a mem
      rw [entry, same, update_self] at zero
      cases congrArg Pte.user zero
    refine ⟨ok', ?_, ?_, ?_⟩
    · intro a mem
      rcases mem_cons.mp mem with rfl | mem
      · exact empty
      · have zero := zero a mem
        rwa [entry, update_of_ne (ne a mem)] at zero
    · intro a mem
      rcases mem_cons.mp mem with rfl | mem
      · exact ⟨f, free, by rw [other _ ne, entry, update_self]⟩
      · obtain ⟨g, unused, eq⟩ := new a mem
        refine ⟨g, ?_, eq⟩
        by_contra before
        rw [sets.used g (first.used g (by simpa using before))] at unused
        cases unused
    · intro p away
      rw [other p fun a mem => away a (mem_cons_of_mem _ mem), entry,
        update_of_ne (away addr mem_cons_self).symm]

lemma freePages_spec {addrs : List Nat} (ok : PagesOk vm d n)
    (nodup : (addrs.map (· / pageSize)).Nodup)
    (user : ∀ addr ∈ addrs, (vm.entry d (addr / pageSize)).user = true)
    (h : freePages d addrs vm = some vm') : PagesOk vm' d (n - addrs.length) ∧
      (∀ addr ∈ addrs, vm'.entry d (addr / pageSize) = .zero) ∧
      ∀ p, (∀ addr ∈ addrs, addr / pageSize ≠ p) → vm'.entry d p = vm.entry d p := by
  induction addrs generalizing vm n with
  | nil =>
    cases h
    exact ⟨ok, by simp, fun _ _ => rfl⟩
  | cons addr rest ih =>
    simp only [freePages, bind, Option.bind_eq_some_iff] at h
    obtain ⟨vm₁, freed, more⟩ := h
    have here := user addr mem_cons_self
    have mapped : vm.entry d (addr / pageSize) ≠ .zero := by
      intro zero
      rw [zero] at here
      cases here
    obtain ⟨dir, entry, used⟩ := vmmFree_spec ok.dir mapped freed
    have ok₁ : PagesOk vm₁ d (n - 1) := by
      refine ⟨dir, ?_⟩
      rw [entry, used]
      exact ok.pages.unmap here
    rw [map_cons, nodup_cons] at nodup
    have ne (a : Nat) (mem : a ∈ rest) : a / pageSize ≠ addr / pageSize := fun same =>
      nodup.1 (same ▸ mem_map_of_mem mem)
    have user₁ (a : Nat) (mem : a ∈ rest) : (vm₁.entry d (a / pageSize)).user = true := by
      rw [entry, update_of_ne (ne a mem)]
      exact user a (mem_cons_of_mem _ mem)
    obtain ⟨ok', zero, other⟩ := ih ok₁ nodup.2 user₁ more
    rw [length_cons, Nat.add_comm, ← Nat.sub_sub]
    refine ⟨ok', ?_, ?_⟩
    · intro a mem
      rcases mem_cons.mp mem with rfl | mem
      · rw [other _ ne, entry, update_self]
      · exact zero a mem
    · intro p away
      rw [other p fun a mem => away a (mem_cons_of_mem _ mem), entry,
        update_of_ne (away addr mem_cons_self).symm]

/-! ## Lists of areas -/

namespace Area

/-- The page with number `p` is in the area. -/
def hasPage (a : Area) (p : Nat) : Prop := a.start ≤ p * pageSize ∧ p * pageSize < a.stop

structure Ok (a : Area) : Prop where
  start : isPageAligned a.start
  stop : isPageAligned a.stop
  lt : a.start < a.stop
  bound : a.stop < wordSize

/-- The area does not meet the addresses from `start` to `stop`. -/
def clear (a : Area) (start stop : Nat) : Prop := a.stop ≤ start ∨ stop ≤ a.start

def apart (a b : Area) : Prop := a.clear b.start b.stop

end Area

/-- `areas'` is `areas` with the addresses from `start` to `stop` added. -/
structure Stored (start stop : Nat) (writable : Bool) (areas areas' : List Area) : Prop where
  ok : ∀ a ∈ areas', a.Ok
  apart : areas'.Pairwise Area.apart
  pages : ∀ p w, (∃ a ∈ areas', a.hasPage p ∧ a.writable = w) ↔
    (∃ a ∈ areas, a.hasPage p ∧ a.writable = w) ∨
      (start ≤ p * pageSize ∧ p * pageSize < stop) ∧ w = writable
  clear : ∀ s e, s < e → (∀ a ∈ areas, a.clear s e) → stop ≤ s ∨ e ≤ start →
    ∀ a ∈ areas', a.clear s e

variable {a : Area}

/-- One area grows by the new addresses, and the rest of the list stays. -/
lemma Stored.extend {a' : Area} {as : List Area} (ok' : a'.Ok) (rest : ∀ b ∈ as, b.Ok)
    (apart : (a :: as).Pairwise Area.apart) (clear : ∀ b ∈ as, b.clear start stop)
    (grown : ∀ x, a'.start ≤ x ∧ x < a'.stop ↔ a.start ≤ x ∧ x < a.stop ∨ start ≤ x ∧ x < stop)
    (bounds : ∀ s e, s < e → a.clear s e → stop ≤ s ∨ e ≤ start → a'.clear s e)
    (same : a'.writable = a.writable) (rights : a.writable = writable) :
    Stored start stop writable (a :: as) (a' :: as) := by
  obtain ⟨head, tail⟩ := pairwise_cons.mp apart
  refine ⟨forall_mem_cons.mpr ⟨ok', rest⟩, pairwise_cons.mpr ⟨fun b mem => ?_, tail⟩,
    fun p w => ?_, fun s e lt away away' => ?_⟩
  · exact bounds b.start b.stop (rest b mem).lt (head b mem) (clear b mem).symm
  · have here : a'.hasPage p ↔ a.hasPage p ∨ start ≤ p * pageSize ∧ p * pageSize < stop :=
      grown (p * pageSize)
    simp only [exists_mem_cons_iff, here, same, rights]
    grind
  · obtain ⟨first, others⟩ := forall_mem_cons.mp away
    exact forall_mem_cons.mpr ⟨bounds s e lt first away', others⟩

lemma vmmStoreArea_stored {areas areas' : List Area} (ok : DirOk vm d) (lt : start < stop)
    (startAligned : isPageAligned start) (stopAligned : isPageAligned stop)
    (bound : stop < wordSize) (oks : ∀ a ∈ areas, a.Ok) (apart : areas.Pairwise Area.apart)
    (clear : ∀ a ∈ areas, a.clear start stop)
    (h : vmmStoreArea start stop writable areas vm = some (areas', vm')) :
    Keeps d vm vm' ∧ Stored start stop writable areas areas' := by
  induction areas generalizing areas' vm' with
  | nil =>
    simp only [vmmStoreArea, bind, Option.bind_eq_some_iff, pure, Option.some.injEq,
      Prod.mk.injEq] at h
    obtain ⟨⟨block, vm₁⟩, alloc, ⟨node, vm₂⟩, alloc', rfl, rfl⟩ := h
    have first := (kmalloc_newBlock alloc).keeps ok
    refine ⟨first.trans ((kmalloc_newBlock alloc').keeps first.ok), ?_, by simp, ?_, ?_⟩
    · simpa using ⟨startAligned, stopAligned, lt, bound⟩
    · intro p w
      simp [Area.hasPage, eq_comm]
    · intro s e _ _ away
      simpa [Area.clear] using away
  | cons a as ih =>
    have tail (b : Area) (mem : b ∈ as) := clear b (mem_cons_of_mem a mem)
    have oks' (b : Area) (mem : b ∈ as) := oks b (mem_cons_of_mem a mem)
    have head := oks a mem_cons_self
    unfold vmmStoreArea at h
    split_ifs at h with before behind
    · -- the new addresses are just before the area
      simp only [Option.some.injEq, Prod.mk.injEq] at h
      obtain ⟨rfl, rfl⟩ := h
      have away := head.lt
      refine ⟨.refl ok, .extend ⟨startAligned, head.stop, ?_, head.bound⟩ oks' apart tail ?_ ?_ rfl
        before.2⟩
      · exact lt.trans (before.1 ▸ head.lt)
      · intro x
        dsimp only
        omega
      · unfold Area.clear
        dsimp only
        omega
    · simp only [Option.some.injEq, Prod.mk.injEq] at h
      obtain ⟨rfl, rfl⟩ := h
      have away := head.lt
      refine ⟨.refl ok, .extend ⟨head.start, stopAligned, ?_, bound⟩ oks' apart tail ?_ ?_ rfl
        behind.2⟩
      · exact head.lt.trans (behind.1 ▸ lt)
      · intro x
        dsimp only
        omega
      · unfold Area.clear
        dsimp only
        omega
    · simp only [bind, Option.bind_eq_some_iff, pure, Option.some.injEq, Prod.mk.injEq] at h
      obtain ⟨⟨as', vm₁⟩, stored, rfl, rfl⟩ := h
      obtain ⟨keeps, more⟩ := ih oks' (pairwise_cons.mp apart).2 tail stored
      refine ⟨keeps, ?_, ?_, ?_, ?_⟩
      · exact forall_mem_cons.mpr ⟨head, more.ok⟩
      · refine pairwise_cons.mpr ⟨fun b mem => ?_, more.apart⟩
        have others (c : Area) (mem : c ∈ as) : c.clear a.start a.stop :=
          ((pairwise_cons.mp apart).1 c mem).symm
        exact (more.clear a.start a.stop head.lt others (clear a mem_cons_self).symm b mem).symm
      · intro p w
        simp only [exists_mem_cons_iff, more.pages, or_assoc]
      · intro s e lt away away'
        obtain ⟨first, others⟩ := forall_mem_cons.mp away
        exact forall_mem_cons.mpr ⟨first, more.clear s e lt others away'⟩

/-! ## Areas and pages agree -/

structure Layout (vm : Vm) (mm : TaskMm) : Prop where
  ok : PagesOk vm mm.directory mm.framesUsed
  areas : ∀ a ∈ mm.areas, a.Ok
  apart : mm.areas.Pairwise Area.apart
  covered : ∀ p, (vm.entry mm.directory p).user = true → ∃ a ∈ mm.areas, a.hasPage p
  inside : ∀ a ∈ mm.areas, ∀ p, a.hasPage p → (vm.entry mm.directory p).user = true ∧
    (vm.entry mm.directory p).rw = a.writable

/-- Only the list of areas, and the number of frames, differ. -/
structure SameTask (mm mm' : TaskMm) : Prop where
  directory : mm'.directory = mm.directory
  brkStart : mm'.brkStart = mm.brkStart
  brk : mm'.brk = mm.brk
  initialBrk : mm'.initialBrk = mm.initialBrk
  guard : mm'.userStackGuardPage = mm.userStackGuardPage

lemma page_div (p : Nat) : p * pageSize / pageSize = p := Nat.mul_div_cancel p (by decide)

lemma exists_pagesFrom (startAligned : isPageAligned start) (stopAligned : isPageAligned stop) :
    (∃ addr ∈ pagesFrom start stop, addr / pageSize = p) ↔
      start ≤ p * pageSize ∧ p * pageSize < stop := by
  simp only [mem_pagesFrom startAligned stopAligned]
  constructor
  · rintro ⟨addr, ⟨aligned, range⟩, rfl⟩
    have whole : addr / pageSize * pageSize = addr :=
      Nat.div_mul_cancel (Nat.dvd_of_mod_eq_zero aligned)
    rwa [whole]
  · intro range
    exact ⟨p * pageSize, ⟨Nat.mul_mod_left p pageSize, range⟩, page_div p⟩

lemma exists_common_page (ok : a.Ok) (startAligned : isPageAligned start)
    (lt : start < stop) (meets : ¬ a.clear start stop) :
    ∃ p, a.hasPage p ∧ start ≤ p * pageSize ∧ p * pageSize < stop := by
  have aligned := ok.start
  have nonempty := ok.lt
  unfold Area.clear at meets
  unfold Area.hasPage
  unfold isPageAligned pageSize at *
  rcases le_total a.start start with le | le
  · exact ⟨start / 0x1000, by omega⟩
  · exact ⟨a.start / 0x1000, by omega⟩

lemma Layout.clear (layout : Layout vm mm) (startAligned : isPageAligned start)
    (stopAligned : isPageAligned stop) (lt : start < stop)
    (empty : ∀ addr ∈ pagesFrom start stop, vm.entry mm.directory (addr / pageSize) = .zero) :
    ∀ a ∈ mm.areas, a.clear start stop := by
  intro a mem
  by_contra meets
  obtain ⟨p, here, range⟩ := exists_common_page (layout.areas a mem) startAligned lt meets
  obtain ⟨addr, member, rfl⟩ := (exists_pagesFrom startAligned stopAligned).mpr range
  have user := (layout.inside a mem _ here).1
  rw [empty addr member] at user
  cases user

lemma vmmAllocUser_same (h : vm.vmmAllocUser start stop mm writable = some (mm', vm')) :
    SameTask mm mm' ∧ start < stop ∧ isPageAligned start ∧ isPageAligned stop := by
  simp only [Vm.vmmAllocUser, bind, Option.bind_eq_some_iff, kassert_eq_some, exists_const, pure,
    Option.some.injEq, Prod.mk.injEq] at h
  obtain ⟨range, vm₁, -, ⟨areas', vm₂⟩, -, rfl, rfl⟩ := h
  exact ⟨⟨rfl, rfl, rfl, rfl, rfl⟩, range⟩

/-- What `vmm_alloc_user` does to the pages and to the areas. -/
structure UserPages (start stop : Nat) (writable : Bool) (mm mm' : TaskMm) (vm vm' : Vm) :
    Prop where
  ok : PagesOk vm' mm.directory mm'.framesUsed
  empty : ∀ p, start ≤ p * pageSize ∧ p * pageSize < stop → vm.entry mm.directory p = .zero
  new : ∀ p, start ≤ p * pageSize ∧ p * pageSize < stop →
    ∃ f addr, vm'.entry mm.directory p = userPage f addr writable
  old : ∀ p, ¬ (start ≤ p * pageSize ∧ p * pageSize < stop) →
    vm'.entry mm.directory p = vm.entry mm.directory p
  store : ∃ vm₁, vmmStoreArea start stop writable mm.areas vm₁ = some (mm'.areas, vm')
  stored : Stored start stop writable mm.areas mm'.areas

lemma Layout.vmmAllocUser_pages (layout : Layout vm mm) (bound : stop < wordSize)
    (h : vm.vmmAllocUser start stop mm writable = some (mm', vm')) :
    UserPages start stop writable mm mm' vm vm' := by
  simp only [Vm.vmmAllocUser, bind, Option.bind_eq_some_iff, kassert_eq_some, exists_const, pure,
    Option.some.injEq, Prod.mk.injEq] at h
  obtain ⟨⟨lt, startAligned, stopAligned⟩, vm₁, alloc, ⟨areas', vm₂⟩, store, rfl, rfl⟩ := h
  have small (addr : Nat) (mem : addr ∈ pagesFrom start stop) : addr < wordSize :=
    ((mem_pagesFrom startAligned stopAligned).mp mem).2.2.trans bound
  have pages {p : Nat} := exists_pagesFrom (p := p) startAligned stopAligned
  obtain ⟨ok₁, empty, new, other⟩ := allocPages_entries layout.ok small alloc
  obtain ⟨keeps, stored⟩ := vmmStoreArea_stored ok₁.dir lt startAligned stopAligned
    bound layout.areas layout.apart (layout.clear startAligned stopAligned lt empty) store
  refine ⟨ok₁.keeps keeps, fun p range => ?_, fun p range => ?_, fun p range => ?_, ⟨vm₁, store⟩,
    stored⟩
  · obtain ⟨addr, member, rfl⟩ := pages.mpr range
    exact empty addr member
  · obtain ⟨addr, member, rfl⟩ := pages.mpr range
    obtain ⟨f, -, eq⟩ := new addr member
    exact ⟨f, addr, by rw [keeps.entry, eq]⟩
  · rw [keeps.entry]
    exact other p fun addr member same => range (pages.mp ⟨addr, member, same⟩)

lemma Layout.vmmAllocUser (layout : Layout vm mm) (bound : stop < wordSize)
    (h : vm.vmmAllocUser start stop mm writable = some (mm', vm')) :
    Layout vm' mm' ∧ SameTask mm mm' := by
  have same := (vmmAllocUser_same h).1
  have directory := same.directory
  obtain ⟨ok, empty, new, old, -, stored⟩ := layout.vmmAllocUser_pages bound h
  refine ⟨⟨directory ▸ ok, stored.ok, stored.apart, fun p user => ?_, fun a mem p here => ?_⟩, same⟩
  · rw [directory] at user
    by_cases range : start ≤ p * pageSize ∧ p * pageSize < stop
    · obtain ⟨a, mem, here, -⟩ := (stored.pages p writable).mpr (.inr ⟨range, rfl⟩)
      exact ⟨a, mem, here⟩
    · rw [old p range] at user
      obtain ⟨a, mem, here⟩ := layout.covered p user
      obtain ⟨a', mem', here', -⟩ := (stored.pages p a.writable).mpr (.inl ⟨a, mem, here, rfl⟩)
      exact ⟨a', mem', here'⟩
  · rw [directory]
    rcases (stored.pages p a.writable).mp ⟨a, mem, here, rfl⟩ with ⟨b, memb, hereb, rights⟩ |
      ⟨range, rights⟩
    · have mapped := layout.inside b memb p hereb
      have away : ¬ (start ≤ p * pageSize ∧ p * pageSize < stop) := fun range => by
        rw [empty p range] at mapped
        cases mapped.1
      rw [old p away, ← rights]
      exact mapped
    · obtain ⟨f, addr, eq⟩ := new p range
      rw [rights, eq]
      exact ⟨rfl, rfl⟩

/-! ## Resizing -/

lemma pagesFrom_nodup (start stop : Nat) : ((pagesFrom start stop).map (· / pageSize)).Nodup := by
  rw [pagesFrom, map_map]
  refine nodup_range.map fun i j same => ?_
  simp only [comp_apply, Nat.add_mul_div_left _ _ (show 0 < pageSize by decide)] at same
  exact Nat.add_left_cancel same

lemma areaOf_spec {areas : List Area} (h : areas[areaOf areas addr]? = some a) :
    a.start ≤ addr ∧ addr < a.stop := by
  obtain ⟨lt, rfl⟩ := List.getElem?_eq_some_iff.mp h
  exact of_decide_eq_true (findIdx_getElem (w := lt))

lemma exists_around {areas : List Area} {k : Nat} (h : areas[k]? = some a) :
    ∃ before behind, areas = before ++ a :: behind ∧
      ∀ b, areas.set k b = before ++ b :: behind := by
  obtain ⟨lt, rfl⟩ := List.getElem?_eq_some_iff.mp h
  refine ⟨areas.take k, areas.drop (k + 1), ?_, fun b => set_eq_take_append_cons_drop .. |>.trans
    (if_pos lt)⟩
  rw [getElem_cons_drop, take_append_drop]

variable {newEnd : Nat}

lemma Layout.user_from (layout : Layout vm mm) (mem : a ∈ mm.areas)
    (above : a.start < newEnd) (aligned : isPageAligned newEnd) :
    ∀ addr ∈ pagesFrom newEnd a.stop, (vm.entry mm.directory (addr / pageSize)).user = true := by
  intro addr member
  have range := (exists_pagesFrom aligned (layout.areas a mem).stop).mp ⟨addr, member, rfl⟩
  exact (layout.inside a mem _ ⟨above.le.trans range.1, range.2⟩).1

lemma Area.Ok.start_lt (ok : a.Ok) (here : a.start ≤ start ∧ start < a.stop)
    (enough : add32 start pageSize ≤ newEnd) : a.start < newEnd := by
  have stop := ok.stop
  have small := ok.bound
  unfold isPageAligned pageSize at stop
  unfold wordSize at small
  have fits : start + pageSize < wordSize := by
    unfold pageSize wordSize
    omega
  rw [add32_eq fits] at enough
  unfold pageSize at enough
  omega

lemma Layout.shrink {before behind : List Area} (layout : Layout vm mm)
    (areas : mm.areas = before ++ a :: behind) (above : a.start < newEnd) (below : newEnd ≤ a.stop)
    (aligned : isPageAligned newEnd)
    (h : freePages mm.directory (pagesFrom newEnd a.stop) vm = some vm') :
    Layout vm' { mm with
      areas := before ++ { a with stop := newEnd } :: behind
      framesUsed := mm.framesUsed - (pagesFrom newEnd a.stop).length } := by
  have mem : a ∈ mm.areas := by simp [areas]
  have ok := layout.areas a mem
  obtain ⟨ok', zero, other⟩ := freePages_spec layout.ok (pagesFrom_nodup _ _)
    (layout.user_from mem above aligned) h
  have old (p : Nat) (range : ¬ (newEnd ≤ p * pageSize ∧ p * pageSize < a.stop)) :
      vm'.entry mm.directory p = vm.entry mm.directory p := by
    refine other p fun addr member same => range ?_
    exact (exists_pagesFrom aligned ok.stop).mp ⟨addr, member, same⟩
  have apart := layout.apart
  rw [areas, pairwise_append, pairwise_cons] at apart
  obtain ⟨first, ⟨here, last⟩, between⟩ := apart
  have others (b : Area) (away : b ∈ before ∨ b ∈ behind) :
    b ∈ mm.areas ∧ b.clear a.start a.stop := by
    rcases away with away | away
    · exact ⟨by simp [areas, away], between b away a mem_cons_self⟩
    · exact ⟨by simp [areas, away], (here b away).symm⟩
  refine ⟨ok', ?_, ?_, ?_, ?_⟩
  · intro b member
    rcases mem_append.mp member with member | member
    · exact layout.areas b (others b (.inl member)).1
    · rcases mem_cons.mp member with rfl | member
      · exact ⟨ok.start, aligned, above, below.trans_lt ok.bound⟩
      · exact layout.areas b (others b (.inr member)).1
  · rw [pairwise_append, pairwise_cons]
    refine ⟨first, ⟨fun b member => ?_, last⟩, fun b member c member' => ?_⟩
    · exact (here b member).imp_left below.trans
    · rcases mem_cons.mp member' with rfl | member'
      · exact (between b member a mem_cons_self).imp_right below.trans
      · exact between b member c (mem_cons_of_mem a member')
  · intro p user'
    by_cases range : newEnd ≤ p * pageSize ∧ p * pageSize < a.stop
    · obtain ⟨addr, member, rfl⟩ := (exists_pagesFrom aligned ok.stop).mpr range
      simp only [zero addr member] at user'
      cases user'
    · simp only [old p range] at user'
      obtain ⟨b, member, inside⟩ := layout.covered p user'
      rw [areas, mem_append, mem_cons] at member
      rcases member with member | rfl | member
      · exact ⟨b, by simp [member], inside⟩
      · refine ⟨_, mem_append_right _ mem_cons_self, inside.1, ?_⟩
        exact not_le.mp fun le => range ⟨le, inside.2⟩
      · exact ⟨b, by simp [member], inside⟩
  · intro b member p inside
    have stays (c : Area) (away : c ∈ before ∨ c ∈ behind) (inside : c.hasPage p) :
        (vm'.entry mm.directory p).user = true ∧ (vm'.entry mm.directory p).rw = c.writable := by
      obtain ⟨member, clear⟩ := others c away
      rw [old p]
      · exact layout.inside c member p inside
      · unfold Area.clear at clear
        unfold Area.hasPage at inside
        omega
    rcases mem_append.mp member with member | member
    · exact stays b (.inl member) inside
    · rcases mem_cons.mp member with rfl | member
      · dsimp only
        rw [old p fun range => absurd inside.2 range.1.not_gt]
        exact layout.inside a mem p ⟨inside.1, inside.2.trans_le below⟩
      · exact stays b (.inr member) inside

lemma Layout.vmmResizeArea (layout : Layout vm mm) (bound : newEnd < wordSize)
    (aligned : isPageAligned newEnd) (h : vm.vmmResizeArea start newEnd mm = some (mm', vm')) :
    Layout vm' mm' ∧ SameTask mm mm' := by
  simp only [Vm.vmmResizeArea, bind, Option.bind_eq_some_iff, kassert_eq_some, exists_const] at h
  obtain ⟨enough, -, h⟩ := h
  split at h
  · simp only [pure, Option.some.injEq, Prod.mk.injEq] at h
    obtain ⟨rfl, rfl⟩ := h
    exact ⟨layout, rfl, rfl, rfl, rfl, rfl⟩
  · case h_2 a found =>
    have here := areaOf_spec found
    obtain ⟨before, behind, areas, set⟩ := exists_around found
    have above := (layout.areas a (by simp [areas])).start_lt here enough
    split_ifs at h with grow
    · exact layout.vmmAllocUser bound h
    · simp only [Option.bind_eq_some_iff, pure, Option.some.injEq, Prod.mk.injEq] at h
      obtain ⟨vm₁, freed, rfl, rfl⟩ := h
      rw [set]
      exact ⟨layout.shrink areas above (not_lt.mp grow) aligned freed, rfl, rfl, rfl, rfl, rfl⟩

end ExscapeOS.Vmm
