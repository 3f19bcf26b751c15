import ExscapeOS.Kernel.Heap.Hole

/-!
# Correctness of allocation

`heapAlloc` keeps the invariant and the used areas with their contents, and returns a block that
lies in a used area of its own. So do the page tables that an expansion allocates. The recursion
ends, since every expansion adds at least a page (`heapAlloc_fuel`).
-/
namespace ExscapeOS.KHeap

open Lib Lib.Memory List Option

variable {h h' h'' : Heap} {as l r : List Area} {bs : List Block} {a u : Area} {n p size : Nat}
  {pageAlign : Bool}

/-! ## The new block -/

/-- The bytes `heap_alloc` adds to a request. -/
def overhead (pageAlign : Bool) : Nat := headerSize + footerSize + if pageAlign then 0 else 3

lemma roundedSize_eq (hw : n + overhead pageAlign < wordSize) :
    roundedSize n pageAlign = n + overhead pageAlign := by
  cases pageAlign with
  | true => exact add32_eq hw
  | false =>
    have hlt : n + (headerSize + footerSize) < wordSize := by
      simp only [overhead] at hw
      omega
    simp only [roundedSize, add32_eq hlt, Bool.false_eq_true, if_false]
    exact add32_eq hw

lemma Allocated.fits (al : Allocated h as size pageAlign p h' l u r)
    (hsize : n + overhead pageAlign ≤ size) : Fits ⟨p, n, pageAlign⟩ u := by
  have hu : u ∈ l ++ u :: r := by simp
  have hb := (al.inv.intact u hu).big
  have hs : u.stop = u.start + u.size := rfl
  have hw := al.inv.stop_lt hu
  have hle := hsize.trans al.size_le
  simp only [headerSize, footerSize] at hb
  refine ⟨al.used, al.ptr, ?_, ?_⟩
  · cases pageAlign with
    | true =>
      rw [al.ptr, dwordAlign_of_aligned (al.aligned rfl)]
      simp only [overhead, headerSize, footerSize, if_true] at *
      omega
    | false =>
      obtain ⟨-, hp, -⟩ := dwordAlign_bounds (x := u.start + headerSize) (by
        simp only [headerSize]; omega)
      rw [← al.ptr] at hp
      simp only [overhead, headerSize, footerSize, Bool.false_eq_true, if_false] at *
      omega
  · intro hpage
    rw [al.ptr, dwordAlign_of_aligned (al.aligned hpage)]
    exact al.aligned hpage

lemma Fits.ptr_ne {b c : Block} {a' : Area} (inv : Inv h as) (ha : a ∈ as) (ha' : a' ∈ as)
    (fb : Fits b a) (fc : Fits c a') (apart : a.stop ≤ a'.start ∨ a'.stop ≤ a.start) :
    b.ptr ≠ c.ptr := by
  have hw := inv.stop_lt ha
  have hw' := inv.stop_lt ha'
  have hb := (fb.bounds (inv.intact a ha) hw).1
  have hc := (fc.bounds (inv.intact a' ha') hw').1
  have hb' := fb.le
  have hc' := fc.le
  simp only [headerSize] at hb hc
  omega

lemma Allocated.holds (al : Allocated h as size pageAlign p h' l u r) (hold : Holds as bs)
    (hsize : n + overhead pageAlign ≤ size) :
    Holds (l ++ u :: r) (⟨p, n, pageAlign⟩ :: bs) := by
  have hu : u ∈ l ++ u :: r := by simp
  have fu := al.fits hsize
  have old := hold.kept al.kept
  have mem := append_subset_around l r u
  refine ⟨nodup_cons.mpr ⟨fun hp => ?_, old.nodup⟩, fun b hb => ?_⟩
  · obtain ⟨b, hb, hbp⟩ := mem_map.mp hp
    obtain ⟨a, ha, fb⟩ := old.fits b hb
    exact fb.ptr_ne al.inv (mem ha) hu fu (al.inv.tiles.apart_around ha) hbp
  · rcases mem_cons.mp hb with rfl | hb
    · exact ⟨u, hu, fu⟩
    · obtain ⟨a, ha, fb⟩ := old.fits b hb
      exact ⟨a, mem ha, fb⟩

lemma findSmallestHole_eq_find? {m : Memory} {index : List Nat}
    (intact : ∀ x ∈ index, holeIntact m x = true) (size : Nat) (pageAlign : Bool) :
    findSmallestHole m size pageAlign index = some (index.find? (holeFits m size pageAlign)) := by
  induction index with
  | nil => rfl
  | cons x xs ih =>
    obtain ⟨here, rest⟩ := forall_mem_cons.mp intact
    rw [findSmallestHole, if_pos here, ih rest, find?_cons]
    cases holeFits m size pageAlign x <;> rfl

/-- `find_smallest_hole` finds the first hole that fits; no check fails. -/
lemma Inv.finds_first (inv : Inv h as) (size : Nat) (pageAlign : Bool) :
    findSmallestHole h.mem size pageAlign h.freeIndex.items =
      some (h.freeIndex.items.find? (holeFits h.mem size pageAlign)) := by
  refine findSmallestHole_eq_find? (fun x hx => ?_) size pageAlign
  obtain ⟨a, ha, hfree, rfl⟩ := mem_freeStarts.mp (inv.free.mem_iff.mp hx)
  have ia := inv.intact a ha
  have hf := ia.footerFromHeader_eq (inv.stop_lt ha)
  simp [holeIntact, ia.magic, ia.type, hfree, hf, ia.footMagic, ia.footHeader]

lemma alloc_of_hole (inv : Inv h as) {area : Nat} (hmin : headerSize + footerSize ≤ size)
    (hf : findSmallestHole h.mem size pageAlign h.freeIndex.items = some (some area))
    (hc : takeArea area size pageAlign h = some (p, h')) :
    ∃ l u r, Allocated h as size pageAlign p h' l u r ∧ SameRange h h' := by
  rw [inv.finds_first, Option.some.injEq] at hf
  have hfit := find?_some hf
  simp only [holeFits, Bool.and_eq_true, decide_eq_true_eq] at hfit
  exact takeArea_spec inv (inv.free.mem_iff.mp (mem_of_find?_eq_some hf)) hmin hfit.1 hc

/-! ## Page tables -/

lemma createPageTable_spec (inv : Inv h as) (hold : Holds as (bs ++ tableBlocks h))
    (hc : createPageTable h = some h') :
    ∃ as', Inv h' as' ∧ Kept h.mem as h'.mem as' ∧ Holds as' (bs ++ tableBlocks h') ∧
      SameBounds h h' := by
  simp only [createPageTable, bind_eq_bind, Option.bind_eq_some_iff] at hc
  obtain ⟨_ | area, hf, hc⟩ := hc
  · simp at hc
  · simp only [Option.bind_eq_some_iff, Option.pure_def, Option.some.injEq] at hc
    obtain ⟨⟨table, h₁⟩, ht, rfl⟩ := hc
    have hsize : roundedSize pageSize true = pageSize + overhead true :=
      roundedSize_eq (by decide)
    obtain ⟨l, u, r, al, same⟩ := alloc_of_hole inv (hsize ▸ by decide) hf ht
    have fu : Fits ⟨table, pageSize, true⟩ u := al.fits hsize.ge
    -- the table is cleared, which only writes to the new block
    have hw : u.stop < wordSize := al.inv.stop_lt (by simp)
    have off : AgreeOff h₁.mem (h₁.mem.zero table (table + pageSize)) (u.start + headerSize)
        (u.stop - footerSize) :=
      (AgreeOff.zero _ _ _).mono (fu.bounds (al.inv.intact u (by simp)) hw).1 fu.le
    obtain ⟨inv', kept'⟩ := al.inv.setData off
    have hold' := al.holds hold hsize.ge
    refine ⟨l ++ u :: r, ⟨⟨inv'.range.1, inv'.range.2, inv'.range.3, inv'.range.4, inv'.range.5⟩,
      inv'.tiles, inv'.intact, inv'.free, inv'.used, inv'.apart, inv'.rightmost⟩,
      (al.kept.trans kept').mono (fun _ ha _ => ha) (append_subset_around l r u), hold'.perm ?_,
      ⟨same.start, same.stop, same.max⟩⟩
    simpa [tableBlocks, same.tables] using perm_middle.symm

lemma createPageTables_spec (hold : Holds as (bs ++ tableBlocks h)) (inv : Inv h as)
    (hc : createPageTables n h = some h') :
    ∃ as', Inv h' as' ∧ Kept h.mem as h'.mem as' ∧ Holds as' (bs ++ tableBlocks h') ∧
      SameBounds h h' := by
  induction n generalizing h as with
  | zero =>
    cases hc
    exact ⟨as, inv, .refl _ _, hold, ⟨rfl, rfl, rfl⟩⟩
  | succ n ih =>
    obtain ⟨h₁, h₁c, hc⟩ := bind_eq_some_iff.mp hc
    obtain ⟨as₁, inv₁, kept₁, hold₁, same₁⟩ := createPageTable_spec inv hold h₁c
    obtain ⟨as₂, inv₂, kept₂, hold₂, same₂⟩ := ih hold₁ inv₁ hc
    exact ⟨as₂, inv₂, kept₁.trans kept₂, hold₂, same₁.trans same₂⟩

/-! ## Expansion -/

lemma vmmAllocKernel_spec {start stop : Nat} (inv : Inv h as)
    (hold : Holds as (bs ++ tableBlocks h)) (hstart : h.endAddress ≤ start)
    (hc : vmmAllocKernel start stop h = some h') :
    ∃ as', Inv h' as' ∧ Kept h.mem as h'.mem as' ∧ Holds as' (bs ++ tableBlocks h') ∧
      SameBounds h h' := by
  simp only [vmmAllocKernel, bind_eq_bind, Option.bind_eq_some_iff, kassert_eq_some,
    exists_const, Option.pure_def, Option.some.injEq] at hc
  obtain ⟨-, -, h₁, hc, rfl⟩ := hc
  obtain ⟨as', inv₁, kept₁, hold₁, same₁⟩ := createPageTables_spec hold inv hc
  obtain ⟨inv₂, kept₂⟩ := inv₁.setMem_outside
    (AgreeOn.zero _ (.inr (same₁.stop ▸ hstart)))
  exact ⟨as', inv₂, kept₁.trans kept₂, hold₁, ⟨same₁.start, same₁.stop, same₁.max⟩⟩

/-- `heap_expand` may allocate page tables, and moves the end of the heap. -/
lemma heapExpand_spec (inv : Inv h as) (hold : Holds as (bs ++ tableBlocks h))
    (hc : heapExpand size h = some h') :
    ∃ h₁ as', Inv h₁ as' ∧ Kept h.mem as h₁.mem as' ∧ Holds as' (bs ++ tableBlocks h₁) ∧
      SameBounds h h₁ ∧ ∃ newEnd, h' = { h₁ with endAddress := newEnd } ∧
      h.endAddress < newEnd ∧ newEnd < wordSize ∧ newEnd % pageSize = 0 := by
  simp only [heapExpand, bind_eq_bind, Option.bind_eq_some_iff, kassert_eq_some,
    exists_const, Option.pure_def, Option.some.injEq] at hc
  generalize hg : (if h.maxAddress < add32 h.startAddress (growthWanted size) then
    sub32 (sub32 h.maxAddress h.startAddress) (sub32 h.endAddress h.startAddress)
    else growthWanted size) = growth at hc
  have hwanted := add32_lt h.endAddress growth
  generalize add32 h.endAddress growth = wanted at hc hwanted
  have hnew : (if isPageAligned wanted then wanted else wanted - wanted % pageSize) < wordSize := by
    split_ifs <;> omega
  generalize (if isPageAligned wanted then wanted else wanted - wanted % pageSize) = newEnd
    at hc hnew
  obtain ⟨-, -, ⟨-, haligned⟩, -, hlt, h₁, hvmm, rfl⟩ := hc
  have hmod : newEnd % pageSize = 0 := by simpa [isPageAligned] using haligned
  have hend : h.endAddress + pageSize < wordSize := by
    have := inv.range.stopAligned
    simp only [pageSize] at *
    omega
  rw [add32_eq hend] at hvmm
  obtain ⟨as', inv₁, kept₁, hold₁, same₁⟩ :=
    vmmAllocKernel_spec inv hold (Nat.le_add_right _ _) hvmm
  exact ⟨h₁, as', inv₁, kept₁, hold₁, same₁, newEnd, rfl, hlt, hnew, hmod⟩

lemma growthWanted_cases (hw : size < wordSize) :
    (growthWanted size = 0 ∨ size ≤ growthWanted size) ∧ growthWanted size < wordSize := by
  have hmin : kheapMinGrowth < wordSize := by decide
  simp only [growthWanted]
  generalize hs : (if size < kheapMinGrowth then kheapMinGrowth else size) = s
  have hle : size ≤ s ∧ s < wordSize := by
    subst hs
    split_ifs <;> omega
  by_cases hm : s % pageSize = 0
  · rw [if_pos hm]
    exact ⟨.inr hle.1, hle.2⟩
  · rw [if_neg hm]
    simp only [nextPage, pageSize, add32, wordSize] at *
    omega

/-- Rounding up a request that `heap_expand` accepts again cannot wrap. -/
lemma heapExpand_size (range : Range h) (hw : size < wordSize)
    (hc : heapExpand size h = some h') : size + pageSize ≤ wordSize := by
  have hpos := range.pos
  have haligned := range.aligned
  have hmax := range.le_max
  simp only [heapExpand, bind_eq_bind, bind_eq_some_iff, kassert_eq_some,
    exists_const] at hc
  obtain ⟨-, hlt, -⟩ := hc
  have hgrow := growthWanted_cases hw
  generalize growthWanted size = growth at hlt hgrow
  by_cases hover : h.maxAddress < add32 h.startAddress growth
  · simp only [add32, wordSize, pageSize] at *
    omega
  · rw [if_neg hover] at hlt
    simp only [add32, wordSize, pageSize] at *
    omega

lemma Inv.expand (inv : Inv h as) {newEnd : Nat} (hw : newEnd < wordSize)
    (hm : newEnd % pageSize = 0) :
    Gap { h with endAddress := newEnd } as h.endAddress newEnd [] where
  range := ⟨inv.range.aligned, inv.range.pos, hm, hw, inv.range.le_max⟩
  left := inv.tiles
  right := rfl
  intact := by simpa using inv.intact
  free := by simpa using inv.free
  used := by simpa using inv.used
  apartLeft := inv.apart
  apartRight := .nil
  rightmost := by
    obtain ⟨a, ha, hx⟩ := inv.rightmost
    have := (inv.tiles.bounds (mem_of_getLast? ha)).2
    simp only [Seg.stop] at this
    simp only [if_true, hx]
    omega

/-- The size of the last area if it is free. -/
def freeTail (as : List Area) : Nat := as.getLast?.elim 0 fun a => if a.tag then a.size else 0

lemma freeTail_concat (l : List Area) (a : Area) :
    freeTail (l ++ [a]) = if a.tag then a.size else 0 := by
  simp [freeTail]

lemma growTail_spec (inv : Inv h as) {newEnd : Nat} (hlt : h.endAddress < newEnd)
    (hw : newEnd < wordSize) (hm : newEnd % pageSize = 0)
    (hc : growTail (newEnd - h.endAddress) { h with endAddress := newEnd } = some h') :
    ∃ as', Inv h' as' ∧ Kept h.mem as h'.mem as' ∧
      SameRange { h with endAddress := newEnd } h' ∧
      freeTail as' = freeTail as + (newEnd - h.endAddress) := by
  have g := inv.expand hw hm
  obtain ⟨a, ha, hx⟩ := inv.rightmost
  obtain ⟨l, rfl⟩ := getLast?_eq_some_iff.mp ha
  have ia := inv.intact a (by simp)
  have hpos : a.start ≠ 0 := by
    have := (inv.tiles.bounds (s := a) (by simp)).1
    have := inv.range.pos
    omega
  have hstop : a.stop = h.endAddress := (tiles_around.mp inv.tiles).2
  have hstopw : a.stop < wordSize := hstop ▸ inv.range.lt
  have hsum : h.endAddress + (newEnd - h.endAddress) = newEnd := by omega
  simp only [growTail, hx, hpos, ne_eq, not_false_eq_true, true_and, ia.type] at hc
  cases htag : a.tag with
  | true =>
    -- the last area is free and grows
    simp only [htag, typeByte_true, if_true, some.injEq, ia.footerFromHeader_eq hstopw,
      hstop] at hc
    obtain ⟨g', kept⟩ := g.growLast (newEnd - h.endAddress) (by omega)
    rw [hsum] at g'
    have inv' := g'.close (by simpa using g'.apartLeft) (by simpa [isLast_concat] using hx)
    obtain rfl : ({ h with
        endAddress := newEnd
        mem := extendArea a.start (h.endAddress - footerSize) (newEnd - h.endAddress) h.mem }
          : Heap) = h' := by
      rw [← hc, ← hx]
    refine ⟨_, inv', by simpa using kept, .of_eq rfl rfl rfl rfl, ?_⟩
    rw [append_nil, freeTail_concat, freeTail_concat, htag]
    rfl
  | false =>
    -- the last area is used and a free area is created behind it
    have hne : ¬ (areaUsed = areaFree) := by decide
    simp only [htag, typeByte_false, hne, if_false, bind_eq_bind, bind_eq_some_iff,
      kassert_eq_some, exists_const, true_and, ia.size] at hc
    have hnew : add32 a.start a.size = h.endAddress := by
      rw [add32_eq hstopw]
      exact hstop
    rw [hnew] at hc
    have hc : addArea h.endAddress (newEnd - h.endAddress) areaFree
        { h with endAddress := newEnd } = some h' := by
      rw [← hc, ← hx]
    obtain ⟨g', last, kept⟩ := g.fillLeft true hc (by omega) fun _ b hb => by
      obtain rfl : a = b := by simpa using hb
      exact htag
    rw [hsum] at g'
    have inv' := g'.close (by simpa using g'.apartLeft) (by simpa using last)
    refine ⟨_, inv', ?_, addArea_sameRange true hc, ?_⟩
    · refine Kept.mono kept (fun b hb _ => by simpa using hb) fun b hb => ?_
      simp only [append_nil] at hb ⊢
      exact mem_append_left _ hb
    · rw [append_nil, freeTail_concat, freeTail_concat, htag]
      exact (Nat.zero_add _).symm

/-! ## Allocation -/

/-- When there is no hole: one expansion, then the same request again. -/
lemma expand_spec (inv : Inv h as) (hold : Holds as (bs ++ tableBlocks h)) (hw : size < wordSize)
    (hc : heapExpand size h = some h')
    (hg : growTail (sub32 (sub32 h'.endAddress h'.startAddress)
      (sub32 h.endAddress h.startAddress)) h' = some h'') :
    ∃ as', Inv h'' as' ∧ Kept h.mem as h''.mem as' ∧ Holds as' (bs ++ tableBlocks h'') ∧
      h.endAddress + pageSize ≤ h''.endAddress ∧ size + pageSize ≤ wordSize := by
  have hsize := heapExpand_size inv.range hw hc
  obtain ⟨h₁, as₁, inv₁, kept₁, hold₁, same₁, newEnd, rfl, hlt, hnw, hm⟩ :=
    heapExpand_spec inv hold hc
  have hle := inv.tiles.le
  have hend := inv.range.lt
  have hgrowth : sub32 (sub32 newEnd h₁.startAddress) (sub32 h.endAddress h.startAddress) =
      newEnd - h₁.endAddress := by
    rw [same₁.start, same₁.stop, sub32_eq hnw (by omega), sub32_eq hend hle,
      sub32_eq (by omega) (by omega)]
    omega
  rw [hgrowth] at hg
  obtain ⟨as₂, inv₂, kept₂, same₂, -⟩ := growTail_spec inv₁ (same₁.stop ▸ hlt) hnw hm hg
  refine ⟨as₂, inv₂, kept₁.trans kept₂, ?_, ?_, hsize⟩
  · have := hold₁.kept kept₂
    simpa [tableBlocks, same₂.tables] using this
  · have hstop := same₂.stop
    have ha := inv.range.stopAligned
    simp only [pageSize] at *
    omega

lemma overhead_again (hsize : n + overhead pageAlign + pageSize ≤ wordSize) :
    n + overhead pageAlign + overhead pageAlign < wordSize := by
  have : overhead pageAlign < pageSize := by cases pageAlign <;> decide
  omega

/-- `heapAlloc` keeps the heap intact and every block with its contents, and adds the new one. -/
lemma heapAlloc_spec {fuel : Nat} (inv : Inv h as) (hold : Holds as (bs ++ tableBlocks h))
    (hw : n + overhead pageAlign < wordSize) (hc : heapAlloc fuel n pageAlign h = some (p, h')) :
    ∃ as', Inv h' as' ∧ Kept h.mem as h'.mem as' ∧
      Holds as' (⟨p, n, pageAlign⟩ :: bs ++ tableBlocks h') := by
  induction fuel generalizing n h as with
  | zero => simp [heapAlloc] at hc
  | succ fuel ih =>
    simp only [heapAlloc, roundedSize_eq hw, bind_eq_bind, bind_eq_some_iff] at hc
    obtain ⟨_ | area, hf, hc⟩ := hc
    · simp only [bind_eq_some_iff] at hc
      obtain ⟨h₁, he, h₂, hg, hc⟩ := hc
      obtain ⟨as₁, inv₁, kept₁, hold₁, -, hsize⟩ := expand_spec inv hold hw he hg
      obtain ⟨as₂, inv₂, kept₂, hold₂⟩ := ih inv₁ hold₁ (overhead_again hsize) hc
      exact ⟨as₂, inv₂, kept₁.trans kept₂, hold₂.shrink (Nat.le_add_right _ _)⟩
    · have hmin : headerSize + footerSize ≤ n + overhead pageAlign := by
        simp only [overhead]
        omega
      obtain ⟨l, u, r, al, same⟩ := alloc_of_hole inv hmin hf hc
      refine ⟨_, al.inv, al.kept.mono (fun _ ha _ => ha) (append_subset_around l r u), ?_⟩
      simpa [tableBlocks, same.tables] using al.holds hold le_rfl

/-- Any two bounds on the depth that cover the pages above the heap give the same result. -/
lemma heapAlloc_fuel {fuel fuel' : Nat} (inv : Inv h as) (hold : Holds as (bs ++ tableBlocks h))
    (hw : n + overhead pageAlign < wordSize) (hfuel : wordSize ≤ h.endAddress + fuel * pageSize)
    (hfuel' : wordSize ≤ h.endAddress + fuel' * pageSize) :
    heapAlloc fuel n pageAlign h = heapAlloc fuel' n pageAlign h := by
  induction fuel generalizing fuel' n h as with
  | zero =>
    have := inv.range.lt
    omega
  | succ fuel ih =>
    cases fuel' with
    | zero =>
      have := inv.range.lt
      omega
    | succ fuel' =>
      simp only [heapAlloc, roundedSize_eq hw]
      refine bind_congr fun found _ => ?_
      cases found with
      | some area => rfl
      | none =>
        refine bind_congr fun h₁ he => bind_congr fun h₂ hg => ?_
        obtain ⟨as', inv', -, hold', hend, hsize⟩ := expand_spec inv hold hw he hg
        apply ih inv' hold' (overhead_again hsize)
        · rw [Nat.add_mul] at hfuel
          omega
        · rw [Nat.add_mul] at hfuel'
          omega

end ExscapeOS.KHeap
