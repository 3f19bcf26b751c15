import ExscapeOS.Kernel.Heap.Run
import ExscapeOS.Kernel.Heap.Search

/-!
# The limit of the heap

`heap_expand` compares the maximum address with the start of the heap plus the growth, where the end
plus the growth is meant. So the heap can grow far beyond its limit, as it does after two
allocations of half its size. It stays within the limit in runs in which every allocation finds a
hole, or has room for the two expansions that it makes at most.
-/
namespace ExscapeOS.KHeap

open Lib Lib.Memory Option

variable {h h' h'' : Heap} {as : List Area} {a : Area} {n p size : Nat} {pageAlign : Bool}

/-! ## One expansion within the limit -/

lemma growthWanted_aligned (hw : size + pageSize ≤ wordSize) :
    growthWanted size % pageSize = 0 ∧ size ≤ growthWanted size ∧ kheapMinGrowth ≤
      growthWanted size := by
  unfold growthWanted nextPage add32 kheapMinGrowth pageSize wordSize at *
  dsimp only
  split_ifs <;> omega

/-- With room, `heap_expand` adds the growth that it intends. There are page tables for all
addresses below the limit. -/
lemma heapExpand_within (range : Range h) (hle : h.startAddress ≤ h.endAddress)
    (hmax : h.maxAddress = kheapMaxAddr) (hsize : size + pageSize ≤ wordSize)
    (room : h.endAddress + growthWanted size ≤ h.maxAddress) (hc : heapExpand size h = some h') :
    h' = { h with
      endAddress := h.endAddress + growthWanted size
      mem := h.mem.zero (h.endAddress + pageSize)
        (h.endAddress + growthWanted size + pageSize) } := by
  have hlt : h.maxAddress + pageSize < wordSize := by
    rw [hmax]
    decide
  have haligned := (growthWanted_aligned hsize).1
  have hend := range.stopAligned
  have hstart : add32 h.startAddress (growthWanted size) = h.startAddress + growthWanted size :=
    add32_eq (by omega)
  have hwanted : add32 h.endAddress (growthWanted size) = h.endAddress + growthWanted size :=
    add32_eq (by omega)
  have hnew : isPageAligned (h.endAddress + growthWanted size) = true := by
    rw [isPageAligned, Nat.add_mod, hend, haligned]
    rfl
  have hbelow : ¬ h.maxAddress < h.startAddress + growthWanted size := by omega
  have htables : (h.endAddress + growthWanted size + pageSize - 1) / tableSpan + 1 -
      (firstMissingTable + h.tables.length) = 0 := by
    unfold firstMissingTable kheapMaxAddr tableSpan pageSize at *
    omega
  simp only [heapExpand, hstart, hbelow, if_false, hwanted, hnew, if_true, vmmAllocKernel,
    bind_eq_bind, bind_eq_some_iff, kassert_eq_some, exists_const, pure_def,
    Option.some.injEq] at hc
  obtain ⟨-, -, -, -, -, h₁, ⟨-, -, h₂, hc, rfl⟩, rfl⟩ := hc
  rw [add32_eq (by omega), htables] at hc
  cases hc
  rw [add32_eq (by omega), add32_eq (by omega)]

lemma expand_within (inv : Inv h as) (hmax : h.maxAddress = kheapMaxAddr)
    (hsize : size + pageSize ≤ wordSize) (room : h.endAddress + growthWanted size ≤ h.maxAddress)
    (hc : expanded size h = some h'') :
    ∃ as', Inv h'' as' ∧ h''.startAddress = h.startAddress ∧ h''.maxAddress = h.maxAddress ∧
      h''.endAddress = h.endAddress + growthWanted size ∧
      freeTail as' = freeTail as + growthWanted size := by
  have hle := inv.tiles.le
  have hend := inv.range.lt
  have hlt : h.maxAddress < wordSize := by
    rw [hmax]
    decide
  obtain ⟨haligned, -, hmin⟩ := growthWanted_aligned hsize
  have hpos : 0 < growthWanted size := Nat.lt_of_lt_of_le (by decide) hmin
  have hstop := inv.range.stopAligned
  obtain ⟨h', hc, hg⟩ := expanded_eq_some hc
  obtain rfl := heapExpand_within inv.range hle hmax hsize room hc
  obtain ⟨inv₁, -⟩ := inv.setMem_outside (AgreeOn.zero h.mem (.inr (Nat.le_add_right _ pageSize)))
  have hgrowth : sub32 (sub32 (h.endAddress + growthWanted size) h.startAddress)
      (sub32 h.endAddress h.startAddress) = h.endAddress + growthWanted size - h.endAddress := by
    rw [sub32_eq (a := h.endAddress + growthWanted size) (by omega) (by omega), sub32_eq hend hle,
      sub32_eq (by omega) (by omega)]
    omega
  rw [hgrowth] at hg
  have hm : (h.endAddress + growthWanted size) % pageSize = 0 := by
    rw [Nat.add_mod, hstop, haligned]
    rfl
  have hnew : h.endAddress + growthWanted size < wordSize := by omega
  obtain ⟨as', inv', -, same, tail⟩ := growTail_spec inv₁ (Nat.lt_add_of_pos_right hpos) hnew hm hg
  refine ⟨as', inv', same.start, same.max, same.stop, ?_⟩
  rw [tail]
  exact congrArg _ (Nat.add_sub_cancel_left ..)

lemma expandWants_within (range : Range h) (hle : h.startAddress ≤ h.endAddress)
    (hmax : h.maxAddress = kheapMaxAddr) (hw : size < wordSize)
    (room : h.endAddress + growthWanted size ≤ h.maxAddress) : expandWants size h = none := by
  by_contra some
  obtain ⟨h', wants⟩ := ne_none_iff_exists'.mp some
  obtain ⟨newEnd, stop, wanted⟩ := bind_eq_some_iff.mp wants
  obtain ⟨h₁, expand, rfl⟩ := map_eq_some_iff.mp stop
  have range' : Range { h with tables := List.replicate 1024 0 } :=
    ⟨range.1, range.2, range.3, range.4, range.5⟩
  obtain rfl := heapExpand_within range' hle hmax (heapExpand_size range' hw expand) room expand
  have tables : (add32 (h.endAddress + growthWanted size) pageSize - 1) / tableSpan + 1 -
      (firstMissingTable + h.tables.length) = 0 := by
    unfold add32 wordSize firstMissingTable kheapMaxAddr tableSpan pageSize at *
    omega
  rw [tables] at wanted
  cases wanted

/-! ## Holes -/

lemma holeFits_of_spare {m : Memory} {header : Nat} (hspare : size + pageSize ≤ sizeOf m header)
    (hsmall : sizeOf m header < 2 ^ 31) : holeFits m size pageAlign header = true := by
  have hoffset : alignOffset header < pageSize := by
    unfold alignOffset isPageAligned
    simp only [beq_iff_eq]
    split_ifs with haligned
    · decide
    · unfold pageSize at *
      omega
  unfold holeFits signed32
  cases pageAlign <;> simp <;> omega

lemma Inv.finds_tail (inv : Inv h as) (size : Nat) (pageAlign : Bool)
    (hspare : size + pageSize ≤ freeTail as) (hsmall : h.endAddress < h.startAddress + 2 ^ 31) :
    ∃ area, findSmallestHole h.mem size pageAlign h.freeIndex.items = some (some area) := by
  obtain ⟨a, ha, -⟩ := inv.rightmost
  obtain ⟨l, rfl⟩ := List.getLast?_eq_some_iff.mp ha
  have mem : a ∈ l ++ [a] := by simp
  have hfree : a.tag = true := by
    by_contra hused
    rw [freeTail_concat, if_neg hused] at hspare
    unfold pageSize at hspare
    omega
  rw [freeTail_concat, if_pos hfree] at hspare
  have ia := inv.intact a mem
  have hbounds := inv.tiles.bounds mem
  have hs : a.stop = a.start + a.size := rfl
  have fits : holeFits h.mem size pageAlign a.start = true := by
    refine holeFits_of_spare ?_ ?_ <;> rw [ia.size] <;> omega
  have listed := inv.free.mem_iff.mpr (mem_freeStarts.mpr ⟨a, mem, hfree, rfl⟩)
  obtain ⟨area, found⟩ := isSome_iff_exists.mp (List.find?_isSome.mpr ⟨a.start, listed, fits⟩)
  exact ⟨area, by rw [inv.finds_first, found]⟩

/-! ## Allocation within the limit -/

/-- The range of the kernel heap, within its limit. -/
structure Within (h : Heap) : Prop where
  start : h.startAddress = 0xc0080000
  max : h.maxAddress = kheapMaxAddr
  stop : h.endAddress ≤ h.maxAddress

lemma SameBounds.within (same : SameBounds h h') (within : Within h) : Within h' :=
  ⟨same.start.trans within.start, same.max.trans within.max, by
    rw [same.stop, same.max]
    exact within.stop⟩

/-- There is a hole for the request, or the heap may grow twice. -/
def hasRoom (size : Nat) (pageAlign : Bool) (h : Heap) : Bool :=
  let first := roundedSize size pageAlign
  let second := roundedSize first pageAlign
  (findSmallestHole h.mem first pageAlign h.freeIndex.items).join.isSome ||
    decide (h.endAddress + growthWanted first + growthWanted second ≤ h.maxAddress)

/-- The search ends after at most `k` expansions. A hole that it finds is in a heap within its
limit. -/
def Ends (k n : Nat) (pageAlign : Bool) (h : Heap) : Prop :=
  ∃ j ≤ k, ∃ found, (∀ fuel, search (fuel + k + 1) n pageAlign h = some (j, found)) ∧
    ∀ size area h₁, found = .hole size area h₁ → headerSize + footerSize ≤ size ∧
      findSmallestHole h₁.mem size pageAlign h₁.freeIndex.items = some (some area) ∧
      (∃ as₁, Inv h₁ as₁) ∧ Within h₁

lemma ends_of_hole (inv : Inv h as) (within : Within h)
    (hw : n + overhead pageAlign < wordSize) (k : Nat)
    (found : findSmallestHole h.mem (n + overhead pageAlign) pageAlign h.freeIndex.items ≠
      some none) :
    Ends k n pageAlign h := by
  rcases hole : findSmallestHole h.mem (n + overhead pageAlign) pageAlign h.freeIndex.items with
    _ | _ | area
  · exact ⟨0, Nat.zero_le k, .panic, fun fuel => by simp [search, roundedSize_eq hw, hole], by simp⟩
  · exact absurd hole found
  · refine ⟨0, Nat.zero_le k, .hole (n + overhead pageAlign) area h,
      fun fuel => by simp [search, roundedSize_eq hw, hole], ?_⟩
    rintro _ _ _ ⟨⟩
    refine ⟨?_, hole, ⟨as, inv⟩, within⟩
    simp only [overhead]
    omega

/-- One expansion, and the search in the larger heap. -/
lemma Ends.grow {k : Nat} (inv : Inv h as) (within : Within h)
    (hw : n + overhead pageAlign < wordSize)
    (noHole : findSmallestHole h.mem (n + overhead pageAlign) pageAlign
      h.freeIndex.items = some none)
    (room : h.endAddress + growthWanted (n + overhead pageAlign) ≤ h.maxAddress)
    (later : ∀ h₁ as₁, Inv h₁ as₁ → Within h₁ → n + overhead pageAlign + pageSize ≤ wordSize →
      h₁.endAddress = h.endAddress + growthWanted (n + overhead pageAlign) →
      freeTail as₁ = freeTail as + growthWanted (n + overhead pageAlign) →
      Ends k (n + overhead pageAlign) pageAlign h₁) : Ends (k + 1) n pageAlign h := by
  have wants := expandWants_within inv.range inv.tiles.le within.max hw room
  cases grown : expanded (n + overhead pageAlign) h with
  | none =>
    refine ⟨1, Nat.le_add_left 1 k, .panic, fun fuel => ?_, by simp⟩
    simp [search, roundedSize_eq hw, noHole, wants, grown]
  | some h₁ =>
    obtain ⟨_, expand, -⟩ := expanded_eq_some grown
    have hsize := heapExpand_size inv.range hw expand
    obtain ⟨as₁, inv₁, start, max, stop, tail⟩ := expand_within inv within.max hsize room grown
    have within₁ : Within h₁ := ⟨start.trans within.start, max.trans within.max, by rwa [stop, max]⟩
    obtain ⟨j, le, found, ends, good⟩ := later h₁ as₁ inv₁ within₁ hsize stop tail
    refine ⟨j + 1, Nat.succ_le_succ le, found, fun fuel => ?_, good⟩
    rw [search, roundedSize_eq hw]
    simp [noHole, wants, grown, ← Nat.add_assoc, ends fuel]

/-- With room for two expansions, the free space is large enough after them. -/
lemma ends_of_room (inv : Inv h as) (within : Within h) (hw : n + overhead pageAlign < wordSize)
    (room : hasRoom n pageAlign h = true) : Ends 2 n pageAlign h := by
  by_cases noHole : findSmallestHole h.mem (n + overhead pageAlign) pageAlign h.freeIndex.items =
    some none
  swap
  · exact ends_of_hole inv within hw 2 noHole
  have limit : h.endAddress + growthWanted (n + overhead pageAlign) +
      growthWanted (roundedSize (n + overhead pageAlign) pageAlign) ≤ h.maxAddress := by
    simpa [hasRoom, roundedSize_eq hw, noHole] using room
  refine .grow inv within hw noHole (by omega) fun h₁ as₁ inv₁ within₁ hsize stop₁ tail₁ => ?_
  have hw₁ := overhead_again hsize
  rw [roundedSize_eq hw₁] at limit
  have max₁ : h₁.maxAddress = h.maxAddress := within₁.max.trans within.max.symm
  by_cases noHole₁ : findSmallestHole h₁.mem (n + overhead pageAlign + overhead pageAlign) pageAlign
      h₁.freeIndex.items = some none
  swap
  · exact ends_of_hole inv₁ within₁ hw₁ 1 noHole₁
  refine .grow inv₁ within₁ hw₁ noHole₁ (by omega) fun h₂ as₂ inv₂ within₂ hsize₁ stop₂ tail₂ => ?_
  refine ends_of_hole inv₂ within₂ (overhead_again hsize₁) 0 fun noHole₂ => ?_
  -- the free space at the end is as large as both expansions together
  have first := growthWanted_aligned hsize
  have second := growthWanted_aligned hsize₁
  have hover : 2 * overhead pageAlign + pageSize ≤ kheapMinGrowth := by cases pageAlign <;> decide
  have small : h₂.endAddress < h₂.startAddress + 2 ^ 31 := by
    have le := within₂.stop
    rw [within₂.max, kheapMaxAddr] at le
    rw [within₂.start]
    omega
  obtain ⟨area, found⟩ := inv₂.finds_tail
    (n + overhead pageAlign + overhead pageAlign + overhead pageAlign) pageAlign (by omega) small
  rw [noHole₂] at found
  cases found

/-- With room for two expansions, the heap stays within its limit. -/
lemma heapAlloc_within {fuel : Nat} (inv : Inv h as) (within : Within h)
    (hw : n + overhead pageAlign < wordSize) (room : hasRoom n pageAlign h = true)
    (enough : 3 ≤ fuel) (hc : heapAlloc fuel n pageAlign h = some (p, h')) : Within h' := by
  obtain ⟨fuel, rfl⟩ := Nat.exists_eq_add_of_le' enough
  obtain ⟨j, -, found, ends, good⟩ := ends_of_room inv within hw room
  rw [heapAlloc_eq_search, ends fuel] at hc
  cases found with
  | panic => cases hc
  | hole size area h₁ =>
    obtain ⟨hmin, hole, ⟨as₁, inv₁⟩, within₁⟩ := good size area h₁ rfl
    obtain ⟨-, -, -, -, same⟩ := alloc_of_hole inv₁ hmin hole hc
    exact same.within within₁

/-! ## Runs -/

/-- Releases are safe, and allocations find room. -/
def limitStep (s : HeapState) : Action → Bool
  | .alloc size pageAlign => hasRoom size pageAlign s.heap
  | .free ptr => safeFree s.heap ptr
  | .write _ _ => true

abbrev LimitRun : HeapState → List Action → HeapState → Prop :=
  Run (Guarded (fun s a => limitStep s a = true) fun s a t => heapStep s a = some t)

variable {s t : HeapState}

lemma Sound.within_step (sound : Sound s as) (within : Within s.heap) {act : Action}
    (ok : limitStep s act = true) (hc : heapStep s act = some t) :
    (∃ as', Sound t as') ∧ Within t.heap := by
  cases act with
  | alloc size pageAlign =>
    obtain ⟨as', sound', -⟩ := sound.alloc hc
    refine ⟨⟨as', sound'⟩, ?_⟩
    simp only [heapStep, bind_eq_bind, bind_eq_some_iff, kassert_eq_some, exists_const,
      pure_def, Option.some.injEq] at hc
    obtain ⟨hw, ⟨p, h⟩, halloc, rfl⟩ := hc
    exact heapAlloc_within sound.inv within hw ok (by decide) halloc
  | free ptr =>
    obtain ⟨as', sound', shrinks, -⟩ := sound.free ok hc
    refine ⟨⟨as', sound'⟩, shrinks.start.trans within.start, shrinks.max.trans within.max, ?_⟩
    exact shrinks.stop.trans (shrinks.max ▸ within.stop)
  | write address value =>
    refine ⟨⟨as, sound.write hc⟩, ?_⟩
    simp only [heapStep, bind_eq_bind, bind_eq_some_iff, kassert_eq_some, exists_const,
      pure_def, Option.some.injEq] at hc
    obtain ⟨-, rfl⟩ := hc
    exact ⟨within.start, within.max, within.stop⟩

lemma LimitRun.within {m : Memory} {acts : List Action} (hc : kheapCreate m = some h)
    (run : LimitRun ⟨h, []⟩ acts s) : (∃ as, Sound s as) ∧ Within s.heap := by
  have init : Within h := by
    obtain ⟨-, -, index, -, rfl⟩ := hc
    refine ⟨?_, rfl, ?_⟩ <;> dsimp only <;> decide
  refine run.invariant (P := fun s => (∃ as, Sound s as) ∧ Within s.heap)
    ⟨⟨_, kheapCreate_sound hc⟩, init⟩ ?_
  rintro s act t ⟨⟨as, sound⟩, within⟩ ⟨ok, hstep⟩
  exact sound.within_step within ok hstep

/-- The heap ends within its limit in every run whose allocations have room. -/
theorem heap_within_limit {m : Memory} {h : Heap} {acts : List Action} (hc : kheapCreate m = some h)
    (run : LimitRun ⟨h, []⟩ acts s) : s.heap.endAddress ≤ s.heap.maxAddress :=
  (LimitRun.within hc run).2.stop

theorem heap_within_limit_sample : ∃ h s, kheapCreate (fun _ => 0) = some h ∧
    LimitRun ⟨h, []⟩ [.alloc 0x100000 false, .alloc 5000 true] s ∧
    s.heap.endAddress ≤ s.heap.maxAddress := by
  obtain ⟨h, s, hc, run, -⟩ : ∃ h s, kheapCreate (fun _ => 0) = some h ∧
      LimitRun ⟨h, []⟩ [.alloc 0x100000 false, .alloc 5000 true] s ∧ True :=
    Run.exists_of_init_guarded (by decide +kernel)
  exact ⟨h, s, hc, run, heap_within_limit hc run⟩

/-- Two blocks of 128 megabytes: the second expansion passes the check, and the heap ends at
`0xd0092000`. -/
theorem heap_beyond_limit : ∃ h s, kheapCreate (fun _ => 0) = some h ∧
    HeapRun ⟨h, []⟩ [.alloc 0x8000000 false, .alloc 0x8000000 false] s ∧
    s.heap.maxAddress = 0xcffff000 ∧ s.heap.endAddress = 0xd0092000 :=
  Run.exists_of_init (by decide +kernel)

/-! ## Expansions -/

/-- In every such run, an allocation that has room makes at most two expansions. -/
theorem expansions_bounded {m : Memory} {h : Heap} {acts : List Action}
    (hc : kheapCreate m = some h)
    (run : LimitRun ⟨h, []⟩ acts s) (hw : n + overhead pageAlign < wordSize)
    (room : hasRoom n pageAlign s.heap = true) :
    ∃ k ≤ 2, ∃ found, ∀ fuel, search (fuel + 3) n pageAlign s.heap = some (k, found) := by
  obtain ⟨⟨as, sound⟩, within⟩ := LimitRun.within hc run
  obtain ⟨k, le, found, ends, -⟩ := ends_of_room sound.inv within hw room
  exact ⟨k, le, found, ends⟩

theorem expansions_bounded_aligned : ∃ h s, kheapCreate (fun _ => 0) = some h ∧
    LimitRun ⟨h, []⟩ [.alloc 0x100000 false] s ∧
    ∃ k ≤ 2, ∃ found, ∀ fuel, search (fuel + 3) 0x9000 true s.heap = some (k, found) := by
  obtain ⟨h, s, hc, run, room⟩ : ∃ h s, kheapCreate (fun _ => 0) = some h ∧
      LimitRun ⟨h, []⟩ [.alloc 0x100000 false] s ∧ hasRoom 0x9000 true s.heap = true :=
    Run.exists_of_init_guarded (by decide +kernel)
  exact ⟨h, s, hc, run, expansions_bounded hc run (by decide) room⟩

/-- Two blocks fill the heap up to its limit, a page below a range without page table. The
allocation of a page then goes on for ever. -/
theorem expansions_unbounded : ∃ h s, kheapCreate (fun _ => 0) = some h ∧
    HeapRun ⟨h, []⟩ [.alloc 0xff6efe9 false, .alloc 0xffd2 false] s ∧
    ∀ fuel, search fuel pageSize true s.heap = none := by
  obtain ⟨h, s, hc, run, noHole, stop, tables, last⟩ : ∃ h s, kheapCreate (fun _ => 0) = some h ∧
      HeapRun ⟨h, []⟩ [.alloc 0xff6efe9 false, .alloc 0xffd2 false] s ∧
      findSmallestHole s.heap.mem (roundedSize pageSize true) true s.heap.freeIndex.items =
        some none ∧
      expandedEnd (roundedSize pageSize true) s.heap = some 0xd0007000 ∧ s.heap.tables = [] ∧
      s.heap.endAddress = 0xcffff000 :=
    Run.exists_of_init (by decide +kernel)
  refine ⟨h, s, hc, run, fun fuel => search_table_none noHole stop ?_ ?_⟩
  · rw [tables]
    decide
  · rw [tables, last]
    decide

end ExscapeOS.KHeap
