import ExscapeOS.Kernel.Heap.Run

/-!
# Bad requests

`find_area_and_validate` looks for a header in front of a pointer. Its loop is meant to give up
after four positions, but the counter is never incremented. So a pointer into the heap is never
rejected: either the header of some block is found, or the kernel panics.

`heap_alloc` adds the size of its records to a request before it compares it with anything. If that
wraps, the block is as small as the sum.
-/
namespace ExscapeOS.KHeap

open Lib Lib.Memory List Option

/-! ## Pointers that are not blocks -/

def kheapIsValid (p : Nat) (h : Heap) : Option Bool :=
  if p = 0 then some false else (findAreaAndValidate p h).map Option.isSome

/-- How many positions the loop of `find_area_and_validate` looks at. -/
def inspected (m : Memory) : Nat → Nat
  | 0 => 0
  | a + 1 => if magicOf m (a + 1) = heapMagic then 1 else inspected m a + 1

/-- The pointer is found to be none of the heap's, without a long search. -/
structure Rejected (h : Heap) (p : Nat) : Prop where
  invalid : kheapIsValid p h = some false
  unchanged : heapFree p h = some h
  near : inspected h.mem (sub32 p headerSize) ≤ 4

lemma findAreaAndValidate_ne_none {h : Heap} {p : Nat} (low : h.startAddress ≤ p)
    (high : p ≤ h.maxAddress) : findAreaAndValidate p h ≠ some none := by
  have inside : ¬ (h.maxAddress < p ∨ p < h.startAddress) := by omega
  intro eq
  simp only [findAreaAndValidate, if_neg inside, bind, pure, bind_eq_some_iff, kassert_eq_some,
    exists_const] at eq
  obtain ⟨header, -, -, -, -, absurd⟩ := eq
  simp at absurd

/-- In a run, no pointer into the heap is rejected, start of a block or not. -/
theorem pointer_not_rejected {m : Memory} {h : Heap} {acts : List Action} {s : HeapState} {p : Nat}
    (hc : kheapCreate m = some h) (run : SafeRun ⟨h, []⟩ acts s) (low : s.heap.startAddress ≤ p)
    (high : p ≤ s.heap.maxAddress) : ¬ Rejected s.heap p := by
  obtain ⟨as, sound⟩ := Sound.run hc run
  have pos := sound.inv.range.pos
  rintro ⟨invalid, -, -⟩
  rw [kheapIsValid, if_neg (by omega)] at invalid
  obtain ⟨found, eq, none⟩ := map_eq_some_iff.mp invalid
  rw [isSome_eq_false_iff, isNone_iff_eq_none] at none
  exact findAreaAndValidate_ne_none low high (none ▸ eq)

/-- One block of a hundred bytes, and a pointer into the middle of it. -/
theorem pointer_not_rejected_interior : ∃ h s, kheapCreate (fun _ => 0) = some h ∧
    SafeRun ⟨h, []⟩ [.alloc 100 false] s ∧ ¬ Rejected s.heap 0xc0080040 := by
  obtain ⟨s, hs, low, high⟩ : ∃ s ∈ safeExec [.alloc 100 false],
      s.heap.startAddress = 0xc0080000 ∧ s.heap.maxAddress = 0xcffff000 := by decide +kernel
  obtain ⟨h, hc, run⟩ := run_of_safeExec hs
  exact ⟨h, s, hc, run, pointer_not_rejected hc run (low.trans_le (by decide))
    ((show 0xc0080040 ≤ 0xcffff000 by decide).trans_eq high.symm)⟩

/-- The block is freed through the pointer into the middle of it. -/
theorem interior_pointer_freed :
    (((kheapCreate fun _ => 0).bind fun h => exec heapStep ⟨h, []⟩ [.alloc 100 false]).bind fun s =>
      (heapFree 0xc0080040 s.heap).map fun h => (s.live.map Block.ptr,
        kheapIsValid 0xc0080040 s.heap,
        inspected s.heap.mem (0xc0080040 - headerSize), s.heap.usedIndex.items,
        h.usedIndex.items)) = some ([0xc008000c], some true, 53, [0xc0080000], []) := by
  decide +kernel

/-! ## Pointers that are blocks -/

/-- The area at `header` is in use, and the block lies in its data. -/
structure OwnHeader (h : Heap) (b : Block) (header : Nat) : Prop where
  used : header ∈ h.usedIndex.items
  before : header + headerSize ≤ b.ptr
  inside : b.ptr + b.size + footerSize ≤ header + sizeOf h.mem header

/-- Validation stops at the block's own header. -/
def Validated (h : Heap) (b : Block) : Prop :=
  ∃ header, OwnHeader h b header ∧ ∀ m, AgreeOff h.mem m (header + headerSize) b.ptr →
    findAreaAndValidate b.ptr { h with mem := m } =
      some (some (header, header + sizeOf h.mem header - footerSize))

lemma Fits.ownHeader {h : Heap} {as : List Area} {a : Area} {b : Block} (f : Fits b a)
    (inv : Inv h as) (ha : a ∈ as) : OwnHeader h b a.start := by
  have ia := inv.intact a ha
  have big := ia.big
  have le := f.le
  have stop : a.stop = a.start + a.size := rfl
  refine ⟨inv.used.mem_iff.mpr (mem_usedStarts.mpr ⟨a, ha, f.used, rfl⟩),
    (f.bounds ia (inv.stop_lt ha)).1, ?_⟩
  rw [ia.size]
  omega

/-- In a run, a live block is validated exactly if it begins below the limit. -/
theorem block_validated_iff {m : Memory} {h : Heap} {acts : List Action} {s : HeapState} {b : Block}
    (hc : kheapCreate m = some h) (run : SafeRun ⟨h, []⟩ acts s) (live : b ∈ s.live) :
    Validated s.heap b ↔ b.ptr ≤ s.heap.maxAddress := by
  obtain ⟨as, sound⟩ := Sound.run hc run
  obtain ⟨a, ha, f⟩ := sound.holds.fits b (mem_append_left _ live)
  constructor
  · rintro ⟨header, -, found⟩
    by_contra above
    have rejected : findAreaAndValidate b.ptr s.heap = some none :=
      if_pos (.inl (Nat.lt_of_not_le above))
    cases rejected.symm.trans (found s.heap.mem fun _ _ => rfl)
  · intro below
    have own := f.ownHeader sound.inv ha
    refine ⟨a.start, own, fun m off => ?_⟩
    -- the gap is data of the area, and other data does not matter to the invariant
    obtain ⟨l, r, rfl⟩ := append_of_mem ha
    have inv := (sound.inv.setData (off.mono le_rfl ((Nat.le_add_right _ _).trans f.le))).1
    have low := (sound.inv.tiles.bounds ha).1.trans ((Nat.le_add_right _ _).trans own.before)
    rcases f.findAreaAndValidate inv ha with outside | found
    · exact absurd outside (findAreaAndValidate_ne_none low below)
    · rw [found, (sound.inv.intact a ha).size]
      rfl

/-- A page-aligned block; the one before it was split off to align it. -/
theorem block_validated_aligned : ∃ h s, kheapCreate (fun _ => 0) = some h ∧
    SafeRun ⟨h, []⟩ [.alloc 5000 true] s ∧ ∀ b ∈ s.live, Validated s.heap b := by
  obtain ⟨s, hs, below⟩ : ∃ s ∈ safeExec [.alloc 5000 true],
      ∀ b ∈ s.live, b.ptr ≤ s.heap.maxAddress := by decide +kernel
  obtain ⟨h, hc, run⟩ := run_of_safeExec hs
  exact ⟨h, s, hc, run, fun b live =>
    (block_validated_iff hc run live).mpr (below b live)⟩

/-- The heap has grown beyond its limit, and the third block there is not found. -/
theorem block_beyond_limit :
    ((safeExec [.alloc 0x8000000 false, .alloc 0x8000000 false, .alloc 60000 false]).map fun s =>
      (s.live.head?.map Block.ptr, s.heap.maxAddress, findAreaAndValidate 0xd0082044 s.heap)) =
      some (some 0xd0082044, 0xcffff000, some none) := by
  decide +kernel

/-! ## Sizes that wrap -/

/-- The `n` bytes at `p` are data of a used area in the heap. -/
def Usable (h : Heap) (p n : Nat) : Prop :=
  ∃ header ∈ h.usedIndex.items, h.startAddress ≤ header ∧ header + headerSize ≤ p ∧
    p + n + footerSize ≤ header + sizeOf h.mem header ∧ header + sizeOf h.mem header ≤ h.endAddress

/-- `heap_alloc` panics or returns a block of at least `n` bytes. -/
def Serves (n : Nat) (pageAlign : Bool) (h : Heap) : Prop :=
  ∃ result, (∀ fuel, allocFuel ≤ fuel → heapAlloc fuel n pageAlign h = result) ∧
    ∀ p h', result = some (p, h') → Usable h' p n

variable {s : HeapState} {as : List Area} {n : Nat} {pageAlign : Bool}

lemma Sound.serves (sound : Sound s as) (hw : n + overhead pageAlign < wordSize) :
    Serves n pageAlign s.heap := by
  have enough {fuel : Nat} (le : allocFuel ≤ fuel) :
      wordSize ≤ s.heap.endAddress + fuel * pageSize := by
    simp only [allocFuel, pageSize, wordSize] at *
    omega
  refine ⟨heapAlloc allocFuel n pageAlign s.heap, fun fuel le => ?_, fun p h' result => ?_⟩
  · exact heapAlloc_fuel sound.inv sound.holds hw (enough le) (enough le_rfl)
  · obtain ⟨as', inv, -, holds⟩ := heapAlloc_spec sound.inv sound.holds hw result
    obtain ⟨a, ha, f⟩ := holds.fits ⟨p, n, pageAlign⟩ (by simp)
    obtain ⟨used, before, inside⟩ := f.ownHeader inv ha
    obtain ⟨low, high⟩ := inv.tiles.bounds ha
    refine ⟨a.start, used, low, before, inside, ?_⟩
    rw [(inv.intact a ha).size]
    exact high

/-- A hole of 23 bytes between two blocks. -/
def smallHole : List Action :=
  [.alloc 0 false, .alloc 0 false, .alloc 0 false, .free 0xc0080024]

/-- A hole in which 23 bytes are left after a page boundary. -/
def alignedHole : List Action :=
  [.alloc 3 true, .alloc 5000 false, .free 0xc0081000]

lemma wrapped_sizes_served :
    (((safeExec smallHole).map fun s => (List.range 23).all fun k =>
      (heapAlloc allocFuel (wordSize - 23 + k) false s.heap).any fun r =>
        r.2.endAddress == 0xc0090000) = some true) ∧
    ((safeExec alignedHole).map fun s => (List.range 20).all fun k =>
      (heapAlloc allocFuel (wordSize - 20 + k) true s.heap).any fun r =>
        r.2.endAddress == 0xc0090000) = some true := by
  decide +kernel

lemma not_serves {h h' : Heap} {p : Nat} (result : heapAlloc allocFuel n pageAlign h = some (p, h'))
    (less : h'.endAddress < n) : ¬ Serves n pageAlign h := by
  rintro ⟨_, same, usable⟩
  obtain ⟨header, -, -, -, inside, stop⟩ := usable p h' ((same _ le_rfl).symm.trans result)
  omega

/-- If the size wraps, there is a heap in which the block is too small. -/
lemma exists_not_serves (hn : n < wordSize) (wraps : wordSize ≤ n + overhead pageAlign) :
    ∃ s as, Sound s as ∧ ¬ Serves n pageAlign s.heap := by
  obtain ⟨small, aligned⟩ := wrapped_sizes_served
  have reached {acts : List Action} {s : HeapState} (hs : safeExec acts = some s) :
      ∃ as, Sound s as := by
    obtain ⟨h, hc, run⟩ := run_of_safeExec hs
    exact Sound.run hc run
  have fails {s : HeapState} (ok : (heapAlloc allocFuel n pageAlign s.heap).any fun r =>
      r.2.endAddress == 0xc0090000) : ¬ Serves n pageAlign s.heap := by
    obtain ⟨⟨p, h'⟩, result, stop⟩ := (any_eq_true _ _).mp ok
    refine not_serves result ?_
    have : h'.endAddress = 0xc0090000 := by simpa using stop
    have most : overhead pageAlign ≤ 23 := by cases pageAlign <;> decide
    simp only [wordSize] at wraps
    omega
  cases pageAlign with
  | false =>
    obtain ⟨s, hs, all⟩ := map_eq_some_iff.mp small
    obtain ⟨as, sound⟩ := reached hs
    have near : wordSize - 23 + (n - (wordSize - 23)) = n := by
      simp only [overhead, headerSize, footerSize, wordSize, Bool.false_eq_true, if_false] at *
      omega
    have each := all_eq_true.mp all (n - (wordSize - 23)) (by simp only [mem_range]; omega)
    rw [near] at each
    exact ⟨s, as, sound, fails each⟩
  | true =>
    obtain ⟨s, hs, all⟩ := map_eq_some_iff.mp aligned
    obtain ⟨as, sound⟩ := reached hs
    have near : wordSize - 20 + (n - (wordSize - 20)) = n := by
      simp only [overhead, headerSize, footerSize, wordSize, if_true] at *
      omega
    have each := all_eq_true.mp all (n - (wordSize - 20)) (by simp only [mem_range]; omega)
    rw [near] at each
    exact ⟨s, as, sound, fails each⟩

/-- A size is served rightly by every heap exactly if the records do not make it wrap. -/
theorem size_served_iff (n : Nat) (pageAlign : Bool) (hn : n < wordSize) :
    (∀ s as, Sound s as → Serves n pageAlign s.heap) ↔ n + overhead pageAlign < wordSize := by
  constructor
  · intro all
    by_contra wraps
    obtain ⟨s, as, sound, fails⟩ := exists_not_serves hn (Nat.le_of_not_lt wraps)
    exact fails (all s as sound)
  · intro hw s as sound
    exact sound.serves hw

theorem size_served_hundred : 100 + overhead false < wordSize ∧
    ∀ s as, Sound s as → Serves 100 false s.heap :=
  ⟨by decide, (size_served_iff 100 false (by decide)).mpr (by decide)⟩

/-- A request for four gigabytes less one byte gives a block of two bytes. -/
theorem wrapped_size_small :
    ((kheapCreate fun _ => 0).bind fun h => (heapAlloc allocFuel 0xffffffff false h).map fun r =>
      (r.1, r.2.usedIndex.items, sizeOf r.2.mem 0xc0080000)) =
      some (0xc008000c, [0xc0080000], 22) := by
  decide +kernel

end ExscapeOS.KHeap
