import ExscapeOS.Lib.Transition
import ExscapeOS.Kernel.Heap.AllocCorrect
import ExscapeOS.Kernel.Heap.FreeCorrect

/-!
# Runs of the kernel heap

A client allocates blocks, writes to the blocks it holds, and frees them. `Sound` is the invariant
of such runs: the heap is tiled by areas, and every live block has an area of its own. From it
follow `heap_tiled` for the heap and `blocks_separate` for the blocks.

Both need every release to be safe (`safeFree`): otherwise a client can make the heap take over the
bytes behind its end.
-/
namespace ExscapeOS.KHeap

open Lib Lib.Memory List Option

structure HeapState where
  heap : Heap
  live : List Block

inductive Action where
  | alloc (size : Nat) (pageAlign : Bool)
  | free (ptr : Nat)
  | write (address : Nat) (value : UInt8)

/-- One action of a client; `none` if it panics or is not allowed. Sizes must not wrap when rounded
up, only live blocks are freed, and only bytes of live blocks (or of page tables) are written. -/
def heapStep (s : HeapState) : Action → Option HeapState
  | .alloc size pageAlign => do
    kassert (size + overhead pageAlign < wordSize)
    let (p, h) ← heapAlloc allocFuel size pageAlign s.heap
    return ⟨h, ⟨p, size, pageAlign⟩ :: s.live⟩
  | .free ptr => do
    kassert (ptr ∈ s.live.map Block.ptr)
    let h ← heapFree ptr s.heap
    return ⟨h, s.live.filter (·.ptr != ptr)⟩
  | .write address value => do
    kassert (∃ b ∈ s.live ++ tableBlocks s.heap, b.ptr ≤ address ∧ address < b.ptr + b.size)
    return { s with heap := { s.heap with mem := s.heap.mem.write8 address value } }

/-- The condition on the actions of a run: every release is safe. -/
def safeStep (s : HeapState) : Action → Bool
  | .free ptr => safeFree s.heap ptr
  | _ => true

abbrev HeapRun : HeapState → List Action → HeapState → Prop :=
  Run fun s a t => heapStep s a = some t

abbrev SafeRun : HeapState → List Action → HeapState → Prop :=
  Run (Guarded (fun s a => safeStep s a = true) fun s a t => heapStep s a = some t)

/-! ## The invariant of runs -/

/-- The areas of the heap, with a place for every live block and page table. -/
structure Sound (s : HeapState) (as : List Area) : Prop where
  inv : Inv s.heap as
  holds : Holds as (s.live ++ tableBlocks s.heap)

variable {m : Memory}

lemma kheapCreate_sound {h : Heap} (hc : kheapCreate m = some h) :
    Sound ⟨h, []⟩ [⟨0xc0080000, 0x10000, true⟩] := by
  have hstart : add32 kheapStart (heapIndexSize * 4 * 2) = 0xc0080000 := by decide
  have hsize : sub32 kheapInitialSize (heapIndexSize * 4 * 2) = 0x10000 := by decide
  have haligned : isPageAligned 0xc0080000 = true := by decide
  have hstop : add32 0xc0080000 0x10000 = 0xc0090000 := by decide
  simp only [kheapCreate, heapCreate, hstart, hsize, haligned, hstop, if_true, bind_eq_bind,
    Option.bind_eq_some_iff, kassert_eq_some, exists_const, Option.pure_def,
    Option.some.injEq] at hc
  obtain ⟨-, -, index, hindex, rfl⟩ := hc
  refine ⟨⟨⟨?_, ?_, ?_, ?_, ?_⟩, ⟨rfl, rfl⟩, fun a ha => ?_, ?_, .refl _, .singleton _,
    ⟨_, rfl, rfl⟩⟩, ⟨.nil, by simp [tableBlocks]⟩⟩
  iterate 5 dsimp only; decide
  · obtain rfl := mem_singleton.mp ha
    exact intact_writeArea true (by decide) (by decide)
  · exact OrderedArray.items_insert hindex

variable {s t : HeapState} {as : List Area}

lemma Sound.write (sound : Sound s as) {address : Nat} {value : UInt8}
    (hc : heapStep s (.write address value) = some t) : Sound t as := by
  simp only [heapStep, bind_eq_bind, Option.bind_eq_some_iff, kassert_eq_some, exists_const,
    Option.pure_def, Option.some.injEq] at hc
  obtain ⟨⟨b, hb, hlo, hhi⟩, rfl⟩ := hc
  obtain ⟨a, ha, f⟩ := sound.holds.fits b hb
  obtain ⟨l, r, rfl⟩ := append_of_mem ha
  have hw := sound.inv.stop_lt ha
  have off : AgreeOff s.heap.mem (s.heap.mem.write8 address value) (a.start + headerSize)
      (a.stop - footerSize) :=
    AgreeOff.write8 _ ((f.bounds (sound.inv.intact a ha) hw).1.trans hlo) (hhi.trans_le f.le)
  exact ⟨(sound.inv.setData off).1, sound.holds⟩

lemma Sound.alloc (sound : Sound s as) {size : Nat} {pageAlign : Bool}
    (hc : heapStep s (.alloc size pageAlign) = some t) :
    ∃ as', Sound t as' ∧ ∀ b ∈ s.live, b ∈ t.live ∧
      AgreeOn s.heap.mem t.heap.mem b.ptr (b.ptr + b.size) := by
  simp only [heapStep, bind_eq_bind, Option.bind_eq_some_iff, kassert_eq_some, exists_const,
    Option.pure_def, Option.some.injEq] at hc
  obtain ⟨hw, ⟨p, h⟩, halloc, rfl⟩ := hc
  obtain ⟨as', inv, kept, holds⟩ := heapAlloc_spec sound.inv sound.holds hw halloc
  refine ⟨as', ⟨inv, holds⟩, fun b hb => ⟨mem_cons_of_mem _ hb, ?_⟩⟩
  exact sound.holds.agree (fun a ha => ⟨sound.inv.intact a ha, sound.inv.stop_lt ha⟩) kept
    (mem_append_left _ hb)

lemma Holds.remove {l r : List Area} {u : Area} {bs : List Block} {b : Block}
    (hold : Holds (l ++ u :: r) bs) (fb : Fits b u) :
    Holds (l ++ r) (bs.filter (·.ptr != b.ptr)) := by
  refine ⟨hold.nodup.sublist (filter_sublist.map _), fun c hc => ?_⟩
  obtain ⟨hc, hne⟩ := mem_filter.mp hc
  obtain ⟨a, ha, f⟩ := hold.fits c hc
  have hau : a ≠ u := by
    rintro rfl
    simp [f.ptr, fb.ptr] at hne
  exact ⟨a, by simpa [hau] using ha, f⟩

lemma Sound.free (sound : Sound s as) {ptr : Nat} (safe : safeFree s.heap ptr = true)
    (hc : heapStep s (.free ptr) = some t) :
    ∃ as', Sound t as' ∧ Shrinks s.heap t.heap ∧ ∀ b ∈ s.live, b.ptr ≠ ptr → b ∈ t.live ∧
      AgreeOn s.heap.mem t.heap.mem b.ptr (b.ptr + b.size) := by
  simp only [heapStep, bind_eq_bind, bind_eq_some_iff, kassert_eq_some, exists_const,
    Option.pure_def, Option.some.injEq] at hc
  obtain ⟨hlive, h, hfree, rfl⟩ := hc
  obtain ⟨b, hb, rfl⟩ := mem_map.mp hlive
  obtain ⟨u, hu, f⟩ := sound.holds.fits b (mem_append_left _ hb)
  obtain ⟨l, r, rfl⟩ := append_of_mem hu
  obtain ⟨as', inv, kept, shrinks⟩ := heapFree_spec sound.inv f safe hfree
  have rest := sound.holds.remove f
  -- page tables are never freed, so none of them is at the address of a client's block
  have htab : (tableBlocks s.heap).filter (·.ptr != b.ptr) = tableBlocks s.heap := by
    refine filter_eq_self.mpr fun c hc => ?_
    have hdisj := (nodup_append.mp (map_append ▸ sound.holds.nodup)).2.2
    exact bne_iff_ne.mpr
      (hdisj _ (mem_map_of_mem hb) _ (mem_map_of_mem hc)).symm
  rw [filter_append, htab] at rest
  refine ⟨as', ⟨inv, ?_⟩, shrinks, fun c hc hne => ?_⟩
  · simpa [tableBlocks, shrinks.tables] using rest.kept kept
  · have hc' : c ∈ s.live.filter (·.ptr != b.ptr) :=
      mem_filter.mpr ⟨hc, bne_iff_ne.mpr hne⟩
    refine ⟨hc', rest.agree (fun a ha => ?_) kept (mem_append_left _ hc')⟩
    have ha' := append_subset_around l r u ha
    exact ⟨sound.inv.intact a ha', sound.inv.stop_lt ha'⟩

/-- The invariant holds along every run whose releases are safe. -/
lemma Sound.run {h : Heap} {acts : List Action} (hc : kheapCreate m = some h)
    (run : SafeRun ⟨h, []⟩ acts s) : ∃ as, Sound s as := by
  refine run.invariant (P := fun s => ∃ as, Sound s as) ⟨_, kheapCreate_sound hc⟩ ?_
  rintro s (⟨size, pageAlign⟩ | ptr | ⟨address, value⟩) t ⟨as, sound⟩ ⟨safe, hstep⟩
  · obtain ⟨as', sound', -⟩ := sound.alloc hstep
    exact ⟨as', sound'⟩
  · obtain ⟨as', sound', -⟩ := sound.free safe hstep
    exact ⟨as', sound'⟩
  · exact ⟨as, sound.write hstep⟩

/-! ## The heap as a walk over headers -/

/-- The sizes in the headers lead from `start` through `headers` to `stop`. -/
def Walk (m : Memory) : Nat → List Nat → Nat → Prop
  | start, [], stop => start = stop
  | start, x :: xs, stop => x = start ∧ 0 < sizeOf m x ∧ Walk m (x + sizeOf m x) xs stop

lemma Walk.le {xs : List Nat} {start stop : Nat} (w : Walk m start xs stop) :
    start ≤ stop := by
  induction xs generalizing start with
  | nil => exact Nat.le_of_eq w
  | cons x xs ih =>
    obtain ⟨rfl, -, w⟩ := w
    exact (Nat.le_add_right _ _).trans (ih w)

/-- The heap as the debugging code sees it: one finds `headers` by following the sizes. -/
structure Tiled (h : Heap) (headers : List Nat) : Prop where
  walk : Walk h.mem h.startAddress headers h.endAddress
  typed : ∀ x ∈ headers, typeOf h.mem x = areaFree ∨ typeOf h.mem x = areaUsed
  headerMagic : ∀ x ∈ headers, magicOf h.mem x = heapMagic
  footerMagic : ∀ x ∈ headers, footerMagic h.mem (footerFromHeader h.mem x) = heapMagic
  backPointer : ∀ x ∈ headers, footerHeader h.mem (footerFromHeader h.mem x) = x
  freeOnce : ∀ x ∈ headers, typeOf h.mem x = areaFree →
    h.freeIndex.items.count x = 1 ∧ x ∉ h.usedIndex.items
  usedOnce : ∀ x ∈ headers, typeOf h.mem x = areaUsed →
    h.usedIndex.items.count x = 1 ∧ x ∉ h.freeIndex.items
  apart : headers.IsChain fun x y => ¬ (typeOf h.mem x = areaFree ∧ typeOf h.mem y = areaFree)
  rightmost : headers.getLast? = some h.rightmostArea

lemma walk_of_tiles {lo hi : Nat} (tiles : Tiles lo as hi)
    (intact : ∀ a ∈ as, Intact m a) : Walk m lo (as.map Seg.start) hi := by
  induction as generalizing lo with
  | nil => exact tiles
  | cons a as ih =>
    obtain ⟨rfl, tiles⟩ := tiles
    have ia := intact a mem_cons_self
    refine ⟨rfl, ia.size ▸ ia.pos, ?_⟩
    rw [ia.size]
    exact ih tiles fun b hb => intact b (mem_cons_of_mem _ hb)

section index

variable {h : Heap} {a : Area}

/-- An area is listed once in the index of its kind, and not in the other. -/
lemma Inv.once (inv : Inv h as) (ha : a ∈ as) {p q : Area → Bool} {own other : List Nat}
    (hown : own.Perm ((as.filter p).map Seg.start))
    (hother : other.Perm ((as.filter q).map Seg.start))
    (hp : p a = true) (hq : q a = false) : own.count a.start = 1 ∧ a.start ∉ other := by
  have pos : ∀ b ∈ as, 0 < b.size := fun b hb => (inv.intact b hb).pos
  have nodup : ((as.filter p).map Seg.start).Nodup :=
    (inv.tiles.starts_nodup pos).sublist (filter_sublist.map _)
  rw [hown.count_eq, hother.mem_iff]
  refine ⟨count_eq_one_of_mem nodup (mem_map_of_mem (mem_filter.mpr ⟨ha, hp⟩)), fun hx => ?_⟩
  obtain ⟨b, hb, heq⟩ := mem_map.mp hx
  obtain ⟨hb, hqb⟩ := mem_filter.mp hb
  obtain rfl := inv.tiles.eq_of_start pos hb ha heq
  simp [hq] at hqb

lemma Inv.tiled (inv : Inv h as) : Tiled h (as.map Seg.start) := by
  have each {P : Nat → Prop} (hp : ∀ a ∈ as, P a.start) : ∀ x ∈ as.map Seg.start, P x := by
    intro x hx
    obtain ⟨a, ha, rfl⟩ := mem_map.mp hx
    exact hp a ha
  have foot (a : Area) (ha : a ∈ as) := (inv.intact a ha).footerFromHeader_eq (inv.stop_lt ha)
  have type (a : Area) (ha : a ∈ as) := (inv.intact a ha).type
  refine ⟨walk_of_tiles inv.tiles inv.intact, each fun a ha => ?_,
    each fun a ha => (inv.intact a ha).magic, each fun a ha => ?_, each fun a ha => ?_,
    each fun a ha ht => ?_, each fun a ha ht => ?_, ?_, ?_⟩
  · rw [type a ha]
    cases a.tag <;> simp
  · rw [foot a ha]
    exact (inv.intact a ha).footMagic
  · rw [foot a ha]
    exact (inv.intact a ha).footHeader
  · rw [type a ha, typeByte_eq_free] at ht
    exact inv.once ha inv.free inv.used ht (by simp [ht])
  · rw [type a ha, typeByte_eq_used] at ht
    exact inv.once ha inv.used inv.free (by simp [ht]) ht
  · rw [isChain_map]
    refine inv.apart.imp_of_mem_imp fun a b ha hb hab => ?_
    rw [type a ha, type b hb, typeByte_eq_free, typeByte_eq_free]
    exact hab
  · obtain ⟨a, ha, hx⟩ := inv.rightmost
    rw [getLast?_map, ha, hx]
    rfl

end index

/-! ## Every reachable heap is tiled -/

/-- Every run whose releases are safe leaves a heap tiled by intact areas, each in exactly one
index, with no two free neighbours and the last one known. -/
theorem heap_tiled {m : Memory} {h : Heap} {acts : List Action} (hc : kheapCreate m = some h)
    (run : SafeRun ⟨h, []⟩ acts s) : ∃ headers, Tiled s.heap headers := by
  obtain ⟨as, sound⟩ := Sound.run hc run
  exact ⟨_, sound.inv.tiled⟩

/-- A run with a split, a page-aligned block and a merge. -/
def sampleRun : List Action :=
  [.alloc 100 false, .write 0xc008000c 7, .alloc 5000 true, .free 0xc008000c]

/-- Execution that checks every action before it is taken. -/
def safeExec (acts : List Action) : Option HeapState :=
  (kheapCreate fun _ => 0).bind fun h =>
    exec (fun s a => if safeStep s a then heapStep s a else none) ⟨h, []⟩ acts

lemma run_of_safeExec {acts : List Action} (hs : safeExec acts = some s) :
    ∃ h, kheapCreate (fun _ => 0) = some h ∧ SafeRun ⟨h, []⟩ acts s := by
  obtain ⟨h, hc, he⟩ := bind_eq_some_iff.mp hs
  exact ⟨h, hc, Run.of_exec_guarded he⟩

lemma safeExec_run (acts : List Action) (hs : (safeExec acts).isSome = true) :
    ∃ h s, kheapCreate (fun _ => 0) = some h ∧ SafeRun ⟨h, []⟩ acts s := by
  obtain ⟨s, hs⟩ := isSome_iff_exists.mp hs
  obtain ⟨h, hc, run⟩ := run_of_safeExec hs
  exact ⟨h, s, hc, run⟩

theorem heap_tiled_sample : ∃ h s, kheapCreate (fun _ => 0) = some h ∧
    SafeRun ⟨h, []⟩ sampleRun s ∧ ∃ headers, Tiled s.heap headers := by
  obtain ⟨h, s, hc, run⟩ := safeExec_run sampleRun (by decide +kernel)
  exact ⟨h, s, hc, run, heap_tiled hc run⟩

/-- Client writes of consecutive bytes. -/
def writes (address : Nat) : List UInt8 → List Action
  | [] => []
  | v :: vs => .write address v :: writes (address + 1) vs

def word (v : Nat) : List UInt8 := [byteOf v 0, byteOf v 1, byteOf v 2, byteOf v 3]

/-- A fake free area of 24 bytes is written into a large block at `0xc0180000`, and the block is
freed. The heap contracts to end exactly there. A second block fills the heap, and when it is freed,
the fake area is taken for its right neighbour. -/
def fakeAreaRun : List Action :=
  [.alloc 0x200000 false] ++
  writes 0xc0180000 (word 24 ++ [areaFree, 0, 0, 0] ++ word heapMagic) ++
  writes 0xc0180010 (word heapMagic ++ word 0xc0180000) ++
  [.free 0xc008000c, .alloc 0xfffe9 false, .free 0xc008000c]

lemma fakeAreaRun_spec : ∃ h s, kheapCreate (fun _ => 0) = some h ∧
    HeapRun ⟨h, []⟩ fakeAreaRun s ∧ s.heap.startAddress = 0xc0080000 ∧
    s.heap.endAddress = 0xc0180000 ∧ sizeOf s.heap.mem 0xc0080000 = 0x100018 :=
  Run.exists_of_init (by decide +kernel)

/-- The heap can end in the middle of its last area. -/
theorem heap_not_tiled : ∃ h acts s, kheapCreate (fun _ => 0) = some h ∧
    HeapRun ⟨h, []⟩ acts s ∧ ¬ ∃ headers, Tiled s.heap headers := by
  obtain ⟨h, s, hc, run, hstart, hstop, hsize⟩ := fakeAreaRun_spec
  refine ⟨h, fakeAreaRun, s, hc, run, ?_⟩
  rintro ⟨headers, tiled⟩
  have walk := tiled.walk
  rw [hstart, hstop] at walk
  cases headers with
  | nil => simp [Walk] at walk
  | cons x xs =>
    obtain ⟨rfl, -, walk⟩ := walk
    have hle := walk.le
    rw [hsize] at hle
    exact absurd hle (by decide)

/-! ## Live blocks do not interfere -/

/-- The block `b` does not overlap the header and footer of the area at `x`. -/
def ClearOf (m : Memory) (b : Block) (x : Nat) : Prop :=
  (b.ptr + b.size ≤ x ∨ x + headerSize ≤ b.ptr) ∧
    (b.ptr + b.size ≤ x + sizeOf m x - footerSize ∨ x + sizeOf m x ≤ b.ptr)

/-- What a client may rely on about a live block. -/
structure Placed (s : HeapState) (b : Block) : Prop where
  dword : b.ptr % 4 = 0
  page : b.pageAlign = true → b.ptr % 4096 = 0
  inside : s.heap.startAddress ≤ b.ptr ∧ b.ptr + b.size ≤ s.heap.endAddress
  apart : ∀ c ∈ s.live ++ tableBlocks s.heap, c ≠ b →
    b.ptr + b.size ≤ c.ptr ∨ c.ptr + c.size ≤ b.ptr
  clear : ∀ headers, Walk s.heap.mem s.heap.startAddress headers s.heap.endAddress →
    ∀ x ∈ headers, ClearOf s.heap.mem b x

lemma Walk.unique {xs ys : List Nat} {start stop : Nat} (w : Walk m start xs stop)
    (w' : Walk m start ys stop) : xs = ys := by
  induction xs generalizing start ys with
  | nil =>
    cases ys with
    | nil => rfl
    | cons y ys =>
      obtain ⟨rfl, hpos, w'⟩ := w'
      obtain rfl : y = stop := w
      have := w'.le
      omega
  | cons x xs ih =>
    obtain ⟨rfl, hpos, w⟩ := w
    cases ys with
    | nil =>
      obtain rfl : x = stop := w'
      have := w.le
      omega
    | cons y ys =>
      obtain ⟨rfl, -, w'⟩ := w'
      rw [ih w w']

lemma Fits.apart {b c : Block} {h : Heap} {a a' : Area} (inv : Inv h as) (ha : a ∈ as)
    (ha' : a' ∈ as) (fb : Fits b a) (fc : Fits c a') (hne : c.ptr ≠ b.ptr) :
    b.ptr + b.size ≤ c.ptr ∨ c.ptr + c.size ≤ b.ptr := by
  have hb := (fb.bounds (inv.intact a ha) (inv.stop_lt ha)).1
  have hc := (fc.bounds (inv.intact a' ha') (inv.stop_lt ha')).1
  have hb' := fb.le
  have hc' := fc.le
  rcases inv.tiles.eq_or_apart ha ha' with rfl | h | h
  · exact absurd (fc.ptr.trans fb.ptr.symm) hne
  · left
    omega
  · right
    omega

lemma Fits.clearOf {b : Block} {h : Heap} {a a' : Area} (inv : Inv h as) (ha : a ∈ as)
    (ha' : a' ∈ as) (fb : Fits b a) : ClearOf h.mem b a'.start := by
  have hb := (fb.bounds (inv.intact a ha) (inv.stop_lt ha)).1
  have hb' := fb.le
  have hbig := (inv.intact a ha).big
  have hbig' := (inv.intact a' ha').big
  have hs : a.stop = a.start + a.size := rfl
  have hs' : a'.stop = a'.start + a'.size := rfl
  rw [ClearOf, (inv.intact a' ha').size]
  rcases inv.tiles.eq_or_apart ha ha' with rfl | h | h
  · exact ⟨.inr hb, .inl hb'⟩
  · exact ⟨.inl (by omega), .inl (by omega)⟩
  · exact ⟨.inr (by omega), .inr (by omega)⟩

lemma Sound.placed (sound : Sound s as) {b : Block} (hb : b ∈ s.live) : Placed s b := by
  have hb' := mem_append_left (tableBlocks s.heap) hb
  obtain ⟨a, ha, f⟩ := sound.holds.fits b hb'
  have inv := sound.inv
  obtain ⟨hlo, hmod⟩ := f.bounds (inv.intact a ha) (inv.stop_lt ha)
  obtain ⟨hstart, hstop⟩ := inv.tiles.bounds ha
  have hle := f.le
  refine ⟨hmod, f.aligned, ⟨by omega, by omega⟩, fun c hc hne => ?_, fun headers walk x hx => ?_⟩
  · obtain ⟨a', ha', f'⟩ := sound.holds.fits c hc
    refine f.apart inv ha ha' f' fun hptr => hne ?_
    exact inj_on_of_nodup_map sound.holds.nodup hc hb' hptr
  · obtain rfl := walk.unique inv.tiled.walk
    obtain ⟨a', ha', rfl⟩ := mem_map.mp hx
    exact f.clearOf inv ha ha'

/-- In every run whose releases are safe, live blocks are aligned, lie in the heap and apart from
each other and from the heap's own records, and an allocation or the release of another block leaves
their contents alone. -/
theorem blocks_separate {m : Memory} {h : Heap} {acts : List Action} (hc : kheapCreate m = some h)
    (run : SafeRun ⟨h, []⟩ acts s) :
    (∀ b ∈ s.live, Placed s b) ∧
      ∀ a t, safeStep s a = true → heapStep s a = some t →
        (∀ address value, a ≠ .write address value) → ∀ b ∈ s.live, a ≠ .free b.ptr →
          b ∈ t.live ∧ AgreeOn s.heap.mem t.heap.mem b.ptr (b.ptr + b.size) := by
  obtain ⟨as, sound⟩ := Sound.run hc run
  refine ⟨fun b hb => sound.placed hb, ?_⟩
  rintro (⟨size, pageAlign⟩ | ptr | ⟨address, value⟩) t safe hstep hwrite b hb hfree
  · obtain ⟨-, -, kept⟩ := sound.alloc hstep
    exact kept b hb
  · obtain ⟨-, -, -, kept⟩ := sound.free safe hstep
    exact kept b hb fun heq => hfree (heq ▸ rfl)
  · exact absurd rfl (hwrite address value)

theorem blocks_separate_sample : ∃ h s, kheapCreate (fun _ => 0) = some h ∧
    SafeRun ⟨h, []⟩ sampleRun s ∧ ∀ b ∈ s.live, Placed s b := by
  obtain ⟨h, s, hc, run⟩ := safeExec_run sampleRun (by decide +kernel)
  exact ⟨h, s, hc, run, (blocks_separate hc run).1⟩

/-- A live block of 64 bytes holds what looks like the footer of an area at `0xc0181000`. A large
block behind it is filled with a matching header there, and is freed. The heap contracts to end at
the fake header, and a second block fills it up to there. -/
def fakeFooterRun : List Action :=
  [.alloc 64 false] ++ writes 0xc008000c (word heapMagic ++ word 0xc0181000) ++
  [.alloc 0x200000 false] ++
  writes 0xc0181000 (word (sub32 0xc0080014 0xc0181000) ++ [areaFree, 0, 0, 0] ++ word heapMagic) ++
  [.free 0xc0080064, .alloc 0x100f92 false]

/-- The release of one block can change the contents of another. -/
theorem blocks_not_separate : ∃ h acts s t b p, kheapCreate (fun _ => 0) = some h ∧
    HeapRun ⟨h, []⟩ acts s ∧ b ∈ s.live ∧ b.ptr ≠ p ∧ heapStep s (.free p) = some t ∧
    ¬ AgreeOn s.heap.mem t.heap.mem b.ptr (b.ptr + b.size) := by
  obtain ⟨h, hc, s, hs, hlive, t, ht, hbefore, hafter⟩ : ∃ h ∈ kheapCreate fun _ => 0,
      ∃ s ∈ exec heapStep ⟨h, []⟩ fakeFooterRun, ⟨0xc008000c, 64, false⟩ ∈ s.live ∧
      ∃ t ∈ heapStep s (.free 0xc0080064),
        s.heap.mem 0xc0080010 = 0x00 ∧ t.heap.mem 0xc0080010 = 0x57 := by decide +kernel
  refine ⟨h, fakeFooterRun, s, t, ⟨0xc008000c, 64, false⟩, 0xc0080064, hc, Run.of_exec hs, hlive,
    by decide, ht, fun agree => ?_⟩
  have := agree 0xc0080010 (by decide) (by decide)
  rw [hbefore, hafter] at this
  exact absurd this (by decide)

end ExscapeOS.KHeap
