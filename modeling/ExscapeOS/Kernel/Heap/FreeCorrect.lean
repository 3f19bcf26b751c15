import ExscapeOS.Kernel.Heap.Hole

/-!
# Correctness of release

`heapFree` turns a used area into a free one and merges it with its neighbours. On the right it
trusts the bytes behind the area, and for the last area these lie outside the heap. So everything is
proved under the condition that they do not look like the header of a free area (`staleHeader`).
-/
namespace ExscapeOS.KHeap

open Lib Lib.Memory List Option

variable {h h' : Heap} {as l r : List Area} {a b u : Area} {m m' : Memory}

/-- The bytes at the end of the heap look like the header of a free area. -/
def staleHeader (h : Heap) : Bool :=
  magicOf h.mem h.endAddress == heapMagic && typeOf h.mem h.endAddress == areaFree

lemma staleHeader_congr (hstop : h'.endAddress = h.endAddress)
    (on : AgreeOn h.mem h'.mem h.endAddress (h.endAddress + headerSize)) :
    staleHeader h' = staleHeader h := by
  simp only [headerSize] at on
  have hmagic : magicOf h'.mem h.endAddress = magicOf h.mem h.endAddress :=
    on.read32 (by omega) (by omega)
  have htype : typeOf h'.mem h.endAddress = typeOf h.mem h.endAddress :=
    on _ (by omega) (by omega)
  rw [staleHeader, staleHeader, hstop, hmagic, htype]

/-! ## Merging two areas -/

/-- `m'` is `m` with the free areas `a` and `b` merged. -/
structure Merged (m m' : Memory) (a b : Area) : Prop where
  size : sizeOf m' a.start = a.size + b.size
  type : typeOf m' a.start = areaFree
  magic : magicOf m' a.start = heapMagic
  footMagic : footerMagic m' (b.stop - footerSize) = heapMagic
  footHeader : footerHeader m' (b.stop - footerSize) = a.start
  off : AgreeOff m m' a.start b.stop

lemma Merged.intact (hm : Merged m m' a b) (ia : Intact m a) (hab : a.stop = b.start) :
    Intact m' ⟨a.start, a.size + b.size, true⟩ := by
  have hb := ia.big
  have hstop : (⟨a.start, a.size + b.size, true⟩ : Area).stop = b.stop := by
    simp only [Seg.stop] at *
    omega
  exact ⟨by simp only; omega, hm.size, hm.type, hm.magic, hstop ▸ hm.footMagic,
    hstop ▸ hm.footHeader⟩

section merge

variable (ia : Intact m a) (ib : Intact m b) (hab : a.stop = b.start) (hw : b.stop < wordSize)

include ia ib hab hw

lemma merged_left (ha : a.tag = true) : Merged m
    (setFooterMagic (setMagic (setFooterHeader (setSize m a.start (a.size + b.size))
      (b.stop - footerSize) a.start) b.start 0) (a.stop - footerSize) 0) a b := by
  have hba := ia.big
  have hbb := ib.big
  have hsa : a.stop = a.start + a.size := rfl
  have hsb : b.stop = b.start + b.size := rfl
  have hia := ia.type
  have hma := ia.magic
  have hfb := ib.footMagic
  rw [ha, typeByte_true] at hia
  simp only [headerSize, footerSize, typeOf, magicOf, footerMagic] at hba hbb hia hma hfb
  constructor
  all_goals simp only [sizeOf, typeOf, magicOf, footerMagic, footerHeader, setFooterMagic, setMagic,
    setFooterHeader, setSize, footerSize]
  · simp (disch := omega) only [read32_write32_of_disjoint, read32_write32_same]
  · simp (disch := omega) only [write32_of_not_mem, hia]
  · simp (disch := omega) only [read32_write32_of_disjoint, hma]
  · simp (disch := omega) only [read32_write32_of_disjoint, hfb]
  · simp (disch := omega) only [read32_write32_of_disjoint, read32_write32_same]
  · intro x hx
    simp (disch := omega) only [write32_of_not_mem]

lemma merged_right : Merged m
    (setType (setFooterHeader (setMagic (setFooterMagic (setSize m a.start (a.size + b.size))
      (a.stop - footerSize) 0) b.start 0) (b.stop - footerSize) a.start) a.start areaFree) a b := by
  have hba := ia.big
  have hbb := ib.big
  have hsa : a.stop = a.start + a.size := rfl
  have hsb : b.stop = b.start + b.size := rfl
  have hma := ia.magic
  have hfb := ib.footMagic
  simp only [headerSize, footerSize, magicOf, footerMagic] at hba hbb hma hfb
  constructor
  all_goals simp only [sizeOf, typeOf, magicOf, footerMagic, footerHeader, setFooterMagic, setMagic,
    setFooterHeader, setSize, setType, footerSize]
  · simp (disch := omega) only [read32_write8_of_disjoint, read32_write32_of_disjoint,
      read32_write32_same]
  · exact write8_same ..
  · simp (disch := omega) only [read32_write8_of_disjoint, read32_write32_of_disjoint, hma]
  · simp (disch := omega) only [read32_write8_of_disjoint, read32_write32_of_disjoint, hfb]
  · simp (disch := omega) only [read32_write8_of_disjoint, read32_write32_same]
  · intro x hx
    simp (disch := omega) only [write8_of_ne, write32_of_not_mem]

end merge

/-! ## The stages of `heap_free` -/

/-- The heap while `u` is being freed: it is marked as free, and in the free index exactly if it has
been merged with an area that was there. -/
structure Freeing (s : FreeState) (l : List Area) (u : Area) (r : List Area) : Prop where
  range : Range s.heap
  tiles : Tiles s.heap.startAddress (l ++ u :: r) s.heap.endAddress
  intact : ∀ a ∈ l ++ u :: r, Intact s.heap.mem a
  isFree : u.tag = true
  header : s.header = u.start
  footer : s.footer = u.stop - footerSize
  free : s.heap.freeIndex.items.Perm
    (if s.addToIndex then freeStarts (l ++ r) else freeStarts (l ++ u :: r))
  used : s.heap.usedIndex.items.Perm (usedStarts (l ++ r))
  apartLeft : l.IsChain Apart
  apartRight : r.IsChain Apart
  rightmost : IsLast s.heap.rightmostArea (l ++ u :: r)

namespace Freeing

variable {s s' : FreeState}

lemma stop_lt (f : Freeing s l u r) : u.stop < wordSize :=
  (f.tiles.bounds (by simp)).2.trans_lt f.range.lt

end Freeing

lemma Intact.setType (iu : Intact m u) :
    Intact (setType m u.start areaFree) ⟨u.start, u.size, true⟩ := by
  have hb := iu.big
  simp only [headerSize, footerSize] at hb
  refine ⟨iu.big, (read32_write8_of_disjoint ?_).trans iu.size, write8_same ..,
    (read32_write8_of_disjoint ?_).trans iu.magic,
      (read32_write8_of_disjoint ?_).trans iu.footMagic,
    (read32_write8_of_disjoint ?_).trans iu.footHeader⟩
  all_goals
    simp only [Seg.stop, footerSize]
    omega

lemma freeing_start (inv : Inv h (l ++ u :: r)) (hu : u.tag = false) :
    Freeing ⟨u.start, u.stop - footerSize, true,
        { h.removeUsed u.start with mem := setType h.mem u.start areaFree }⟩
      l ⟨u.start, u.size, true⟩ r ∧
    Kept h.mem (l ++ r) (setType h.mem u.start areaFree) (l ++ r) := by
  have iu := inv.intact u (by simp)
  have hb := iu.big
  have hs : u.stop = u.start + u.size := rfl
  simp only [headerSize, footerSize] at hb
  have others (b : Area) (hb : b ∈ l ++ r) :
      AgreeOn h.mem (setType h.mem u.start areaFree) b.start b.stop :=
    AgreeOn.write8 _ ((inv.tiles.apart_around hb).symm.imp (by omega) (by omega))
  obtain ⟨hl, hr, -⟩ := isChain_append.mp inv.apart
  refine ⟨⟨⟨inv.range.1, inv.range.2, inv.range.3, inv.range.4, inv.range.5⟩, ?_, ?_, rfl, rfl, rfl,
    ?_, ?_, hl, (isChain_cons.mp hr).2, ?_⟩, .of_agree others⟩
  · obtain ⟨tl, tr⟩ := tiles_around.mp inv.tiles
    exact tiles_around.mpr ⟨tl, tr⟩
  · intro b hb
    rcases mem_append.mp hb with hb | hb
    · exact (inv.intact b (by simp [hb])).of_agree (others b (by simp [hb]))
    · rcases mem_cons.mp hb with rfl | hb
      · exact iu.setType
      · exact (inv.intact b (by simp [hb])).of_agree (others b (by simp [hb]))
  · simpa [hu, Heap.removeUsed] using inv.free
  · have hp := inv.used
    simp only [usedStarts_append, usedStarts_cons, hu, Bool.false_eq_true, if_false] at hp
    simpa [Heap.removeUsed] using perm_middle_erase hp
  · have hx := inv.rightmost
    by_cases hr : r = []
    · subst hr
      rw [isLast_concat] at hx ⊢
      exact hx
    · rw [← singleton_append, ← append_assoc, isLast_append hr] at hx ⊢
      exact hx

lemma isLast_merge {x lo hi : Nat} {c : Area} (ht : Tiles lo (l ++ a :: b :: r) hi)
    (hb : 0 < b.size) (hc : c.start = a.start) (hx : IsLast x (l ++ a :: b :: r)) :
    IsLast (if x = b.start then a.start else x) (l ++ c :: r) := by
  by_cases hr : r = []
  · subst hr
    rw [← singleton_append, ← append_assoc, isLast_concat] at hx
    rw [if_pos hx, isLast_concat]
    exact hc.symm
  · have hr' : b :: r ≠ [] := cons_ne_nil _ _
    rw [isLast_append (cons_ne_nil _ _), ← singleton_append, isLast_append hr',
      ← singleton_append, isLast_append hr] at hx
    obtain ⟨d, hd, hxd⟩ := id hx
    have hbd : b.stop ≤ d.start := by
      obtain ⟨-, -, -, -, tr⟩ := tiles_append.mp ht
      exact (tr.bounds (mem_of_getLast? hd)).1
    simp only [Seg.stop] at hbd
    rw [if_neg (by omega), isLast_append (cons_ne_nil _ _), ← singleton_append,
      isLast_append hr]
    exact hx

lemma merge_areas {lo hi : Nat} (ht : Tiles lo (l ++ a :: b :: r) hi)
    (intact : ∀ d ∈ l ++ a :: b :: r, Intact m d) (hm : Merged m m' a b) :
    Tiles lo (l ++ ⟨a.start, a.size + b.size, true⟩ :: r) hi ∧
      (∀ d ∈ l ++ ⟨a.start, a.size + b.size, true⟩ :: r, Intact m' d) ∧
      Kept m (l ++ r) m' (l ++ r) := by
  obtain ⟨tl, hab, tr⟩ := tiles_around.mp ht
  have hstop : (⟨a.start, a.size + b.size, true⟩ : Area).stop = b.stop := by
    simp only [Seg.stop] at *
    omega
  have tiles : Tiles lo (l ++ ⟨a.start, a.size + b.size, true⟩ :: r) hi :=
    tiles_around.mpr ⟨tl, hstop ▸ tr⟩
  have others (d : Area) (hd : d ∈ l ++ r) : AgreeOn m m' d.start d.stop :=
    hm.off.on (hstop ▸ tiles.apart_around hd)
  refine ⟨tiles, fun d hd => ?_, .of_agree others⟩
  rcases mem_append.mp hd with hd | hd
  · exact (intact d (by simp [hd])).of_agree (others d (by simp [hd]))
  · rcases mem_cons.mp hd with rfl | hd
    · exact hm.intact (intact a (by simp)) hab.symm
    · exact (intact d (by simp [hd])).of_agree (others d (by simp [hd]))

namespace Freeing

variable {s s' : FreeState}

lemma unifyLeft_of_used (f : Freeing s l u r) (last : ∀ b ∈ l.getLast?, b.tag = false) :
    unifyLeft s = some s := by
  obtain ⟨tl, -⟩ := tiles_around.mp f.tiles
  have hw := f.stop_lt
  have hsu : u.stop = u.start + u.size := rfl
  rcases l.eq_nil_or_concat' with rfl | ⟨l', b, rfl⟩
  · -- the footer would lie in front of the heap
    obtain hstart : s.heap.startAddress = u.start := tl
    have hpos := f.range.pos
    have haligned := f.range.aligned
    have hlow : ¬ s.heap.startAddress ≤ sub32 u.start footerSize := by
      simp only [pageSize, footerSize] at *
      rw [sub32_eq (by omega) (by omega)]
      omega
    simp only [unifyLeft, f.header, hlow, false_and, if_false]
  · have ib := f.intact b (by simp)
    have hb := ib.big
    have hsb : b.stop = b.start + b.size := rfl
    obtain ⟨-, hstop⟩ := tiles_around.mp tl
    obtain hstop : b.stop = u.start := hstop
    have hfoot : sub32 u.start footerSize = b.stop - footerSize := by
      rw [← hstop, sub32_eq (by omega) (by omega)]
    have hused : typeOf s.heap.mem b.start ≠ areaFree := by
      rw [ib.type, last b (by simp)]
      decide
    simp only [unifyLeft, f.header, hfoot, ib.footHeader, hused, and_false, if_false, ite_self]

lemma unifyLeft_of_free (f : Freeing s (l ++ [a]) u r) (ha : a.tag = true)
    (hadd : s.addToIndex = true) (hc : unifyLeft s = some s') :
    Freeing s' l ⟨a.start, a.size + u.size, true⟩ r ∧
      Kept s.heap.mem (l ++ r) s'.heap.mem (l ++ r) ∧
      AgreeOff s.heap.mem s'.heap.mem a.start u.stop ∧ SameRange s.heap s'.heap := by
  have tiles' : Tiles s.heap.startAddress (l ++ a :: u :: r) s.heap.endAddress := by
    simpa using f.tiles
  have hstop : a.stop = u.start := (tiles_around.mp tiles').2.1.symm
  have ia := f.intact a (by simp)
  have iu := f.intact u (by simp)
  have hw := f.stop_lt
  have hs : a.stop = a.start + a.size := rfl
  have hsu : u.stop = u.start + u.size := rfl
  have hb := ia.big
  have hle := (f.tiles.bounds (s := a) (by simp)).1
  have hfoot : sub32 u.start footerSize = a.stop - footerSize := by
    rw [← hstop, sub32_eq (by omega) (by omega)]
  have hcond : s.heap.startAddress ≤ a.stop - footerSize := by omega
  have hsum : add32 a.size u.size = a.size + u.size := add32_eq (by omega)
  simp only [unifyLeft, f.header, hfoot, ia.footMagic, ia.footHeader, ia.magic, ia.type, ha,
    typeByte_true, hcond, and_self, if_true, ia.size, iu.size, hsum, f.footer, bind_eq_bind,
    bind_eq_some_iff, kassert_eq_some, exists_const, Option.pure_def,
    Option.some.injEq] at hc
  obtain ⟨-, rfl⟩ := hc
  have hm := merged_left ia iu hstop hw ha
  obtain ⟨tiles, intact, kept⟩ := merge_areas tiles' (by simpa using f.intact) hm
  refine ⟨⟨⟨f.range.1, f.range.2, f.range.3, f.range.4, f.range.5⟩, tiles, intact, rfl, rfl, ?_, ?_,
    ?_, ?_, f.apartRight, ?_⟩, kept, hm.off, .of_eq rfl rfl rfl rfl⟩
  · simp only [Seg.stop] at *
    omega
  · have := f.free
    simpa [hadd, ha] using this
  · simpa [ha] using f.used
  · exact (isChain_append.mp f.apartLeft).1
  · have last := isLast_merge (c := ⟨a.start, a.size + u.size, true⟩) tiles' iu.pos rfl
      (by simpa using f.rightmost)
    simpa [eq_comm] using last

lemma unifyLeft (f : Freeing s l u r) (hadd : s.addToIndex = true)
    (hc : unifyLeft s = some s') :
    ∃ l' u', Freeing s' l' u' r ∧ u'.stop = u.stop ∧ (∀ b ∈ l'.getLast?, b.tag = false) ∧
      Kept s.heap.mem (l ++ r) s'.heap.mem (l' ++ r) ∧
      (∀ hi, AgreeOn s.heap.mem s'.heap.mem u.stop hi) ∧ SameRange s.heap s'.heap := by
  by_cases last : ∀ b ∈ l.getLast?, b.tag = false
  · rw [f.unifyLeft_of_used last] at hc
    cases hc
    exact ⟨l, u, f, rfl, last, .refl _ _, fun _ => .refl _ _ _, .of_eq rfl rfl rfl rfl⟩
  · simp only [not_forall, Bool.not_eq_false] at last
    obtain ⟨a, hlast, ha⟩ := last
    obtain ⟨l', rfl⟩ := getLast?_eq_some_iff.mp hlast
    obtain ⟨f', kept, off, same⟩ := f.unifyLeft_of_free ha hadd hc
    have hstop : a.stop = u.start := by
      have := f.tiles
      rw [append_assoc] at this
      exact (tiles_around.mp this).2.1.symm
    refine ⟨l', _, f', ?_, (isChain_around f.apartLeft ha).2.2.1, by simpa using kept.of_free ha,
      fun hi => off.on (.inr le_rfl), same⟩
    simp only [Seg.stop] at *
    omega

lemma unifyRight_of_used (f : Freeing s l u r) (head : ∀ b ∈ r.head?, b.tag = false)
    (hend : r = [] → staleHeader s.heap = false) : unifyRight s = some s := by
  have hw := f.stop_lt
  have hb := (f.intact u (by simp)).big
  have hsu : u.stop = u.start + u.size := rfl
  have hright : add32 s.footer footerSize = u.stop := by
    rw [f.footer, add32_eq (by omega)]
    omega
  have hlooks : looksFree s.heap.mem u.stop = false := by
    obtain ⟨-, tr⟩ := tiles_around.mp f.tiles
    cases r with
    | nil =>
      have hstop : u.stop = s.heap.endAddress := tr
      have hstale := hend rfl
      rw [staleHeader, ← hstop] at hstale
      simp only [looksFree, hstale, Bool.false_and]
    | cons b r =>
      obtain ⟨hstart, -⟩ := tr
      have hused : typeOf s.heap.mem u.stop ≠ areaFree := by
        rw [← hstart, (f.intact b (by simp)).type, head b (by simp)]
        decide
      simp [looksFree, hused]
  simp only [KHeap.unifyRight, hright, hlooks, Bool.false_eq_true, if_false]

lemma unifyRight_of_free (f : Freeing s l u (b :: r)) (hb : b.tag = true)
    (hc : unifyRight s = some s') :
    Freeing s' l ⟨u.start, u.size + b.size, true⟩ r ∧
      Kept s.heap.mem (l ++ r) s'.heap.mem (l ++ r) ∧ SameRange s.heap s'.heap := by
  have hstop : u.stop = b.start := (tiles_around.mp f.tiles).2.1.symm
  have iu := f.intact u (by simp)
  have ib := f.intact b (by simp)
  have hw : b.stop < wordSize := (f.tiles.bounds (by simp)).2.trans_lt f.range.lt
  have hsu : u.stop = u.start + u.size := rfl
  have hsb : b.stop = b.start + b.size := rfl
  have hbig := iu.big
  have hright : add32 (u.stop - footerSize) footerSize = b.start := by
    rw [add32_eq (by omega)]
    omega
  have hfoot := ib.footerFromHeader_eq hw
  have hlooks : looksFree s.heap.mem b.start = true := by
    simp [looksFree, hfoot, ib.magic, ib.type, hb, ib.footMagic, ib.footHeader]
  have hsum : add32 u.size b.size = u.size + b.size := add32_eq (by omega)
  simp only [KHeap.unifyRight, Heap.removeFree, f.footer, hright, hlooks, if_true, hfoot, f.header,
    iu.size, ib.size, hsum, bind_eq_bind, bind_eq_some_iff, kassert_eq_some,
    exists_const, Option.pure_def, Option.some.injEq] at hc
  obtain ⟨-, rfl⟩ := hc
  have hm := merged_right iu ib hstop hw
  obtain ⟨tiles, intact, kept⟩ := merge_areas f.tiles f.intact hm
  refine ⟨⟨⟨f.range.1, f.range.2, f.range.3, f.range.4, f.range.5⟩, tiles, intact, rfl, rfl, ?_, ?_,
    ?_, f.apartLeft, (isChain_cons.mp f.apartRight).2, ?_⟩, kept, .of_eq rfl rfl rfl rfl⟩
  · simp only [Seg.stop] at *
    omega
  · have hfree := f.free
    simp only [OrderedArray.items_removeItem]
    split_ifs at hfree ⊢
    · simp only [freeStarts_append, freeStarts_cons, hb, if_true] at hfree
      simpa using perm_middle_erase hfree
    · simp only [freeStarts_append, freeStarts_cons, hb, f.isFree, if_true] at hfree
      have := perm_middle_erase (l := freeStarts l ++ [u.start]) (by simpa using hfree)
      simpa using this
  · simpa [hb] using f.used
  · exact isLast_merge f.tiles ib.pos rfl f.rightmost

lemma unifyRight (f : Freeing s l u r) (hend : r = [] → staleHeader s.heap = false)
    (hc : unifyRight s = some s') :
    ∃ u' r', Freeing s' l u' r' ∧ (∀ b ∈ r'.head?, b.tag = false) ∧
      Kept s.heap.mem (l ++ r) s'.heap.mem (l ++ r') ∧ SameRange s.heap s'.heap := by
  by_cases head : ∀ b ∈ r.head?, b.tag = false
  · rw [f.unifyRight_of_used head hend] at hc
    cases hc
    exact ⟨u, r, f, head, .refl _ _, .of_eq rfl rfl rfl rfl⟩
  · simp only [not_forall, Bool.not_eq_false] at head
    obtain ⟨b, hhead, hb⟩ := head
    obtain ⟨r', rfl⟩ := head?_eq_some_iff.mp hhead
    obtain ⟨f', kept, same⟩ := f.unifyRight_of_free hb hc
    exact ⟨_, r', f', (isChain_around (l := []) f.apartRight hb).2.2.2, kept.of_free hb, same⟩

/-- The merged area is entered into the index, if it is not there yet. -/
lemma finish (f : Freeing s l u r) (last : ∀ b ∈ l.getLast?, b.tag = false)
    (head : ∀ b ∈ r.head?, b.tag = false)
    (hc : enterIndex s = some h') :
    Inv h' (l ++ u :: r) ∧ h'.mem = s.heap.mem ∧ SameRange s.heap h' := by
  have apart : (l ++ u :: r).IsChain Apart := by
    refine isChain_append.mpr ⟨f.apartLeft, isChain_cons.mpr ⟨fun b hb => ?_,
      f.apartRight⟩, fun b hb c _ => ?_⟩
    · simp [Apart, head b hb]
    · simp [Apart, last b hb]
  have used : s.heap.usedIndex.items.Perm (usedStarts (l ++ u :: r)) := by
    simpa [f.isFree] using f.used
  have hfree := f.free
  unfold enterIndex at hc
  split_ifs at hc hfree with hadd
  · obtain ⟨index, rfl, hp⟩ := insertFree_spec hc
    refine ⟨⟨⟨f.range.1, f.range.2, f.range.3, f.range.4, f.range.5⟩, f.tiles, f.intact, ?_, used,
      apart, f.rightmost⟩, rfl, .of_eq rfl rfl rfl rfl⟩
    exact freeStarts_insert hfree (by simpa [f.isFree, f.header] using hp)
  · cases hc
    exact ⟨⟨f.range, f.tiles, f.intact, hfree, used, apart, f.rightmost⟩, rfl,
      .of_eq rfl rfl rfl rfl⟩

end Freeing

/-! ## Contraction -/

lemma shrinkArea_spec (ia : Intact m a) (size : Nat) (hbig : headerSize + footerSize < size)
    (hle : size ≤ a.size) (hw : a.stop < wordSize) :
    Intact (writeFooter (setSize m a.start size) (a.start + size - footerSize) a.start)
        ⟨a.start, size, a.tag⟩ ∧
      AgreeOff m (writeFooter (setSize m a.start size) (a.start + size - footerSize) a.start)
        a.start a.stop := by
  have hs : a.stop = a.start + a.size := rfl
  have htype := ia.type
  have hmagic := ia.magic
  simp only [headerSize, footerSize, typeOf, magicOf] at hbig htype hmagic
  refine ⟨⟨by simp only [headerSize, footerSize]; omega, ?_, ?_, ?_, footerMagic_writeFooter ..,
    footerHeader_writeFooter _ _ (by omega)⟩, ?_⟩
  all_goals simp only [sizeOf, typeOf, magicOf, writeFooter, setFooterHeader,
    setFooterMagic, setSize, footerSize]
  · simp (disch := omega) only [read32_write32_of_disjoint, read32_write32_same]
  · simp (disch := omega) only [write32_of_not_mem, htype]
  · simp (disch := omega) only [read32_write32_of_disjoint, hmagic]
  · intro x hx
    simp (disch := omega) only [write32_of_not_mem]

/-- Cut down the last area, which is free, to the new end of the heap. -/
lemma Inv.contract (inv : Inv h (l ++ [a])) (ha : a.tag = true) (newEnd : Nat)
    (hlo : a.start + (headerSize + footerSize) < newEnd) (hhi : newEnd ≤ h.endAddress)
    (hm : newEnd % pageSize = 0) :
    let m := writeFooter (setSize h.mem a.start (newEnd - a.start)) (newEnd - footerSize) a.start
    Inv { h with endAddress := newEnd, mem := m } (l ++ [⟨a.start, newEnd - a.start, true⟩]) ∧
      Kept h.mem (l ++ [a]) m (l ++ [⟨a.start, newEnd - a.start, true⟩]) := by
  intro m
  obtain ⟨tl, hstop⟩ := tiles_around.mp inv.tiles
  obtain hstop : a.stop = h.endAddress := hstop
  have hs : a.stop = a.start + a.size := rfl
  have hw := inv.range.lt
  obtain ⟨ia, off⟩ := shrinkArea_spec (inv.intact a (by simp)) (newEnd - a.start)
    (by omega) (by omega) (by omega)
  rw [show a.start + (newEnd - a.start) = newEnd by omega, ha] at ia
  rw [show a.start + (newEnd - a.start) = newEnd by omega] at off
  have others (b : Area) (hb : b ∈ l) : AgreeOn h.mem m b.start b.stop :=
    off.on (.inl (tl.bounds hb).2)
  have hr := inv.range
  refine ⟨⟨⟨hr.aligned, hr.pos, hm, hhi.trans_lt hw, hr.le_max⟩, ?_, ?_, ?_, ?_, ?_, ?_⟩, ?_⟩
  · refine tiles_around.mpr ⟨tl, ?_⟩
    simp only [tiles_nil, Seg.stop]
    omega
  · intro b hb
    rcases mem_append.mp hb with hb | hb
    · exact (inv.intact b (by simp [hb])).of_agree (others b hb)
    · obtain rfl := mem_singleton.mp hb
      exact ia
  · simpa [ha] using inv.free
  · simpa [ha] using inv.used
  · have hc := isChain_append.mp inv.apart
    refine isChain_append.mpr ⟨hc.1, by simp, fun b hb c hc' => ?_⟩
    have := (isChain_around inv.apart ha).2.2.1 b hb
    simp [Apart, this]
  · have hx := isLast_concat.mp inv.rightmost
    exact isLast_concat.mpr hx
  · have kept : Kept h.mem (l ++ []) m l := by simpa using Kept.of_agree others
    exact (kept.of_free ha).mono (fun _ hb _ => hb) (by simp)

lemma Inv.last_bounds (inv : Inv h (l ++ [a])) :
    h.startAddress ≤ a.start ∧ a.start + a.size = h.endAddress ∧ h.endAddress < wordSize := by
  obtain ⟨tl, hstop⟩ := tiles_around.mp inv.tiles
  exact ⟨tl.le, hstop, inv.range.lt⟩

/-- Contracting: the heap is left alone, or ends earlier, and its last area keeps a megabyte. -/
lemma heapContract_spec (inv : Inv h (l ++ [a])) (hbig : kheapMaxWaste ≤ a.size)
    (hc : heapContract (a.size - 0x100000) h = some h') :
    h' = h ∨ ∃ newEnd, h' = { h with endAddress := newEnd } ∧ a.start + 0x100000 ≤ newEnd ∧
      newEnd < h.endAddress ∧ newEnd % pageSize = 0 := by
  obtain ⟨hstart, hstop, hw⟩ := inv.last_bounds
  simp only [kheapMaxWaste] at hbig
  unfold heapContract at hc
  split_ifs at hc with hsmall
  · exact .inl (Option.some.inj hc).symm
  · right
    have hsize : sub32 (sub32 h.endAddress h.startAddress) (a.size - 0x100000) =
        a.start - h.startAddress + 0x100000 := by
      rw [sub32_eq hw (by omega), sub32_eq (by omega) (by omega)]
      omega
    have hmin : ¬ a.start - h.startAddress + 0x100000 < kheapInitialSize := by
      simp only [kheapInitialSize]
      omega
    have hend : add32 h.startAddress (a.start - h.startAddress + 0x100000) =
        a.start + 0x100000 := by
      rw [add32_eq (by omega)]
      omega
    simp only [hsize, hmin, if_false, hend, bind_eq_bind, bind_eq_some_iff,
      kassert_eq_some, exists_const, Option.pure_def, Option.some.injEq] at hc
    obtain ⟨-, hm, rfl⟩ := hc
    refine ⟨_, rfl, ?_, ?_, by simpa [isPageAligned] using hm⟩
    all_goals
      split_ifs
      · omega
      · simp only [nextPage, pageSize]
        rw [add32_eq (by omega)]
        omega

/-- The heap has become smaller at its end, if anything. -/
structure Shrinks (h h' : Heap) : Prop where
  start : h'.startAddress = h.startAddress
  stop : h'.endAddress ≤ h.endAddress
  max : h'.maxAddress = h.maxAddress
  tables : h'.tables = h.tables

lemma Shrinks.refl (h : Heap) : Shrinks h h := ⟨rfl, le_rfl, rfl, rfl⟩

lemma SameRange.shrinks (same : SameRange h h') (more : Shrinks h' h'') : Shrinks h h'' where
  start := more.start.trans same.start
  stop := same.stop ▸ more.stop
  max := more.max.trans same.max
  tables := more.tables.trans same.tables

lemma contractTail_spec (inv : Inv h as) (hc : contractTail h = some h') :
    ∃ as', Inv h' as' ∧ Kept h.mem as h'.mem as' ∧ Shrinks h h' := by
  obtain ⟨a, ha, hx⟩ := inv.rightmost
  obtain ⟨l, rfl⟩ := List.getLast?_eq_some_iff.mp ha
  have ia := inv.intact a (by simp)
  obtain ⟨hstart, hstop, hw⟩ := inv.last_bounds
  simp only [contractTail, hx, ia.type, ia.size] at hc
  split_ifs at hc with hcond
  · obtain ⟨hfree, hbig⟩ := hcond
    rw [typeByte_eq_free] at hfree
    have hbytes : sub32 a.size 0x100000 = a.size - 0x100000 := by
      simp only [kheapMaxWaste] at hbig
      exact sub32_eq (by omega) (by omega)
    simp only [hbytes, bind_eq_bind, bind_eq_some_iff, kassert_eq_some,
      exists_const, Option.pure_def, Option.some.injEq] at hc
    obtain ⟨-, -, -, h₁, hcontract, rfl⟩ := hc
    obtain rfl | ⟨newEnd, rfl, hlo, hlt, hm⟩ := heapContract_spec inv hbig hcontract
    · -- nothing was given back
      have hzero : sub32 (sub32 h₁.endAddress h₁.startAddress)
          (sub32 h₁.endAddress h₁.startAddress) = 0 := by
        rw [sub32_eq (sub32_lt _ _) le_rfl, Nat.sub_self]
      simp only [hzero, resizeTail, Nat.lt_irrefl, if_false]
      exact ⟨_, inv, .refl _ _, .refl _⟩
    · have hshrunk : sub32 (sub32 h.endAddress h.startAddress) (sub32 newEnd h.startAddress) =
          h.endAddress - newEnd := by
        rw [sub32_eq hw (by omega), sub32_eq (a := newEnd) (by omega) (by omega),
          sub32_eq (by omega) (by omega)]
        omega
      have hsize : sub32 a.size (h.endAddress - newEnd) = newEnd - a.start := by
        rw [sub32_eq (by omega) (by omega)]
        omega
      have hnew : sizeOf (setSize h.mem a.start (newEnd - a.start)) a.start = newEnd - a.start :=
        read32_write32_same _ _ (by omega)
      have hfoot : sub32 (add32 a.start (newEnd - a.start)) footerSize = newEnd - footerSize := by
        simp only [footerSize]
        rw [add32_eq (by omega), sub32_eq (by omega) (by omega)]
        omega
      have hpos : 0 < h.endAddress - newEnd := by omega
      simp only [hshrunk, resizeTail, hpos, if_true, ia.size, hsize, footerFromHeader, hnew, hfoot]
      obtain ⟨inv', kept⟩ := inv.contract hfree newEnd
        (by simp only [headerSize, footerSize]; omega) hlt.le hm
      exact ⟨_, inv', kept, rfl, hlt.le, rfl, rfl⟩
  · cases hc
    exact ⟨_, inv, .refl _ _, .refl _⟩

/-! ## Finding the header -/

lemma read32_eq_magic {x : Nat} (hx : read32 m x = heapMagic) :
    (m x).toNat = 0x12 ∧ (m (x + 1)).toNat = 0xef ∧ (m (x + 2)).toNat = 0xcd ∧
      (m (x + 3)).toNat = 0xab := by
  have h₀ := (m x).toNat_lt
  have h₁ := (m (x + 1)).toNat_lt
  have h₂ := (m (x + 2)).toNat_lt
  simp only [read32, heapMagic] at hx
  omega

/-- The search starts at most three bytes above the header, and no proper suffix of the magic number
starts like it. -/
lemma scanHeader_eq {x d : Nat} (hx : 0 < x) (hm : magicOf m x = heapMagic) (hd : d ≤ 3) :
    scanHeader m (x + d) = some x := by
  induction d with
  | zero =>
    obtain ⟨y, rfl⟩ := Nat.exists_eq_succ_of_ne_zero hx.ne'
    simp [scanHeader, hm]
  | succ d ih =>
    have hne : magicOf m (x + d + 1) ≠ heapMagic := by
      intro heq
      obtain ⟨-, h₁, h₂, h₃⟩ := read32_eq_magic hm
      obtain ⟨h₀, -⟩ := read32_eq_magic heq
      obtain rfl | rfl | rfl : d = 0 ∨ d = 1 ∨ d = 2 := by omega
      all_goals
        simp only [Nat.add_assoc, Nat.reduceAdd] at h₀ h₁ h₂ h₃
        omega
    rw [← Nat.add_assoc, scanHeader, if_neg hne]
    exact ih (by omega)

lemma Fits.scanHeader {b : Block} (inv : Inv h as) (ha : a ∈ as) (f : Fits b a) :
    scanHeader h.mem (sub32 b.ptr headerSize) = some a.start := by
  have ia := inv.intact a ha
  have hb := ia.big
  have hs : a.stop = a.start + a.size := rfl
  obtain ⟨hlo, hhi⟩ := inv.tiles.bounds ha
  have hpos := inv.range.pos
  have hw := inv.range.lt
  simp only [headerSize, footerSize] at hb
  obtain ⟨hle, hge, -⟩ := dwordAlign_bounds (x := a.start + headerSize) (by
    simp only [headerSize]; omega)
  rw [← f.ptr] at hle hge
  simp only [headerSize] at hle hge ⊢
  rw [sub32_eq (by omega) (by omega), show b.ptr - 12 = a.start + (b.ptr - 12 - a.start) by omega]
  exact scanHeader_eq (by omega) ia.magic (by omega)

/-- `find_area_and_validate` succeeds on a block, unless it lies above the intended end of the heap.
-/
lemma Fits.findAreaAndValidate {b : Block} (inv : Inv h as) (ha : a ∈ as) (f : Fits b a) :
    findAreaAndValidate b.ptr h = some none ∨
      findAreaAndValidate b.ptr h = some (some (a.start, a.stop - footerSize)) := by
  have ia := inv.intact a ha
  have hw : a.stop < wordSize := inv.stop_lt ha
  have htype : typeOf h.mem a.start = areaUsed := by rw [ia.type, f.used, typeByte_false]
  unfold KHeap.findAreaAndValidate
  split_ifs
  · exact .inl rfl
  · right
    simp [f.scanHeader inv ha, ia.footerFromHeader_eq hw, htype, ia.footMagic, ia.footHeader,
      kassert]

/-! ## Release -/

/-- The area of `p` is not the last one, or the bytes behind it do not look like a free area. -/
def safeFree (h : Heap) (p : Nat) : Bool :=
  (scanHeader h.mem (sub32 p headerSize)).all fun header =>
    add32 header (sizeOf h.mem header) != h.endAddress || !staleHeader h

/-- `heapFree` keeps the heap intact, and every other used area with its contents. -/
lemma heapFree_spec {b : Block} (inv : Inv h (l ++ u :: r)) (f : Fits b u)
    (safe : safeFree h b.ptr = true) (hc : heapFree b.ptr h = some h') :
    ∃ as', Inv h' as' ∧ Kept h.mem (l ++ r) h'.mem as' ∧ Shrinks h h' := by
  have hu : u ∈ l ++ u :: r := by simp
  have iu := inv.intact u hu
  have hw : u.stop < wordSize := inv.stop_lt hu
  have hptr := (f.bounds iu hw).1
  have hp : b.ptr ≠ 0 := by
    simp only [headerSize] at hptr
    omega
  have hscan := f.scanHeader inv hu
  have hend : r = [] → staleHeader h = false := by
    rintro rfl
    have hstop : u.stop = h.endAddress := (tiles_around.mp inv.tiles).2
    have hsum : add32 u.start u.size = h.endAddress := (add32_eq hw).trans hstop
    simpa [safeFree, hscan, iu.size, hsum] using safe
  simp only [heapFree, hp, if_false] at hc
  obtain hnone | hsome := f.findAreaAndValidate inv hu
  · simp only [hnone, bind_eq_bind, bind_some, Option.pure_def,
      Option.some.injEq] at hc
    subst hc
    exact ⟨_, inv, (Kept.refl _ (l ++ r)).mono (fun _ hb _ => hb) (append_subset_around l r u),
      .refl _⟩
  · simp only [hsome, bind_eq_bind, bind_some, bind_eq_some_iff] at hc
    obtain ⟨s₁, hleft, s₂, hright, h₃, hinsert, hcontract⟩ := hc
    obtain ⟨f₀, kept₀⟩ := freeing_start inv f.used
    obtain ⟨l', u₁, f₁, hstop, last, kept₁, behind, same₁⟩ := f₀.unifyLeft rfl hleft
    -- the bytes behind the heap have not changed since the call
    have hend₁ : r = [] → staleHeader s₁.heap = false := by
      intro hr
      have hstop₀ : u.stop = h.endAddress := by
        subst hr
        exact (tiles_around.mp inv.tiles).2
      have hbig := iu.big
      have hs : u.stop = u.start + u.size := rfl
      simp only [headerSize, footerSize] at hbig
      have on : AgreeOn h.mem (setType h.mem u.start areaFree) h.endAddress
          (h.endAddress + headerSize) := AgreeOn.write8 _ (by omega)
      rw [staleHeader_congr (h := h) same₁.stop (on.trans (hstop₀ ▸ behind _))]
      exact hend hr
    obtain ⟨u₂, r', f₂, head, kept₂, same₂⟩ := f₁.unifyRight hend₁ hright
    obtain ⟨inv₃, hmem, same₃⟩ := f₂.finish last head hinsert
    obtain ⟨as', inv', kept₄, shrinks⟩ := contractTail_spec inv₃ hcontract
    have kept₃ : Kept s₂.heap.mem (l' ++ r') h₃.mem (l' ++ u₂ :: r') := by
      rw [hmem]
      exact (Kept.refl _ _).mono (fun _ hb _ => hb) (append_subset_around l' r' u₂)
    refine ⟨as', inv', (((kept₀.trans kept₁).trans kept₂).trans kept₃).trans kept₄, ?_⟩
    have shrinks' := ((same₁.trans same₂).trans same₃).shrinks shrinks
    exact ⟨shrinks'.start, shrinks'.stop, shrinks'.max, shrinks'.tables⟩

end ExscapeOS.KHeap
