import ExscapeOS.Kernel.Heap.Invariant

/-!
# Using a hole

An allocation opens a gap where the hole was (`Inv.removeFree`), fills it from both sides
(`Gap.fillLeft`, `Gap.fillRight`) or by growing the area in front of it (`Gap.growLast`), and closes
it. Each step keeps the used areas and what is stored in them.
-/
namespace ExscapeOS.KHeap

open Lib Lib.Memory List Option

variable {h h' h'' : Heap} {as l r : List Area} {lo hi : Nat} {a : Area}

/-! ## Creating an area inside a gap -/

variable {address size : Nat}

lemma createArea_spec {type : UInt8} (hc : createArea address size type h = some h') :
    headerSize + footerSize < size ∧
      h' = { h with
        mem := writeArea h.mem address size type
        rightmostArea := if h.rightmostArea < address then address else h.rightmostArea } := by
  simp only [createArea, bind_eq_bind, kassert_bind_eq_some] at hc
  obtain ⟨-, hs, -, -, -, hc⟩ := hc
  exact ⟨hs, (some.inj hc).symm⟩

lemma insertFree_spec {header : Nat} (hi : h.insertFree header = some h') :
    ∃ index, h' = { h with freeIndex := index } ∧
      index.items.Perm (header :: h.freeIndex.items) := by
  obtain ⟨index, hx, rfl⟩ := map_eq_some_iff.mp hi
  exact ⟨index, rfl, OrderedArray.items_insert hx⟩

lemma insertUsed_spec {header : Nat} (hi : h.insertUsed header = some h') :
    ∃ index, h' = { h with usedIndex := index } ∧
      index.items.Perm (header :: h.usedIndex.items) := by
  obtain ⟨index, hx, rfl⟩ := map_eq_some_iff.mp hi
  exact ⟨index, rfl, OrderedArray.items_insert hx⟩

lemma addArea_spec (free : Bool) (hc : addArea address size (typeByte free) h = some h') :
    headerSize + footerSize < size ∧ ∃ freeIndex usedIndex,
      h' = { h with
        mem := writeArea h.mem address size (typeByte free)
        rightmostArea := if h.rightmostArea < address then address else h.rightmostArea
        freeIndex := freeIndex
        usedIndex := usedIndex } ∧
      freeIndex.items.Perm (if free then address :: h.freeIndex.items else h.freeIndex.items) ∧
      usedIndex.items.Perm (if free then h.usedIndex.items else address :: h.usedIndex.items) := by
  obtain ⟨h₁, hc, hx⟩ := bind_eq_some_iff.mp hc
  obtain ⟨hs, rfl⟩ := createArea_spec hc
  refine ⟨hs, ?_⟩
  cases free with
  | true =>
    obtain ⟨index, rfl, hp⟩ := insertFree_spec hx
    exact ⟨index, h.usedIndex, rfl, hp, .refl _⟩
  | false =>
    obtain ⟨index, rfl, hp⟩ := insertUsed_spec hx
    exact ⟨h.freeIndex, index, rfl, .refl _, hp⟩

lemma freeStarts_insert {xs ys : List Nat} (h : xs.Perm (freeStarts (l ++ r)))
    (h' : ys.Perm (if a.tag then a.start :: xs else xs)) : ys.Perm (freeStarts (l ++ a :: r)) := by
  refine h'.trans ?_
  rw [freeStarts_append] at h ⊢
  rw [freeStarts_cons]
  split_ifs
  · exact (h.cons _).trans perm_middle.symm
  · exact h

lemma usedStarts_insert {xs ys : List Nat} (h : xs.Perm (usedStarts (l ++ r)))
    (h' : ys.Perm (if a.tag then xs else a.start :: xs)) : ys.Perm (usedStarts (l ++ a :: r)) := by
  refine h'.trans ?_
  rw [usedStarts_append] at h ⊢
  rw [usedStarts_cons]
  split_ifs
  · exact h
  · exact (h.cons _).trans perm_middle.symm

namespace Gap

variable (g : Gap h l lo hi r)
include g

lemma writeArea_off (type : UInt8) (hs : headerSize + footerSize < size)
    (hlo : lo ≤ address) (hhi : address + size ≤ hi) :
    AgreeOff h.mem (writeArea h.mem address size type) lo hi :=
  (writeArea_agreeOff hs ((hhi.trans g.le.2).trans_lt g.range.lt)).mono hlo hhi

lemma intact_addArea {free : Bool} (hs : headerSize + footerSize < size)
    (hlo : lo ≤ address) (hhi : address + size ≤ hi) :
    ∀ b ∈ l ++ ⟨address, size, free⟩ :: r,
      Intact (writeArea h.mem address size (typeByte free)) b := by
  intro b hb
  have hw : address + size < wordSize := (hhi.trans g.le.2).trans_lt g.range.lt
  rcases mem_append.mp hb with hb | hb
  · exact (g.setMem (g.writeArea_off _ hs hlo hhi)).intact b (mem_append_left _ hb)
  · rcases mem_cons.mp hb with rfl | hb
    · exact intact_writeArea free hs hw
    · exact (g.setMem (g.writeArea_off _ hs hlo hhi)).intact b (mem_append_right _ hb)

/-- `create_area` updates `rightmost_area` if no area lies behind the gap. -/
lemma rightmost_addArea (hlo : lo ≤ address) (hhi : address < hi) :
    (if h.rightmostArea < address then address else h.rightmostArea) =
      if r = [] then address else h.rightmostArea := by
  have hr := g.rightmost
  split_ifs at hr ⊢ with h₁ h₂
  · rfl
  · obtain ⟨b, hb, hx⟩ := hr
    have := (g.right.bounds (mem_of_getLast? hb)).1
    omega
  · omega
  · rfl

lemma isLast_addArea (size : Nat) (free : Bool) (hlo : lo ≤ address)
    (hhi : address < hi) :
    IsLast (if h.rightmostArea < address then address else h.rightmostArea)
      (⟨address, size, free⟩ :: r) := by
  rw [g.rightmost_addArea hlo hhi]
  have hr := g.rightmost
  split_ifs at hr ⊢ with hnil
  · subst hnil
    exact (isLast_concat (l := [])).mpr rfl
  · exact (isLast_append (l := [_]) hnil).mpr hr

lemma fillLeft (free : Bool) (hc : addArea lo size (typeByte free) h = some h')
    (hhi : lo + size ≤ hi) (apart : free = true → ∀ b ∈ l.getLast?, b.tag = false) :
    Gap h' (l ++ [⟨lo, size, free⟩]) (lo + size) hi r ∧
      IsLast h'.rightmostArea (l ++ ⟨lo, size, free⟩ :: r) ∧
      Kept h.mem (l ++ r) h'.mem (l ++ r) := by
  obtain ⟨hs, freeIndex, usedIndex, rfl, hf, hu⟩ := addArea_spec free hc
  have off := g.writeArea_off (typeByte free) hs le_rfl hhi
  have last := g.isLast_addArea size free le_rfl (by omega)
  refine ⟨⟨⟨g.range.1, g.range.2, g.range.3, g.range.4, g.range.5⟩, ?_, g.right, ?_, ?_, ?_, ?_,
    g.apartRight, ?_⟩, (isLast_append (cons_ne_nil _ _)).mpr last, g.kept off⟩
  · exact tiles_append.mpr ⟨lo, g.left, rfl, rfl⟩
  · simpa [append_assoc] using g.intact_addArea hs le_rfl hhi
  · simpa [append_assoc] using freeStarts_insert (a := ⟨lo, size, free⟩) g.free hf
  · simpa [append_assoc] using usedStarts_insert (a := ⟨lo, size, free⟩) g.used hu
  · refine isChain_append.mpr ⟨g.apartLeft, by simp, fun b hb c hc => ?_⟩
    obtain rfl : c = ⟨lo, size, free⟩ := by simpa using hc.symm
    rintro ⟨hbt, hct⟩
    simp [apart hct b hb] at hbt
  · by_cases hnil : r = []
    · subst hnil
      exact ((isLast_concat (l := [])).mp last).le.trans (Nat.le_add_right _ _)
    · rw [if_neg hnil]
      exact (isLast_append (l := [_]) hnil).mp last

lemma fillRight (hc : addArea address size areaFree h = some h')
    (hlo : lo ≤ address) (hhi : address + size = hi) (apart : ∀ b ∈ r.head?, b.tag = false) :
    Gap h' l lo address (⟨address, size, true⟩ :: r) ∧ Kept h.mem (l ++ r) h'.mem (l ++ r) := by
  obtain ⟨hs, freeIndex, usedIndex, rfl, hf, hu⟩ := addArea_spec true hc
  have off := g.writeArea_off (typeByte true) hs hlo hhi.le
  refine ⟨⟨⟨g.range.1, g.range.2, g.range.3, g.range.4, g.range.5⟩, g.left, ?_, ?_, ?_, ?_,
    g.apartLeft, ?_, ?_⟩, g.kept off⟩
  · exact ⟨rfl, by simpa [Seg.stop, hhi] using g.right⟩
  · exact g.intact_addArea hs hlo hhi.le
  · exact freeStarts_insert g.free hf
  · exact usedStarts_insert g.used hu
  · refine isChain_cons.mpr ⟨fun b hb => ?_, g.apartRight⟩
    rintro ⟨-, hbt⟩
    simp [apart b hb] at hbt
  · exact g.isLast_addArea size true hlo (by omega)

end Gap

/-! ## Growing the area in front of a gap -/

lemma extendArea_eq {m : Memory} (ia : Intact m a) {extra : Nat}
    (hw : a.stop + extra < wordSize) :
    extendArea a.start (a.stop - footerSize) extra m =
      writeFooter (setSize (setFooterMagic m (a.stop - footerSize) 0) a.start (a.size + extra))
        (a.stop + extra - footerSize) a.start := by
  have hb := ia.big
  have hs : a.stop = a.start + a.size := rfl
  simp only [headerSize, footerSize] at hb
  have hsize : sizeOf (setFooterMagic m (a.stop - footerSize) 0) a.start = a.size := by
    refine (read32_write32_of_disjoint ?_).trans ia.size
    simp only [footerSize]
    omega
  have hnew : sizeOf (setSize (setFooterMagic m (a.stop - footerSize) 0) a.start
      (a.size + extra)) a.start = a.size + extra := read32_write32_same _ _ (by omega)
  have hsum : add32 a.size extra = a.size + extra := add32_eq (by omega)
  simp only [extendArea, footerFromHeader, hsize, hsum, hnew]
  rw [add32_eq (by omega), sub32_eq (by omega) (by simp only [footerSize]; omega), hs,
    Nat.add_assoc]

lemma extendArea_spec {m : Memory} (ia : Intact m a) {extra : Nat}
    (hw : a.stop + extra < wordSize) :
    Intact (extendArea a.start (a.stop - footerSize) extra m)
        ⟨a.start, a.size + extra, a.tag⟩ ∧
      AgreeOn m (extendArea a.start (a.stop - footerSize) extra m) (a.start + headerSize)
        (a.stop - footerSize) ∧
      AgreeOff m (extendArea a.start (a.stop - footerSize) extra m) a.start (a.stop + extra) := by
  rw [extendArea_eq ia hw]
  have hb := ia.big
  have hs : a.stop = a.start + a.size := rfl
  simp only [headerSize, footerSize] at hb
  generalize hm₁ : setFooterMagic m (a.stop - footerSize) 0 = m₁
  generalize hm₂ : setSize m₁ a.start (a.size + extra) = m₂
  -- the old footer, the size field and the new footer, one after the other
  have off₁ : ∀ lo hi, hi ≤ a.stop - 8 → AgreeOn m m₁ lo hi := fun lo hi hh => by
    subst hm₁
    exact AgreeOn.write32 _ (.inr hh)
  have off₂ : ∀ lo hi, a.start + 4 ≤ lo → AgreeOn m₁ m₂ lo hi := fun lo hi hl => by
    subst hm₂
    exact AgreeOn.write32 _ (.inl hl)
  have off₃ : ∀ lo hi, hi ≤ a.stop + extra - 8 →
      AgreeOn m₂ (writeFooter m₂ (a.stop + extra - footerSize) a.start) lo hi :=
    fun lo hi hh => writeFooter_agree _ (.inr hh)
  have tail : AgreeOn m (writeFooter m₂ (a.stop + extra - footerSize) a.start) (a.start + 4)
      (a.stop - 8) :=
    ((off₁ _ _ le_rfl).trans (off₂ _ _ le_rfl)).trans (off₃ _ _ (by omega))
  refine ⟨⟨?_, ?_, ?_, ?_, ?_, ?_⟩, tail.mono (by simp only [headerSize]; omega) le_rfl, ?_⟩
  · simp only [headerSize, footerSize]
    omega
  · refine ((off₃ a.start (a.start + 4) (by omega)).read32 le_rfl le_rfl).trans ?_
    subst hm₂
    exact read32_write32_same _ _ (by omega)
  · exact (tail _ (by simp) (by simp only; omega)).trans ia.type
  · exact (tail.read32 (by simp) (by simp only; omega)).trans ia.magic
  · simp only [Seg.stop, ← Nat.add_assoc]
    exact footerMagic_writeFooter ..
  · simp only [Seg.stop, ← Nat.add_assoc]
    exact footerHeader_writeFooter _ _ (by omega)
  · intro b hb
    have at_b : AgreeOn m₂ (writeFooter m₂ (a.stop + extra - footerSize) a.start) b (b + 1) :=
      writeFooter_agree m₂ (by simp only [footerSize]; omega)
    have e₃ := at_b b le_rfl (by omega)
    rw [e₃, ← hm₂, setSize, write32_of_not_mem (by omega), ← hm₁, setFooterMagic,
      write32_of_not_mem (by simp only [footerSize]; omega)]

lemma Gap.growLast (g : Gap h (l ++ [a]) lo hi r) (extra : Nat) (hx : lo + extra ≤ hi) :
    Gap { h with mem := extendArea a.start (lo - footerSize) extra h.mem }
        (l ++ [⟨a.start, a.size + extra, a.tag⟩]) (lo + extra) hi r ∧
      Kept h.mem (l ++ [a] ++ r) (extendArea a.start (lo - footerSize) extra h.mem)
        (l ++ [⟨a.start, a.size + extra, a.tag⟩] ++ r) := by
  obtain ⟨tl, rfl⟩ := tiles_around.mp g.left
  have ia := g.intact a (by simp)
  obtain ⟨ia', data, off⟩ := extendArea_spec ia (((hx.trans g.le.2)).trans_lt g.range.lt)
  generalize extendArea a.start (a.stop - footerSize) extra h.mem = m at ia' data off ⊢
  -- the other areas are not touched at all
  have rest : ∀ b ∈ l ++ r, AgreeOn h.mem m b.start b.stop := by
    intro b hb
    refine off.on ?_
    rcases mem_append.mp hb with hb | hb
    · exact .inl (tl.bounds hb).2
    · exact .inr (hx.trans (g.right.bounds hb).1)
  refine ⟨⟨⟨g.range.1, g.range.2, g.range.3, g.range.4, g.range.5⟩, ?_, g.right, ?_, ?_, ?_, ?_,
    g.apartRight, ?_⟩, ?_⟩
  · exact tiles_around.mpr ⟨tl, by simp [Seg.stop, Nat.add_assoc]⟩
  · intro b hb
    simp only [mem_append, mem_singleton] at hb
    rcases hb with (hb | rfl) | hb
    · exact (g.intact b (by simp [hb])).of_agree (rest b (by simp [hb]))
    · exact ia'
    · exact (g.intact b (by simp [hb])).of_agree (rest b (by simp [hb]))
  · simpa using g.free
  · simpa using g.used
  · have hc := isChain_append.mp g.apartLeft
    refine isChain_append.mpr ⟨hc.1, by simp, fun b hb c hc' => ?_⟩
    obtain rfl : c = ⟨a.start, a.size + extra, a.tag⟩ := by simpa using hc'.symm
    exact hc.2.2 b hb a (by simp)
  · have hr := g.rightmost
    split_ifs at hr ⊢ with hnil
    · exact hr.trans (Nat.le_add_right _ _)
    · exact hr
  · intro b hb hu
    by_cases hba : b = a
    · subst hba
      exact ⟨⟨b.start, b.size + extra, b.tag⟩, by simp, hu, rfl, Nat.le_add_right _ _, data⟩
    · have hlr : b ∈ l ++ r := by simpa [hba] using hb
      refine ⟨b, ?_, hu, rfl, le_rfl, (rest b hlr).mono (by omega) (by omega)⟩
      simpa using append_subset_around l r ⟨a.start, a.size + extra, a.tag⟩ hlr

/-! ## Using a hole -/

structure SameBounds (h h' : Heap) : Prop where
  start : h'.startAddress = h.startAddress
  stop : h'.endAddress = h.endAddress
  max : h'.maxAddress = h.maxAddress

lemma SameBounds.trans (g : SameBounds h h') (g' : SameBounds h' h'') : SameBounds h h'' :=
  ⟨g'.1.trans g.1, g'.2.trans g.2, g'.3.trans g.3⟩

/-- `h'` differs from `h` only in its areas. -/
structure SameRange (h h' : Heap) : Prop extends SameBounds h h' where
  tables : h'.tables = h.tables

lemma SameRange.of_eq (hs : h'.startAddress = h.startAddress) (he : h'.endAddress = h.endAddress)
    (hm : h'.maxAddress = h.maxAddress) (ht : h'.tables = h.tables) : SameRange h h' :=
  ⟨⟨hs, he, hm⟩, ht⟩

lemma SameRange.trans (g : SameRange h h') (g' : SameRange h' h'') : SameRange h h'' :=
  ⟨g.toSameBounds.trans g'.toSameBounds, g'.tables.trans g.tables⟩

lemma addArea_sameRange (free : Bool)
    (hc : addArea address size (typeByte free) h = some h') : SameRange h h' := by
  obtain ⟨-, _, _, rfl, -, -⟩ := addArea_spec free hc
  exact .of_eq rfl rfl rfl rfl

lemma Gap.finish (g : Gap h l lo hi r) (hhi : lo + size = hi)
    (hc : addArea lo size areaUsed h = some h') :
    Inv h' (l ++ ⟨lo, size, false⟩ :: r) ∧ Kept h.mem (l ++ r) h'.mem (l ++ r) := by
  obtain ⟨g', last, kept⟩ := g.fillLeft false hc hhi.le (by simp)
  rw [hhi] at g'
  have inv := g'.close ?_ (by simpa [append_assoc] using last)
  · exact ⟨by simpa [append_assoc] using inv, kept⟩
  · refine isChain_append.mpr ⟨g'.apartLeft, g'.apartRight, fun b hb c _ => ?_⟩
    obtain rfl : b = ⟨lo, size, false⟩ := by simpa using hb.symm
    simp [Apart]

lemma Gap.cutArea (g : Gap h l lo hi r) {p : Nat} (hsize : sizeOf h.mem lo = hi - lo)
    (hle : lo + size ≤ hi) (head : ∀ b ∈ r.head?, b.tag = false)
    (hc : cutArea lo size h = some (p, h')) :
    ∃ u r', Inv h' (l ++ u :: r') ∧ u.start = lo ∧ u.tag = false ∧ size ≤ u.size ∧
      p = dwordAlign (lo + headerSize) ∧ Kept h.mem (l ++ r) h'.mem (l ++ r') ∧
      SameRange h h' := by
  have hw : hi < wordSize := g.le.2.trans_lt g.range.lt
  have hrest : sub32 (sizeOf h.mem lo) size = hi - lo - size := by
    rw [hsize, sub32_eq (by omega) (by omega)]
  have hret {size : Nat} (hs : headerSize + footerSize < size) (hle : lo + size ≤ hi) :
      dwordAlign (add32 lo headerSize) = dwordAlign (lo + headerSize) := by
    rw [add32_eq (by omega)]
  simp only [KHeap.cutArea, hrest, bind_eq_bind] at hc
  split_ifs at hc with hfits
  · simp only [Option.bind_eq_some_iff, Option.bind_some, Option.pure_def, Option.some.injEq,
      Prod.mk.injEq] at hc
    obtain ⟨h₁, hfree, h₂, hused, rfl, rfl⟩ := hc
    rw [add32_eq (by omega)] at hfree
    obtain ⟨g₁, kept₁⟩ := g.fillRight hfree (by omega) (by omega) head
    obtain ⟨inv, kept₂⟩ := g₁.finish rfl hused
    refine ⟨_, _, inv, rfl, rfl, le_rfl, hret (addArea_spec false hused).1 hle,
      kept₁.trans (kept₂.mono (fun _ hb _ => append_subset_around _ _ _ hb)
        (List.Subset.refl _)), ?_⟩
    exact (addArea_sameRange true hfree).trans (addArea_sameRange false hused)
  · simp only [Option.bind_eq_some_iff, Option.bind_some, Option.pure_def, Option.some.injEq,
      Prod.mk.injEq, add32_eq (show size + (hi - lo - size) < wordSize by omega)] at hc
    obtain ⟨h₁, hused, rfl, rfl⟩ := hc
    obtain ⟨inv, kept⟩ := g.finish (by omega) hused
    exact ⟨_, _, inv, rfl, rfl, Nat.le_add_right _ _,
      hret (addArea_spec false hused).1 (by omega), kept,
      addArea_sameRange false hused⟩

/-! ## Page alignment -/

variable {area : Nat}

lemma alignOffset_eq (hw : area + headerSize < wordSize) :
    alignOffset area = (pageSize - (area + headerSize) % pageSize) % pageSize := by
  simp only [alignOffset, isPageAligned, add32_eq hw, beq_iff_eq]
  by_cases hm : (area + headerSize) % pageSize = 0
  · rw [if_pos hm, hm, Nat.sub_zero, Nat.mod_self]
  · rw [if_neg hm, Nat.mod_eq_of_lt (Nat.sub_lt (by decide) (Nat.pos_of_ne_zero hm))]

lemma add_alignOffset_mod (hw : area + headerSize < wordSize) :
    (area + alignOffset area + headerSize) % pageSize = 0 := by
  rw [alignOffset_eq hw]
  simp only [headerSize, pageSize]
  omega

lemma alignOffset_of_aligned (h : area % pageSize = 0)
    (hw : area + headerSize < wordSize) : headerSize + footerSize < alignOffset area := by
  rw [alignOffset_eq hw]
  simp only [headerSize, footerSize, pageSize] at *
  omega

lemma Gap.growLeft_eq (g : Gap h (l ++ [a]) lo hi r) (hlo : lo ≤ hi) (offset : Nat) :
    growLeft lo offset h.mem = extendArea a.start (lo - footerSize) offset h.mem := by
  have ia := g.intact a (by simp)
  obtain ⟨-, hstop⟩ := tiles_around.mp g.left
  obtain rfl : a.stop = lo := hstop
  have hb := ia.big
  have hs : a.stop = a.start + a.size := rfl
  have hw := (hlo.trans g.le.2).trans_lt g.range.lt
  have hsub : sub32 a.stop footerSize = a.stop - footerSize := sub32_eq hw (by omega)
  simp [growLeft, hsub, ia.footMagic, ia.footHeader, ia.magic]

lemma Gap.giveWaste (g : Gap h l lo hi r) {offset : Nat} (hle : lo + offset ≤ hi)
    (last : ∀ b ∈ l.getLast?, b.tag = false)
    (hl : l = [] → headerSize + footerSize < offset) (hc : giveWaste lo offset h = some h') :
    ∃ l', Gap h' l' (lo + offset) hi r ∧ Kept h.mem (l ++ r) h'.mem (l' ++ r) ∧
      SameRange h h' := by
  unfold KHeap.giveWaste at hc
  split_ifs at hc with hbig
  · obtain ⟨g', -, kept⟩ := g.fillLeft true hc hle fun _ => last
    refine ⟨_, g', kept.mono (fun _ hb _ => hb) ?_, addArea_sameRange true hc⟩
    simp
  · -- too small for an area, so there is one in front of it to grow
    cases hc
    rcases l.eq_nil_or_concat' with rfl | ⟨l', b, rfl⟩
    · exact absurd (hl rfl) hbig
    · rw [g.growLeft_eq (by omega)]
      obtain ⟨g', kept⟩ := g.growLast offset hle
      exact ⟨_, g', kept, .of_eq rfl rfl rfl rfl⟩

lemma Gap.alignArea (g : Gap h l lo hi r) (hsize : sizeOf h.mem lo = hi - lo)
    (hmin : headerSize + footerSize ≤ size) (last : ∀ b ∈ l.getLast?, b.tag = false)
    (hc : alignArea lo size h = some (area, h')) :
    ∃ l', Gap h' l' area hi r ∧ sizeOf h'.mem area = hi - area ∧ area + size ≤ hi ∧
      (area + headerSize) % pageSize = 0 ∧ Kept h.mem (l ++ r) h'.mem (l' ++ r) ∧
      SameRange h h' := by
  have hw : hi < wordSize := g.le.2.trans_lt g.range.lt
  simp only [KHeap.alignArea, hsize, bind_eq_bind, Option.bind_eq_some_iff, kassert_eq_some,
    exists_const, Option.pure_def, Option.some.injEq, Prod.mk.injEq] at hc
  obtain ⟨hlt, hfit, h₁, hwaste, -, -, harea, rfl⟩ := hc
  have hsub : sub32 (hi - lo) (alignOffset lo) = hi - lo - alignOffset lo :=
    sub32_eq (by omega) hlt.le
  have hlow : lo + headerSize < wordSize := by omega
  have hmod := add_alignOffset_mod hlow
  have hfirst : l = [] → headerSize + footerSize < alignOffset lo := by
    rintro rfl
    obtain rfl : h.startAddress = lo := g.left
    exact alignOffset_of_aligned g.range.aligned hlow
  generalize alignOffset lo = offset at *
  rw [hsub] at hfit ⊢
  have hadd : add32 lo offset = lo + offset := add32_eq (by omega)
  rw [hadd] at harea ⊢
  subst harea
  obtain ⟨l', g', kept, same⟩ := g.giveWaste (by omega) last hfirst hwaste
  -- the size field of the new area lies in what remains of the gap
  simp only [headerSize, footerSize] at hmin
  have off : AgreeOff h₁.mem (setSize h₁.mem (lo + offset) (hi - lo - offset)) (lo + offset) hi :=
    AgreeOff.write32 _ le_rfl (by omega)
  refine ⟨l', g'.setMem off, ?_, by omega, hmod, kept.trans (g'.kept off), ?_⟩
  · rw [← Nat.sub_sub]
    exact read32_write32_same _ _ (by omega)
  · exact same.trans (.of_eq rfl rfl rfl rfl)

lemma mem_freeStarts {x : Nat} : x ∈ freeStarts as ↔ ∃ a ∈ as, a.tag = true ∧ a.start = x := by
  simp [freeStarts, and_assoc]

lemma mem_usedStarts {x : Nat} : x ∈ usedStarts as ↔ ∃ a ∈ as, a.tag = false ∧ a.start = x := by
  simp [usedStarts, and_assoc]

/-- An allocation of `size` bytes, records included: `u` is new, and the used areas are kept. -/
structure Allocated (h : Heap) (as : List Area) (size : Nat) (pageAlign : Bool) (p : Nat)
    (h' : Heap) (l : List Area) (u : Area) (r : List Area) : Prop where
  inv : Inv h' (l ++ u :: r)
  used : u.tag = false
  size_le : size ≤ u.size
  ptr : p = dwordAlign (u.start + headerSize)
  aligned : pageAlign = true → (u.start + headerSize) % pageSize = 0
  kept : Kept h.mem as h'.mem (l ++ r)

lemma takeArea_spec (inv : Inv h as) {p : Nat} {pageAlign : Bool}
    (ha : area ∈ freeStarts as) (hmin : headerSize + footerSize ≤ size)
    (hsize : size ≤ sizeOf h.mem area) (hc : takeArea area size pageAlign h = some (p, h')) :
    ∃ l u r, Allocated h as size pageAlign p h' l u r ∧ SameRange h h' := by
  obtain ⟨a, mem, hfree, rfl⟩ := mem_freeStarts.mp ha
  obtain ⟨l, r, rfl⟩ := append_of_mem mem
  obtain ⟨g, last, head⟩ := inv.removeFree hfree
  have ia := inv.intact a (by simp)
  have hs : a.stop = a.start + a.size := rfl
  have hw : a.stop < wordSize := g.le.2.trans_lt g.range.lt
  rw [ia.size] at hsize
  have hsz : sizeOf (h.removeFree a.start).mem a.start = a.stop - a.start := by
    rw [hs, Nat.add_sub_cancel_left]
    exact ia.size
  have kept₀ : Kept h.mem (l ++ a :: r) h.mem (l ++ r) :=
    (Kept.refl h.mem (l ++ r)).of_free hfree
  have same₀ : SameRange h (h.removeFree a.start) := .of_eq rfl rfl rfl rfl
  unfold takeArea at hc
  split_ifs at hc with halign
  · obtain ⟨⟨area, h₁⟩, halign', hc⟩ := bind_eq_some_iff.mp hc
    obtain ⟨l', g₁, hsz₁, hfit, hmod, kept₁, same₁⟩ := g.alignArea hsz hmin last halign'
    obtain ⟨u, r', inv', rfl, hu, hle, hp, kept₂, same₂⟩ := g₁.cutArea hsz₁ hfit head hc
    exact ⟨l', u, r', ⟨inv', hu, hle, hp, fun _ => hmod, (kept₀.trans kept₁).trans kept₂⟩,
      same₀.trans (same₁.trans same₂)⟩
  · obtain ⟨u, r', inv', hu₀, hu, hle, hp, kept, same⟩ := g.cutArea hsz (by omega) head hc
    refine ⟨l, u, r', ⟨inv', hu, hle, hu₀ ▸ hp, fun hpage => ?_, kept₀.trans kept⟩,
      same₀.trans same⟩
    rw [hpage, add32_eq (by omega)] at halign
    simpa [isPageAligned, hu₀] using halign

end ExscapeOS.KHeap
