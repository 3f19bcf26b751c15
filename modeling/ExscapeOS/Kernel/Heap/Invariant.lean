import ExscapeOS.Lib.Tiling
import ExscapeOS.Kernel.Heap.Alloc
import ExscapeOS.Kernel.Heap.Free

/-!
# The heap as a tiling by areas

The abstract view of a heap is the list of its areas, a tiling of the addresses from `startAddress`
to `endAddress`. `Intact` relates one area to the bytes of its header and footer, and `Inv` a whole
heap to its list of areas.
-/
namespace ExscapeOS.KHeap

open Lib Lib.Memory

/-- An area of the heap; the tag says whether it is free. -/
abbrev Area : Type := Seg Bool

def typeByte (free : Bool) : UInt8 := if free then areaFree else areaUsed

@[simp] lemma typeByte_true : typeByte true = areaFree := rfl
@[simp] lemma typeByte_false : typeByte false = areaUsed := rfl

lemma typeByte_eq_free {b : Bool} : typeByte b = areaFree ↔ b = true := by
  cases b <;> decide

lemma typeByte_eq_used {b : Bool} : typeByte b = areaUsed ↔ b = false := by
  cases b <;> decide

/-- The bytes of the header and of the footer describe the area. -/
structure Intact (m : Memory) (a : Area) : Prop where
  big : headerSize + footerSize < a.size
  size : sizeOf m a.start = a.size
  type : typeOf m a.start = typeByte a.tag
  magic : magicOf m a.start = heapMagic
  footMagic : footerMagic m (a.stop - footerSize) = heapMagic
  footHeader : footerHeader m (a.stop - footerSize) = a.start

namespace Intact

variable {m m' : Memory} {a : Area}

lemma pos (h : Intact m a) : 0 < a.size := (Nat.zero_le _).trans_lt h.big

lemma congr (h : Intact m a) (head : AgreeOn m m' a.start (a.start + headerSize))
    (foot : AgreeOn m m' (a.stop - footerSize) a.stop) : Intact m' a := by
  have hb := h.big
  simp only [headerSize, footerSize] at *
  have hs : a.stop = a.start + a.size := rfl
  exact ⟨h.big, (head.read32 (by omega) (by omega)).trans h.size,
    (head _ (by omega) (by omega)).trans h.type, (head.read32 (by omega) (by omega)).trans h.magic,
    (foot.read32 (by simp only [footerSize]; omega) (by simp only [footerSize]; omega)).trans
      h.footMagic,
    (foot.read32 (by simp only [footerSize]; omega) (by simp only [footerSize]; omega)).trans
      h.footHeader⟩

lemma of_agree (h : Intact m a) (agree : AgreeOn m m' a.start a.stop) : Intact m' a := by
  have hb := h.big
  simp only [headerSize, footerSize] at hb
  have hs : a.stop = a.start + a.size := rfl
  exact h.congr (agree.mono (by omega) (by simp only [headerSize]; omega))
    (agree.mono (by simp only [footerSize]; omega) (by omega))

lemma footerFromHeader_eq (h : Intact m a) (hw : a.stop < wordSize) :
    footerFromHeader m a.start = a.stop - footerSize := by
  have hb := h.big
  have hs : a.stop = a.start + a.size := rfl
  simp only [headerSize, footerSize] at hb
  unfold footerFromHeader
  rw [h.size, add32_eq (by omega), ← hs, sub32_eq hw (by simp only [footerSize]; omega)]

end Intact

/-! ## Writing records -/

lemma writeFooter_agree (m : Memory) {footer header lo hi : Nat}
    (h : footer + footerSize ≤ lo ∨ hi ≤ footer) :
    AgreeOn m (writeFooter m footer header) lo hi := by
  simp only [footerSize] at h
  exact (AgreeOn.write32 m (by omega)).trans (AgreeOn.write32 _ (by omega))

@[simp] lemma footerMagic_writeFooter (m : Memory) (footer header : Nat) :
    footerMagic (writeFooter m footer header) footer = heapMagic := by
  unfold footerMagic writeFooter setFooterHeader setFooterMagic
  rw [read32_write32_of_disjoint (by omega), read32_write32_same _ _ (by decide)]

lemma footerHeader_writeFooter (m : Memory) (footer : Nat) {header : Nat}
    (h : header < wordSize) : footerHeader (writeFooter m footer header) footer = header := by
  exact read32_write32_same _ _ h

/-- A header written field by field. -/
def writeHeader (m : Memory) (address size : Nat) (type : UInt8) : Memory :=
  setType (setMagic (setSize m address size) address heapMagic) address type

lemma writeHeader_agree (m : Memory) {address size lo hi : Nat} {type : UInt8}
    (h : address + headerSize ≤ lo ∨ hi ≤ address) :
    AgreeOn m (writeHeader m address size type) lo hi := by
  simp only [headerSize] at h
  exact ((AgreeOn.write32 m (by omega)).trans (AgreeOn.write32 _ (by omega))).trans
    (AgreeOn.write8 _ (by omega))

lemma sizeOf_writeHeader (m : Memory) (address : Nat) {size : Nat} (type : UInt8)
    (h : size < wordSize) : sizeOf (writeHeader m address size type) address = size := by
  unfold sizeOf writeHeader setType setMagic setSize
  rw [read32_write8_of_disjoint (by omega), read32_write32_of_disjoint (by omega),
    read32_write32_same _ _ h]

lemma typeOf_writeHeader (m : Memory) (address size : Nat) (type : UInt8) :
    typeOf (writeHeader m address size type) address = type := by
  exact write8_same ..

lemma magicOf_writeHeader (m : Memory) (address size : Nat) (type : UInt8) :
    magicOf (writeHeader m address size type) address = heapMagic := by
  unfold magicOf writeHeader setType setMagic
  rw [read32_write8_of_disjoint (by omega), read32_write32_same _ _ (by decide)]

section writeArea

variable {m : Memory} {address size : Nat} {type : UInt8}

section

variable (hs : headerSize + footerSize < size) (hw : address + size < wordSize)
include hs hw

lemma writeArea_eq :
    writeArea m address size type =
      writeFooter (writeHeader m address size type) (address + size - footerSize) address := by
  simp only [headerSize, footerSize] at hs
  unfold writeArea
  rw [add32_eq hw, sub32_eq hw (by simp only [footerSize]; omega)]
  rfl

lemma writeArea_agree {lo hi : Nat} (h : hi ≤ address ∨ address + size ≤ lo) :
    AgreeOn m (writeArea m address size type) lo hi := by
  rw [writeArea_eq hs hw]
  simp only [headerSize, footerSize] at hs
  exact (writeHeader_agree m (by simp only [headerSize]; omega)).trans
    (writeFooter_agree _ (by simp only [footerSize]; omega))

lemma writeArea_agreeOff : AgreeOff m (writeArea m address size type) address (address + size) := by
  intro b hb
  have at_b : AgreeOn m (writeArea m address size type) b (b + 1) :=
    writeArea_agree hs hw (by omega)
  exact at_b b le_rfl (by omega)

end

lemma intact_writeArea (free : Bool) (hs : headerSize + footerSize < size)
    (hw : address + size < wordSize) :
    Intact (writeArea m address size (typeByte free)) ⟨address, size, free⟩ := by
  rw [writeArea_eq hs hw]
  have hb := hs
  simp only [headerSize, footerSize] at hb
  have head : AgreeOn (writeHeader m address size (typeByte free))
      (writeFooter (writeHeader m address size (typeByte free)) (address + size - footerSize)
        address) address (address + headerSize) :=
    writeFooter_agree _ (by simp only [headerSize, footerSize]; omega)
  refine ⟨hs, ?_, ?_, ?_, footerMagic_writeFooter .., footerHeader_writeFooter _ _ (by omega)⟩
  · exact (head.read32 le_rfl (by simp only [headerSize]; omega)).trans
      (sizeOf_writeHeader _ _ _ (by omega))
  · exact (head (address + 4) (by omega) (by simp only [headerSize]; omega)).trans
      (typeOf_writeHeader ..)
  · exact (head.read32 (a := address + 8) (by omega) (by simp only [headerSize]; omega)).trans
      (magicOf_writeHeader ..)

end writeArea

/-! ## The invariant -/

/-- The header addresses of the free areas, in address order. -/
def freeStarts (as : List Area) : List Nat := (as.filter (·.tag)).map Seg.start

/-- The header addresses of the used areas, in address order. -/
def usedStarts (as : List Area) : List Nat := (as.filter (!·.tag)).map Seg.start

@[simp] lemma freeStarts_append (l r : List Area) :
    freeStarts (l ++ r) = freeStarts l ++ freeStarts r := by simp [freeStarts]

@[simp] lemma usedStarts_append (l r : List Area) :
    usedStarts (l ++ r) = usedStarts l ++ usedStarts r := by simp [usedStarts]

@[simp] lemma freeStarts_cons (a : Area) (as : List Area) :
    freeStarts (a :: as) = if a.tag then a.start :: freeStarts as else freeStarts as := by
  unfold freeStarts
  split_ifs with h <;> simp [h]

@[simp] lemma usedStarts_cons (a : Area) (as : List Area) :
    usedStarts (a :: as) = if a.tag then usedStarts as else a.start :: usedStarts as := by
  unfold usedStarts
  split_ifs with h <;> simp [h]

/-- Not both free. -/
def Apart (a b : Area) : Prop := ¬ (a.tag = true ∧ b.tag = true)

/-- What holds of the address range of the heap throughout. -/
structure Range (h : Heap) : Prop where
  aligned : h.startAddress % pageSize = 0
  pos : 0 < h.startAddress
  stopAligned : h.endAddress % pageSize = 0
  lt : h.endAddress < wordSize
  le_max : h.startAddress ≤ h.maxAddress

/-- `x` is where the last area starts. -/
def IsLast (x : Nat) (as : List Area) : Prop := ∃ a, as.getLast? = some a ∧ x = a.start

lemma isLast_concat {x : Nat} {l : List Area} {a : Area} :
    IsLast x (l ++ [a]) ↔ x = a.start := by simp [IsLast]

lemma isLast_append {x : Nat} {l r : List Area} (hr : r ≠ []) :
    IsLast x (l ++ r) ↔ IsLast x r := by
  rcases r.eq_nil_or_concat' with rfl | ⟨r', b, rfl⟩
  · exact absurd rfl hr
  · rw [← List.append_assoc, isLast_concat, isLast_concat]

/-- The heap `h` consists of the areas `as`. -/
structure Inv (h : Heap) (as : List Area) : Prop where
  range : Range h
  tiles : Tiles h.startAddress as h.endAddress
  intact : ∀ a ∈ as, Intact h.mem a
  free : h.freeIndex.items.Perm (freeStarts as)
  used : h.usedIndex.items.Perm (usedStarts as)
  apart : as.IsChain Apart
  rightmost : IsLast h.rightmostArea as

/-- The areas `l`, a gap from `lo` to `hi`, and the areas `r`, while an allocation cuts up a hole.
-/
structure Gap (h : Heap) (l : List Area) (lo hi : Nat) (r : List Area) : Prop where
  range : Range h
  left : Tiles h.startAddress l lo
  right : Tiles hi r h.endAddress
  intact : ∀ a ∈ l ++ r, Intact h.mem a
  free : h.freeIndex.items.Perm (freeStarts (l ++ r))
  used : h.usedIndex.items.Perm (usedStarts (l ++ r))
  apartLeft : l.IsChain Apart
  apartRight : r.IsChain Apart
  rightmost : if r = [] then h.rightmostArea ≤ lo else IsLast h.rightmostArea r

/-- Every used area of `as` is still there, with the same data, and not smaller. -/
def Kept (m : Memory) (as : List Area) (m' : Memory) (as' : List Area) : Prop :=
  ∀ a ∈ as, a.tag = false → ∃ a' ∈ as', a'.tag = false ∧ a'.start = a.start ∧ a.size ≤ a'.size ∧
    AgreeOn m m' (a.start + headerSize) (a.stop - footerSize)

namespace Kept

variable {m m' m'' : Memory} {as as' as'' : List Area}

lemma refl (m : Memory) (as : List Area) : Kept m as m as :=
  fun a ha hu => ⟨a, ha, hu, rfl, le_rfl, .refl _ _ _⟩

lemma trans (h : Kept m as m' as') (g : Kept m' as' m'' as'') : Kept m as m'' as'' := by
  intro a ha hu
  obtain ⟨b, hb, hbu, hbs, hbz, hab⟩ := h a ha hu
  obtain ⟨c, hc, hcu, hcs, hcz, hbc⟩ := g b hb hbu
  refine ⟨c, hc, hcu, hcs.trans hbs, hbz.trans hcz, hab.trans (hbc.mono (by omega) ?_)⟩
  simp only [Seg.stop]
  omega

lemma of_agree (h : ∀ a ∈ as, AgreeOn m m' a.start a.stop) : Kept m as m' as :=
  fun a ha hu => ⟨a, ha, hu, rfl, le_rfl, (h a ha).mono (by omega) (by omega)⟩

lemma mono (h : Kept m as m' as') {bs bs' : List Area} (hb : ∀ a ∈ bs, a.tag = false → a ∈ as)
    (hb' : as' ⊆ bs') : Kept m bs m' bs' := by
  intro a ha hu
  obtain ⟨b, hb, h⟩ := h a (hb a ha hu) hu
  exact ⟨b, hb' hb, h⟩

lemma of_free {l r : List Area} {a : Area} (h : Kept m (l ++ r) m' as') (hfree : a.tag = true) :
    Kept m (l ++ a :: r) m' as' := by
  refine h.mono (fun b hb hu => ?_) (List.Subset.refl _)
  have hba : b ≠ a := by
    rintro rfl
    simp [hu] at hfree
  simpa [hba] using hb

end Kept

lemma append_subset_around (l r : List Area) (a : Area) : l ++ r ⊆ l ++ a :: r :=
  List.append_subset.mpr ⟨List.subset_append_left _ _,
    List.Subset.trans (List.subset_cons_self a r) (List.subset_append_right _ _)⟩

/-! ## Opening and closing a gap -/

lemma perm_middle_erase {xs l r : List Nat} {x : Nat} (h : xs.Perm (l ++ x :: r)) :
    (xs.erase x).Perm (l ++ r) := by
  have h' := (h.trans List.perm_middle).erase x
  rwa [List.erase_cons_head] at h'

lemma isChain_around {l r : List Area} {a : Area} (h : (l ++ a :: r).IsChain Apart)
    (ha : a.tag = true) :
    l.IsChain Apart ∧ r.IsChain Apart ∧ (∀ b ∈ l.getLast?, b.tag = false) ∧
      (∀ b ∈ r.head?, b.tag = false) := by
  obtain ⟨hl, har, hla⟩ := List.isChain_append.mp h
  obtain ⟨hr, hc⟩ := List.isChain_cons.mp har
  refine ⟨hl, hc, fun b hb => ?_, fun b hb => ?_⟩
  · simpa [Apart, ha] using hla b hb a (by simp)
  · simpa [Apart, ha] using hr b hb

variable {h h' : Heap} {as l r : List Area} {lo hi : Nat} {a : Area}

lemma Inv.stop_lt (inv : Inv h as) (ha : a ∈ as) : a.stop < wordSize :=
  (inv.tiles.bounds ha).2.trans_lt inv.range.lt

lemma Inv.removeFree (inv : Inv h (l ++ a :: r)) (ha : a.tag = true) :
    Gap (h.removeFree a.start) l a.start a.stop r ∧ (∀ b ∈ l.getLast?, b.tag = false) ∧
      (∀ b ∈ r.head?, b.tag = false) := by
  obtain ⟨hl, hr, hlast, hhead⟩ := isChain_around inv.apart ha
  obtain ⟨tl, tr⟩ := tiles_around.mp inv.tiles
  refine ⟨⟨⟨inv.range.1, inv.range.2, inv.range.3, inv.range.4, inv.range.5⟩, tl, tr,
    fun b hb => inv.intact b (append_subset_around l r a hb), ?_, ?_, hl, hr, ?_⟩, hlast, hhead⟩
  · have hf := inv.free
    simp only [freeStarts_append, freeStarts_cons, ha, if_true] at hf
    simpa [Heap.removeFree] using perm_middle_erase hf
  · simpa [ha, Heap.removeFree] using inv.used
  · have hlast := (isLast_append (List.cons_ne_nil a r)).mp inv.rightmost
    split_ifs with hr
    · subst hr
      exact (isLast_concat (l := [])).mp hlast |>.le
    · exact (isLast_append (l := [a]) hr).mp hlast

namespace Gap

section

variable (g : Gap h l lo hi r)
include g

lemma le : h.startAddress ≤ lo ∧ hi ≤ h.endAddress :=
  ⟨g.left.le, g.right.le⟩

lemma outside (ha : a ∈ l ++ r) : a.stop ≤ lo ∨ hi ≤ a.start := by
  rcases List.mem_append.mp ha with ha | ha
  · exact .inl (g.left.bounds ha).2
  · exact .inr (g.right.bounds ha).1

lemma agree {m : Memory} (off : AgreeOff h.mem m lo hi) (ha : a ∈ l ++ r) :
    AgreeOn h.mem m a.start a.stop :=
  off.on (g.outside ha)

lemma setMem {m : Memory} (off : AgreeOff h.mem m lo hi) : Gap { h with mem := m } l lo hi r where
  range := ⟨g.range.1, g.range.2, g.range.3, g.range.4, g.range.5⟩
  left := g.left
  right := g.right
  intact a ha := (g.intact a ha).of_agree (g.agree off ha)
  free := g.free
  used := g.used
  apartLeft := g.apartLeft
  apartRight := g.apartRight
  rightmost := g.rightmost

lemma kept {m : Memory} (off : AgreeOff h.mem m lo hi) :
    Kept h.mem (l ++ r) m (l ++ r) := .of_agree fun _ ha => g.agree off ha

end

lemma close (g : Gap h l hi hi r) (apart : (l ++ r).IsChain Apart)
    (last : IsLast h.rightmostArea (l ++ r)) : Inv h (l ++ r) :=
  ⟨g.range, tiles_append.mpr ⟨hi, g.left, g.right⟩, g.intact, g.free, g.used, apart, last⟩

end Gap

/-! ## Writing to memory the heap does not use itself -/

lemma Inv.setMem (inv : Inv h as) {m : Memory} (intact : ∀ a ∈ as, Intact m a) :
    Inv { h with mem := m } as :=
  ⟨⟨inv.range.1, inv.range.2, inv.range.3, inv.range.4, inv.range.5⟩, inv.tiles, intact, inv.free,
    inv.used, inv.apart, inv.rightmost⟩

lemma Inv.setMem_outside (inv : Inv h as) {m : Memory}
    (on : AgreeOn h.mem m h.startAddress h.endAddress) :
    Inv { h with mem := m } as ∧ Kept h.mem as m as := by
  have same (a : Area) (ha : a ∈ as) : AgreeOn h.mem m a.start a.stop :=
    on.mono (inv.tiles.bounds ha).1 (inv.tiles.bounds ha).2
  exact ⟨inv.setMem fun a ha => (inv.intact a ha).of_agree (same a ha), .of_agree same⟩

lemma Inv.setData (inv : Inv h (l ++ a :: r)) {m : Memory}
    (off : AgreeOff h.mem m (a.start + headerSize) (a.stop - footerSize)) :
    Inv { h with mem := m } (l ++ a :: r) ∧ Kept h.mem (l ++ r) m (l ++ r) := by
  have others (b : Area) (hb : b ∈ l ++ r) : AgreeOn h.mem m b.start b.stop :=
    off.on ((inv.tiles.apart_around hb).imp (by omega) (by omega))
  refine ⟨inv.setMem fun b hb => ?_, .of_agree others⟩
  by_cases hba : b = a
  · subst hba
    exact (inv.intact b hb).congr (off.on (.inl le_rfl)) (off.on (.inr le_rfl))
  · exact (inv.intact b hb).of_agree (others b (by simpa [hba] using hb))

/-! ## Blocks -/

/-- A block of a client: its address, the number of bytes asked for, and whether page aligned. -/
structure Block where
  ptr : Nat
  size : Nat
  pageAlign : Bool
  deriving DecidableEq

/-- The block lies in the used area `a`, where `heap_alloc` puts it. -/
structure Fits (b : Block) (a : Area) : Prop where
  used : a.tag = false
  ptr : b.ptr = dwordAlign (a.start + headerSize)
  le : b.ptr + b.size ≤ a.stop - footerSize
  aligned : b.pageAlign = true → b.ptr % pageSize = 0

/-- The blocks `bs` lie in areas of `as`, no two at one address. -/
structure Holds (as : List Area) (bs : List Block) : Prop where
  nodup : (bs.map Block.ptr).Nodup
  fits : ∀ b ∈ bs, ∃ a ∈ as, Fits b a

/-- The blocks that hold page tables. -/
def tableBlocks (h : Heap) : List Block := h.tables.map (⟨·, pageSize, true⟩)

lemma dwordAlign_bounds {x : Nat} (hw : x + 4 < wordSize) :
    x ≤ dwordAlign x ∧ dwordAlign x ≤ x + 3 ∧ dwordAlign x % 4 = 0 := by
  unfold dwordAlign
  split_ifs
  · omega
  · rw [add32_eq (by omega)]
    omega

lemma dwordAlign_of_aligned {x : Nat} (h : x % pageSize = 0) : dwordAlign x = x := by
  simp only [pageSize] at h
  exact if_pos (by omega)

lemma Fits.bounds {b : Block} (f : Fits b a) {m : Memory} (ia : Intact m a)
    (hw : a.stop < wordSize) : a.start + headerSize ≤ b.ptr ∧ b.ptr % 4 = 0 := by
  have hb := ia.big
  have hs : a.stop = a.start + a.size := rfl
  simp only [footerSize] at hb
  obtain ⟨hle, -, hmod⟩ := dwordAlign_bounds (x := a.start + headerSize) (by omega)
  rw [← f.ptr] at hle hmod
  exact ⟨hle, hmod⟩

lemma Fits.grow {b : Block} (f : Fits b a) {a' : Area} (hu : a'.tag = false)
    (hs : a'.start = a.start) (hz : a.size ≤ a'.size) : Fits b a' := by
  refine ⟨hu, hs ▸ f.ptr, f.le.trans ?_, f.aligned⟩
  simp only [Seg.stop, hs]
  omega

namespace Holds

variable {bs bs' : List Block}

lemma perm (hold : Holds as bs) (hp : bs.Perm bs') : Holds as bs' :=
  ⟨(hp.map Block.ptr).nodup_iff.mp hold.nodup, fun b hb => hold.fits b (hp.mem_iff.mpr hb)⟩

lemma kept (hold : Holds as bs) {m m' : Memory} {as' : List Area} (kept : Kept m as m' as') :
    Holds as' bs := by
  refine ⟨hold.nodup, fun b hb => ?_⟩
  obtain ⟨a, ha, f⟩ := hold.fits b hb
  obtain ⟨a', ha', hu, hs, hz, -⟩ := kept a ha f.used
  exact ⟨a', ha', f.grow hu hs hz⟩

lemma shrink {p n n' : Nat} {pageAlign : Bool} (hold : Holds as (⟨p, n', pageAlign⟩ :: bs))
    (hn : n ≤ n') : Holds as (⟨p, n, pageAlign⟩ :: bs) := by
  refine ⟨hold.nodup, fun b hb => ?_⟩
  rcases List.mem_cons.mp hb with rfl | hb
  · obtain ⟨a, ha, f⟩ := hold.fits _ List.mem_cons_self
    exact ⟨a, ha, f.used, f.ptr, (Nat.add_le_add_left hn p).trans f.le, f.aligned⟩
  · exact hold.fits b (List.mem_cons_of_mem _ hb)

/-- What is kept for the areas is kept for the blocks in them. -/
lemma agree (hold : Holds as bs) {m m' : Memory} {as' : List Area}
    (intact : ∀ a ∈ as, Intact m a ∧ a.stop < wordSize) (kept : Kept m as m' as') {b : Block}
    (hb : b ∈ bs) : AgreeOn m m' b.ptr (b.ptr + b.size) := by
  obtain ⟨a, ha, f⟩ := hold.fits b hb
  obtain ⟨-, -, -, -, -, on⟩ := kept a ha f.used
  obtain ⟨ia, hw⟩ := intact a ha
  exact on.mono (f.bounds ia hw).1 f.le

end Holds

end ExscapeOS.KHeap
