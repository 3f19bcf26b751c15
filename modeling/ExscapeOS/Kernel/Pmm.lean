import ExscapeOS.Lib.Search
import ExscapeOS.Lib.Word

/-!
# The physical frame allocator

`pmm.c` keeps one bit for each frame, and the frame it has handed out last. The search for a free
frame starts a word of the bitmap before that one, but it misses no free frame: everything below the
last frame is in use, because a search takes the first free frame that it sees, and because after
`pmm_free` the next search starts at the front.
-/
namespace ExscapeOS

open Lib Function

/-- `nframes`, `used_frames` and `last_allocated_frame`, which is 0 here for `0xffffffff`. A frame
is its physical address over `PAGE_SIZE`. -/
structure Pmm where
  nframes : Nat
  used : Nat → Bool
  last : Nat
  packed : ∀ f < last, used f = true

namespace Pmm

variable {p p' : Pmm} {f g : Nat} {used : Nat → Bool}

/-! ## The search -/

/-- The first free frame in a word of the bitmap. -/
def freeInWord (used : Nat → Bool) (w : Nat) : Option Nat :=
  (List.range' 0 32).findSome? fun offset =>
    if used (w * 32 + offset) then none else some (w * 32 + offset)

/-- `_pmm_first_free_frame`: from the word before that of `start` on. -/
def firstFreeFrame (nframes : Nat) (used : Nat → Bool) (start : Nat) : Option Nat :=
  (List.range' (start / 32 - 1) (nframes / 32 - (start / 32 - 1))).findSome? (freeInWord used)

lemma freeInWord_eq_some {w : Nat} (h : freeInWord used w = some f) :
    f / 32 = w ∧ used f = false ∧ ∀ g < f, g / 32 = w → used g = true := by
  obtain ⟨offset, -, lt, found, first⟩ := findSome?_range'_eq_some h
  split_ifs at found with free
  cases found
  refine ⟨by omega, Bool.eq_false_iff.mpr free, fun g below word => ?_⟩
  have before := first (g - w * 32) (Nat.zero_le _) (by omega)
  split_ifs at before with full
  rwa [show w * 32 + (g - w * 32) = g by omega] at full

lemma freeInWord_eq_none {w : Nat} (h : freeInWord used w = none) (word : g / 32 = w) :
    used g = true := by
  have full := findSome?_range'_eq_none.mp h (g - w * 32) (Nat.zero_le _) (by omega)
  split_ifs at full with inUse
  rwa [show w * 32 + (g - w * 32) = g by omega] at inUse

lemma firstFreeFrame_eq_some {nframes : Nat} {start : Nat}
    (h : firstFreeFrame nframes used start = some f) : f / 32 < nframes / 32 ∧ used f = false ∧
      ∀ g < f, start / 32 - 1 ≤ g / 32 → used g = true := by
  obtain ⟨w, ge, lt, found, first⟩ := findSome?_range'_eq_some h
  obtain ⟨word, free, before⟩ := freeInWord_eq_some found
  refine ⟨by omega, free, fun g below later => ?_⟩
  by_cases same : g / 32 = w
  · exact before g below same
  · exact freeInWord_eq_none (first (g / 32) later (by omega)) rfl

lemma firstFreeFrame_eq_none {nframes : Nat} {start : Nat}
    (h : firstFreeFrame nframes used start = none) (low : start / 32 - 1 ≤ g / 32)
    (high : g / 32 < nframes / 32) : used g = true :=
  freeInWord_eq_none (findSome?_range'_eq_none.mp h (g / 32) low (by omega)) rfl

/-! ## Allocation -/

lemma packed_of_first (h : firstFreeFrame p.nframes p.used p.last = some f) :
    ∀ g < f, update p.used f true g = true := by
  intro g below
  rw [update_of_ne below.ne]
  by_cases low : p.last / 32 - 1 ≤ g / 32
  · exact (firstFreeFrame_eq_some h).2.2 g below low
  · exact p.packed g (by omega)

def alloc (p : Pmm) : Option (Nat × Pmm) :=
  match h : firstFreeFrame p.nframes p.used p.last with
  | none => none
  | some f => some (f, { p with
      used := update p.used f true, last := f, packed := packed_of_first h })

def free (f : Nat) (p : Pmm) : Option Pmm :=
  if f / 32 ≤ p.nframes / 32 ∧ p.used f = true then
    some { p with used := update p.used f false, last := 0, packed := nofun }
  else none

/-- `_pmm_set_frame`, where it reserves a frame. -/
def reserve (f : Nat) (p : Pmm) : Option Pmm :=
  if f / 32 ≤ p.nframes / 32 ∧ p.used f = false then
    some { p with
      used := update p.used f true
      packed := fun g below => by simp [update_apply, p.packed g below] }
  else none

/-- The frames that `pmm_alloc` can hand out. -/
def avail (p : Pmm) : Finset Nat :=
  (Finset.range (p.nframes / 32 * 32)).filter fun f => p.used f = false

lemma mem_avail : f ∈ p.avail ↔ f / 32 < p.nframes / 32 ∧ p.used f = false := by
  rw [avail, Finset.mem_filter, Finset.mem_range, Nat.div_lt_iff_lt_mul (by decide)]

/-- The frames that `pmm_alloc` has handed out. -/
def pooled (p : Pmm) (f : Nat) : Bool := p.used f && decide (f / 32 < p.nframes / 32)

lemma pooled_iff : p.pooled f = true ↔ p.used f = true ∧ f / 32 < p.nframes / 32 := by
  rw [pooled, Bool.and_eq_true, decide_eq_true_iff]

lemma alloc_spec (h : p.alloc = some (f, p')) : f ∈ p.avail ∧ p'.nframes = p.nframes ∧
    p'.used = update p.used f true := by
  unfold alloc at h
  split at h
  · cases h
  · case h_2 g found =>
    obtain ⟨rfl, rfl⟩ := h
    have spec := firstFreeFrame_eq_some found
    exact ⟨mem_avail.mpr ⟨spec.1, spec.2.1⟩, rfl, rfl⟩

lemma alloc_eq_none (h : firstFreeFrame p.nframes p.used p.last = none) : p.alloc = none := by
  unfold alloc
  split
  · rfl
  · simp_all

lemma alloc_eq_some (h : firstFreeFrame p.nframes p.used p.last = some f) :
    ∃ p', p.alloc = some (f, p') ∧ p'.nframes = p.nframes ∧ p'.used = update p.used f true ∧
      p'.last = f := by
  unfold alloc
  split
  · simp_all
  · case h_2 g found =>
    obtain rfl := Option.some.inj (h.symm.trans found)
    exact ⟨_, rfl, rfl, rfl, rfl⟩

lemma alloc_isSome_iff : p.alloc.isSome ↔ p.avail.Nonempty := by
  constructor
  · intro some
    obtain ⟨⟨f, p'⟩, h⟩ := Option.isSome_iff_exists.mp some
    exact ⟨f, (alloc_spec h).1⟩
  · rintro ⟨f, mem⟩
    obtain ⟨high, free⟩ := mem_avail.mp mem
    unfold alloc
    split
    · case h_1 none =>
      -- the search starts too late for `f` only if `f` is in use
      by_cases low : p.last / 32 - 1 ≤ f / 32
      · rw [firstFreeFrame_eq_none none low high] at free
        cases free
      · rw [p.packed f (by omega)] at free
        cases free
    · rfl

lemma alloc_avail (h : p.alloc = some (f, p')) : p'.avail = p.avail.erase f := by
  obtain ⟨-, nframes, used⟩ := alloc_spec h
  ext g
  simp only [Finset.mem_erase, mem_avail, nframes, used, update_apply]
  by_cases own : g = f <;> simp [own]

/-- Some free frames have been taken. -/
structure Extends (p p' : Pmm) : Prop where
  nframes : p'.nframes = p.nframes
  used : ∀ f, p.used f = true → p'.used f = true
  high : ∀ f, ¬ f / 32 < p.nframes / 32 → p'.used f = p.used f

namespace Extends

lemma refl (p : Pmm) : p.Extends p := ⟨rfl, fun _ => id, fun _ _ => rfl⟩

lemma trans {p'' : Pmm} (h : p.Extends p') (h' : p'.Extends p'') : p.Extends p'' where
  nframes := h'.nframes.trans h.nframes
  used f used := h'.used f (h.used f used)
  high f high := (h'.high f (h.nframes ▸ high)).trans (h.high f high)

lemma avail_subset (h : p.Extends p') : p'.avail ⊆ p.avail := by
  intro f mem
  obtain ⟨low, free⟩ := mem_avail.mp mem
  refine mem_avail.mpr ⟨h.nframes ▸ low, ?_⟩
  by_contra before
  rw [h.used f (by simpa using before)] at free
  cases free

lemma pooled (h : p.Extends p') (before : p.pooled f = true) : p'.pooled f = true := by
  rw [pooled_iff] at before ⊢
  exact ⟨h.used f before.1, h.nframes ▸ before.2⟩

lemma used_eq (h : p.Extends p') (same : p'.avail.card = p.avail.card) : p'.used = p.used := by
  have avail : p'.avail = p.avail := Finset.eq_of_subset_of_card_le h.avail_subset same.ge
  funext f
  by_cases low : f / 32 < p.nframes / 32
  · have iff : p'.used f = false ↔ p.used f = false := by
      have mem := Finset.ext_iff.mp avail f
      rw [mem_avail, mem_avail, h.nframes] at mem
      simpa [low] using mem
    cases before : p.used f with
    | false => exact iff.mpr before
    | true => exact h.used f before
  · exact h.high f low

end Extends

lemma alloc_extends (h : p.alloc = some (f, p')) : p.Extends p' := by
  obtain ⟨mem, nframes, used⟩ := alloc_spec h
  refine ⟨nframes, fun g before => ?_, fun g high => ?_⟩
  · simp [used, update_apply, before]
  · rw [used, update_of_ne]
    rintro rfl
    exact high (mem_avail.mp mem).1

lemma free_spec (h : p.free f = some p') : p'.nframes = p.nframes ∧
    p'.used = update p.used f false := by
  unfold free at h
  split_ifs at h with ok
  cases h
  exact ⟨rfl, rfl⟩

lemma free_pooled (h : p.free f = some p') : p'.pooled = update p.pooled f false := by
  obtain ⟨nframes, used⟩ := free_spec h
  funext g
  rw [pooled, nframes, used]
  by_cases own : g = f <;> simp [own, pooled]

end Pmm

end ExscapeOS
