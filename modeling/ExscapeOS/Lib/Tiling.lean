import Mathlib.Tactic

/-!
# Tilings of an interval

A segment is an interval with a label. `Tiles lo segs hi` says that the segments follow each other
without gap or overlap from `lo` to `hi`. Splitting, joining, inserting and resizing are all
instances of `tiles_append`: a stretch of a tiling can be replaced by any other tiling of the same
interval.
-/
namespace ExscapeOS.Lib

structure Seg (β : Type*) where
  start : Nat
  size : Nat
  tag : β

variable {β : Type*}

def Seg.stop (s : Seg β) : Nat := s.start + s.size

def Tiles : Nat → List (Seg β) → Nat → Prop
  | lo, [], hi => lo = hi
  | lo, s :: ss, hi => s.start = lo ∧ Tiles s.stop ss hi

@[simp] lemma tiles_nil {lo hi : Nat} : Tiles lo ([] : List (Seg β)) hi ↔ lo = hi := Iff.rfl

@[simp] lemma tiles_cons {lo hi : Nat} {s : Seg β} {ss : List (Seg β)} :
    Tiles lo (s :: ss) hi ↔ s.start = lo ∧ Tiles s.stop ss hi := Iff.rfl

/-- A tiling can be cut between any two of its segments. -/
theorem tiles_append {lo hi : Nat} {l r : List (Seg β)} :
    Tiles lo (l ++ r) hi ↔ ∃ mid, Tiles lo l mid ∧ Tiles mid r hi := by
  induction l generalizing lo with
  | nil => simp
  | cons s l ih => simp [ih, and_assoc]

theorem tiles_around {lo hi : Nat} {l r : List (Seg β)} {s : Seg β} :
    Tiles lo (l ++ s :: r) hi ↔ Tiles lo l s.start ∧ Tiles s.stop r hi := by
  rw [tiles_append]
  constructor
  · rintro ⟨mid, hl, rfl, hr⟩
    exact ⟨hl, hr⟩
  · rintro ⟨hl, hr⟩
    exact ⟨s.start, hl, rfl, hr⟩

namespace Tiles

variable {lo hi : Nat} {ss : List (Seg β)} {s t : Seg β}

lemma le (h : Tiles lo ss hi) : lo ≤ hi := by
  induction ss generalizing lo with
  | nil => exact h.le
  | cons s ss ih =>
    obtain ⟨rfl, h⟩ := h
    exact (Nat.le_add_right _ _).trans (ih h)

lemma bounds (h : Tiles lo ss hi) (hs : s ∈ ss) : lo ≤ s.start ∧ s.stop ≤ hi := by
  obtain ⟨l, r, rfl⟩ := List.append_of_mem hs
  obtain ⟨hl, hr⟩ := tiles_around.mp h
  exact ⟨hl.le, hr.le⟩

/-- The other segments lie apart from the one in the middle. -/
theorem apart_around {l r : List (Seg β)} (h : Tiles lo (l ++ s :: r) hi) (ht : t ∈ l ++ r) :
    t.stop ≤ s.start ∨ s.stop ≤ t.start := by
  obtain ⟨hl, hr⟩ := tiles_around.mp h
  rcases List.mem_append.mp ht with ht | ht
  · exact .inl (hl.bounds ht).2
  · exact .inr (hr.bounds ht).1

variable (h : Tiles lo ss hi)
include h

/-- Every segment ends before the next ones begin. -/
theorem pairwise : ss.Pairwise fun s t => s.stop ≤ t.start := by
  induction ss generalizing lo with
  | nil => exact .nil
  | cons s ss ih => exact List.pairwise_cons.mpr ⟨fun t ht => (h.2.bounds ht).1, ih h.2⟩

/-- Two segments of a tiling are the same or lie apart. -/
theorem eq_or_apart (hs : s ∈ ss) (ht : t ∈ ss) :
    s = t ∨ s.stop ≤ t.start ∨ t.stop ≤ s.start := by
  obtain ⟨l, r, rfl⟩ := List.append_of_mem hs
  obtain ⟨hl, hr⟩ := tiles_around.mp h
  rcases List.mem_append.mp ht with ht | ht
  · exact .inr (.inr (hl.bounds ht).2)
  · rcases List.mem_cons.mp ht with rfl | ht
    · exact .inl rfl
    · exact .inr (.inl (hr.bounds ht).1)

/-- Nonempty segments are identified by where they start. -/
theorem eq_of_start (pos : ∀ s ∈ ss, 0 < s.size) (hs : s ∈ ss) (ht : t ∈ ss)
    (heq : s.start = t.start) :
    s = t := by
  have hp := pos s hs
  have hq := pos t ht
  rcases h.eq_or_apart hs ht with h | h | h
  · exact h
  all_goals simp only [Seg.stop] at h; omega

lemma starts_nodup (pos : ∀ s ∈ ss, 0 < s.size) :
    (ss.map Seg.start).Nodup := by
  have hp := h.pairwise
  rw [List.Nodup, List.pairwise_map]
  refine hp.imp_of_mem fun {a b} ha _ hab => ?_
  have := pos a ha
  simp only [Seg.stop] at hab
  omega

end Tiles

end ExscapeOS.Lib
