import Mathlib.Tactic

/-!
# Contiguous parts of a list

The elements with a property stand together in a list. The property survives appending other
elements, and appending to the block while it is still at the end.
-/
namespace ExscapeOS.Lib

variable {α β : Type*} {p : α → Prop} {l m : List α}

def Contiguous (p : α → Prop) (l : List α) : Prop :=
  ∃ before block after, l = before ++ block ++ after ∧
    (∀ x ∈ before, ¬ p x) ∧ (∀ x ∈ block, p x) ∧ ∀ x ∈ after, ¬ p x

namespace Contiguous

lemma of_block (before : ∀ x ∈ l, ¬ p x) (block : ∀ x ∈ m, p x) : Contiguous p (l ++ m) :=
  ⟨l, m, [], by simp, before, block, by simp⟩

lemma of_none (none : ∀ x ∈ l, ¬ p x) : Contiguous p l := by
  simpa using of_block (m := []) none (by simp)

lemma append (h : Contiguous p l) (none : ∀ x ∈ m, ¬ p x) : Contiguous p (l ++ m) := by
  obtain ⟨before, block, after, rfl, hb, hm, ha⟩ := h
  refine ⟨before, block, after ++ m, by simp, hb, hm, ?_⟩
  intro x hx
  rcases List.mem_append.mp hx with hx | hx
  · exact ha x hx
  · exact none x hx

/-- A block stays together if the parts of an element are in it exactly when the element is. -/
theorem flatMap {f : α → List β} {q : β → Prop} (h : Contiguous p l)
    (parts : ∀ x, ∀ y ∈ f x, q y ↔ p x) : Contiguous q (l.flatMap f) := by
  obtain ⟨before, block, after, rfl, hb, hm, ha⟩ := h
  have outside (r : List α) (none : ∀ x ∈ r, ¬ p x) : ∀ y ∈ r.flatMap f, ¬ q y := by
    intro y hy
    obtain ⟨x, hx, hy⟩ := List.mem_flatMap.mp hy
    rw [parts x y hy]
    exact none x hx
  refine ⟨before.flatMap f, block.flatMap f, after.flatMap f, by simp, outside _ hb, ?_,
    outside _ ha⟩
  intro y hy
  obtain ⟨x, hx, hy⟩ := List.mem_flatMap.mp hy
  exact (parts x y hy).mpr (hm x hx)

/-- Nothing stands between two elements of the block. -/
theorem not_between {x y z : α} (h : Contiguous p l) (sub : [x, y, z].Sublist l) (hx : p x)
    (hz : p z) : p y := by
  obtain ⟨before, block, after, rfl, hb, hm, ha⟩ := h
  obtain ⟨front, back, split, sub, hback⟩ := List.sublist_append_iff.mp sub
  -- `z` is not behind the block, so nothing is
  obtain rfl : back = [] := by
    rcases List.eq_nil_or_concat' back with rfl | ⟨back, w, rfl⟩
    · rfl
    · obtain rfl : z = w := by simpa using congrArg List.getLast? split
      exact absurd hz (ha z (hback.subset (by simp)))
  rw [List.append_nil] at split
  subst split
  obtain ⟨front, back, split, hfront, hback⟩ := List.sublist_append_iff.mp sub
  -- and `x` is not in front of it
  cases front with
  | nil =>
    subst split
    exact hm y (hback.subset (by simp))
  | cons w front =>
    obtain rfl : x = w := by simpa using congrArg List.head? split
    exact absurd hx (hb x (hfront.subset (by simp)))

end Contiguous

end ExscapeOS.Lib
