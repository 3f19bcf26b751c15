import Mathlib.Algebra.Order.Group.Nat
import Mathlib.Tactic.Common

/-!
# Walking an interval

A loop over the numbers from `a` on that stops at the first result is `findSome?` on `List.range'`.
A loop over all numbers below a bound is `foldl` on `List.range`.
-/
namespace ExscapeOS.Lib

variable {B : Type*} {g : Nat → Option B} {a n : Nat} {b : B}

lemma findSome?_range'_eq_some (h : (List.range' a n).findSome? g = some b) :
    ∃ k, a ≤ k ∧ k < a + n ∧ g k = some b ∧ ∀ j, a ≤ j → j < k → g j = none := by
  induction n generalizing a with
  | zero => simp at h
  | succ n ih =>
    rw [List.range'_succ, List.findSome?_cons] at h
    cases head : g a with
    | some c =>
      rw [head] at h
      exact ⟨a, le_rfl, by omega, by rw [head]; exact h, fun j ge lt => absurd lt ge.not_gt⟩
    | none =>
      rw [head] at h
      obtain ⟨k, ge, lt, found, first⟩ := ih h
      refine ⟨k, by omega, by omega, found, fun j ge' lt' => ?_⟩
      rcases ge'.eq_or_lt with rfl | above
      · exact head
      · exact first j above lt'

lemma findSome?_range'_eq_none :
    (List.range' a n).findSome? g = none ↔ ∀ k, a ≤ k → k < a + n → g k = none := by
  simp only [List.findSome?_eq_none_iff, List.mem_range'_1, and_imp]

lemma findSome?_congr {A : Type*} {l : List A} {f h : A → Option B} (same : ∀ a ∈ l, f a = h a) :
    l.findSome? f = l.findSome? h := by
  induction l with
  | nil => rfl
  | cons a l ih =>
    obtain ⟨first, rest⟩ := List.forall_mem_cons.mp same
    rw [List.findSome?_cons, List.findSome?_cons, first, ih rest]

/-- The loop invariant: after `k` rounds the value is `F k`. -/
lemma foldl_range {f : B → Nat → B} {F : Nat → B} (init : F 0 = b)
    (next : ∀ k < n, f (F k) k = F (k + 1)) : (List.range n).foldl f b = F n := by
  induction n with
  | zero => exact init.symm
  | succ n ih =>
    rw [List.range_succ, List.foldl_append, ih fun k lt => next k (by omega)]
    exact next n (by omega)

end ExscapeOS.Lib
