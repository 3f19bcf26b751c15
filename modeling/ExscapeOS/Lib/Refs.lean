import Mathlib.Algebra.BigOperators.Fin
import Mathlib.Algebra.Order.BigOperators.Group.Finset

/-!
# Counting references

A family of tables, one for each owner, whose slots may refer to an object. `refs` is the number of
pairs of an owner and a slot that refer to it. So a change of one slot, one table or one owner
changes it by what that contributes.
-/
namespace ExscapeOS.Lib

open Finset Function

variable {K S F : Type*} [DecidableEq K] [Fintype S] [DecidableEq F]
  {owners : Finset K} {tables : K → S → Option F} {k : K} {f : F}

/-- Changing a function at one point changes a sum over it by that summand. -/
theorem sum_apply_update {A B : Type*} [DecidableEq A] {s : Finset A} {a : A} (mem : a ∈ s)
    (g : B → Nat) (h : A → B) (b : B) :
    ∑ x ∈ s, g (update h a b x) + g (h a) = ∑ x ∈ s, g (h x) + g b := by
  have rest : ∑ x ∈ s.erase a, g (update h a b x) = ∑ x ∈ s.erase a, g (h x) :=
    sum_congr rfl fun x hx => by rw [update_of_ne (ne_of_mem_erase hx)]
  have before := add_sum_erase s (fun x => g (h x)) mem
  have after := add_sum_erase s (fun x => g (update h a b x)) mem
  simp only [update_self] at after
  omega

/-- What one slot contributes. -/
def points (slot : Option F) (f : F) : Nat := if slot = some f then 1 else 0

@[simp] lemma points_none : points none f = 0 := by simp [points]

@[simp] lemma points_self : points (some f) f = 1 := by simp [points]

lemma points_of_ne {slot : Option F} (h : slot ≠ some f) : points slot f = 0 := by
  simp [points, h]

/-- How many slots of a table refer to `f`. -/
def occurrences (table : S → Option F) (f : F) : Nat := ∑ i, points (table i) f

lemma occurrences_update [DecidableEq S] (table : S → Option F) (i : S) (slot : Option F) :
    occurrences (update table i slot) f + points (table i) f =
      occurrences table f + points slot f :=
  sum_apply_update (mem_univ i) (points · f) table slot

lemma points_le_occurrences (table : S → Option F) (i : S) :
    points (table i) f ≤ occurrences table f :=
  single_le_sum_of_canonicallyOrdered (f := fun j => points (table j) f) (mem_univ i)

lemma occurrences_empty {table : S → Option F} (empty : ∀ i, table i = none) :
    occurrences table f = 0 :=
  sum_eq_zero fun i _ => by rw [empty, points_none]

/-- The pairs of an owner and a slot that refer to `f`. -/
def holders (owners : Finset K) (tables : K → S → Option F) (f : F) : Finset (K × S) :=
  (owners ×ˢ univ).filter fun p => tables p.1 p.2 = some f

def refs (owners : Finset K) (tables : K → S → Option F) (f : F) : Nat :=
  (holders owners tables f).card

omit [DecidableEq K] in
lemma refs_pos_iff : 0 < refs owners tables f ↔ ∃ k ∈ owners, ∃ i, tables k i = some f := by
  simp [refs, holders, card_pos, Finset.Nonempty]

omit [DecidableEq K] in
lemma refs_eq_sum : refs owners tables f = ∑ k ∈ owners, occurrences (tables k) f := by
  rw [refs, holders, card_filter, sum_product]
  rfl

lemma refs_update (tables : K → S → Option F) (mem : k ∈ owners) (table : S → Option F) :
    refs owners (update tables k table) f + occurrences (tables k) f =
      refs owners tables f + occurrences table f := by
  rw [refs_eq_sum, refs_eq_sum]
  exact sum_apply_update mem (occurrences · f) tables table

lemma refs_insert (new : k ∉ owners) (table : S → Option F) :
    refs (insert k owners) (update tables k table) f =
      refs owners tables f + occurrences table f := by
  rw [refs_eq_sum, refs_eq_sum, sum_insert new, update_self, add_comm]
  congr 1
  refine sum_congr rfl fun j mem => ?_
  rw [update_of_ne]
  rintro rfl
  exact new mem

lemma refs_erase (tables : K → S → Option F) (mem : k ∈ owners) :
    refs (owners.erase k) tables f + occurrences (tables k) f = refs owners tables f := by
  rw [refs_eq_sum, refs_eq_sum, sum_erase_add _ _ mem]

lemma occurrences_le_refs (mem : k ∈ owners) : occurrences (tables k) f ≤ refs owners tables f := by
  rw [← refs_erase tables mem]
  exact Nat.le_add_left _ _

end ExscapeOS.Lib
