import Mathlib.Tactic

/-!
# Machine words and failing computations

Addresses and sizes are natural numbers; `add32` and `sub32` are the wrapping operations of a 32-bit
machine. A computation that can stop the machine returns an `Option`: `none` is a panic, and
`kassert` is an assertion.
-/
namespace ExscapeOS.Lib

/-- The number of values of a 32-bit word. -/
def wordSize : Nat := 2 ^ 32

def add32 (a b : Nat) : Nat := (a + b) % wordSize

def sub32 (a b : Nat) : Nat := (a + (wordSize - b % wordSize)) % wordSize

/-- A 32-bit word read as a two's complement integer. -/
def signed32 (a : Nat) : Int := if a < 2 ^ 31 then a else (a : Int) - 2 ^ 32

/-- An integer as a 64-bit two's complement integer. -/
def wrap64 (x : Int) : Int := (x + 2 ^ 63) % 2 ^ 64 - 2 ^ 63

lemma wrap64_eq {x : Int} (ge : -2 ^ 63 ≤ x) (lt : x < 2 ^ 63) : wrap64 x = x := by
  unfold wrap64
  omega

lemma wrap64_neg {x : Int} (ge : -2 ^ 63 ≤ x) (lt : x < 2 ^ 64) (outside : ¬ (0 ≤ x ∧ x < 2 ^ 63)) :
    wrap64 x < 0 := by
  unfold wrap64
  omega

lemma add32_lt (a b : Nat) : add32 a b < wordSize := Nat.mod_lt _ (by decide)

lemma sub32_lt (a b : Nat) : sub32 a b < wordSize := Nat.mod_lt _ (by decide)

lemma add32_eq {a b : Nat} (h : a + b < wordSize) : add32 a b = a + b := Nat.mod_eq_of_lt h

lemma sub32_eq {a b : Nat} (ha : a < wordSize) (h : b ≤ a) : sub32 a b = a - b := by
  unfold sub32 wordSize at *
  omega

/-- An assertion of the source: execution continues only when it holds. -/
def kassert (p : Prop) [Decidable p] : Option Unit := if p then some () else none

@[simp] lemma kassert_eq_some {p : Prop} [Decidable p] {u : Unit} :
    kassert p = some u ↔ p := by
  unfold kassert
  split_ifs with h <;> simp [h]

@[simp] lemma kassert_bind_eq_some {α : Type*} {p : Prop} [Decidable p] {f : Unit → Option α}
    {a : α} : (kassert p).bind f = some a ↔ p ∧ f () = some a := by
  unfold kassert
  split_ifs with h <;> simp [h]

end ExscapeOS.Lib
