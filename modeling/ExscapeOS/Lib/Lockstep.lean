import ExscapeOS.Lib.Word

/-!
# Two computations in lockstep

`Lockstep R x y` says that both computations stop or both have results, and these are related by
`R`. To show this for two programs one follows them bind by bind.
-/
namespace ExscapeOS.Lib

variable {A B C D : Type*} {R R' : A → B → Prop} {S : C → D → Prop} {x : Option A} {y : Option B}

inductive Lockstep (R : A → B → Prop) : Option A → Option B → Prop where
  | stop : Lockstep R none none
  | both {a : A} {b : B} : R a b → Lockstep R (some a) (some b)

namespace Lockstep

lemma bind {f : A → Option C} {g : B → Option D} (h : Lockstep R x y)
    (next : ∀ a b, x = some a → y = some b → R a b → Lockstep S (f a) (g b)) :
    Lockstep S (x.bind f) (y.bind g) := by
  cases h with
  | stop => exact .stop
  | both related => exact next _ _ rfl rfl related

lemma imp (h : Lockstep R x y) (weaker : ∀ a b, x = some a → y = some b → R a b → R' a b) :
    Lockstep R' x y := by
  cases h with
  | stop => exact .stop
  | both related => exact .both (weaker _ _ rfl rfl related)

lemma eq_none_iff (h : Lockstep R x y) : x = none ↔ y = none := by
  cases h <;> simp

/-- If the first has a result, so has the second. -/
theorem of_some {a : A} (h : Lockstep R x y) (ran : x = some a) : ∃ b, y = some b ∧ R a b := by
  cases h with
  | stop => cases ran
  | both related =>
    cases ran
    exact ⟨_, rfl, related⟩

/-- It is enough that both stop together, and that results are related. -/
theorem of_isSome (stops : x.isSome = y.isSome) (related : ∀ a b, x = some a → y = some b → R a b) :
    Lockstep R x y := by
  cases x <;> cases y
  · exact .stop
  · cases stops
  · cases stops
  · exact .both (related _ _ rfl rfl)

/-- Two assertions that fail together, and what comes after them. -/
theorem kassert {p q : Prop} [Decidable p] [Decidable q] {f : Option C} {g : Option D}
    (same : p ↔ q) (next : p → q → Lockstep S f g) :
    Lockstep S ((Lib.kassert p).bind fun _ => f) ((Lib.kassert q).bind fun _ => g) := by
  unfold Lib.kassert
  by_cases holds : p
  · rw [if_pos holds, if_pos (same.mp holds)]
    exact next holds (same.mp holds)
  · rw [if_neg holds, if_neg (mt same.mpr holds)]
    exact .stop

end Lockstep

end ExscapeOS.Lib
