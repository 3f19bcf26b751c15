import Mathlib.Tactic

/-!
# Loops that need not end

A loop body takes a state to the next state or to a result. `loop` executes at most `fuel` rounds.
`Halts` says that some number of rounds is enough; then the result does not depend on it.
`loop_of_measure` proves it with a decreasing measure, and `not_halts` refutes it with a set of
states that the body does not leave.
-/
namespace ExscapeOS.Lib

variable {S R : Type*}

def loop (body : S → S ⊕ R) : Nat → S → Option R
  | 0, _ => none
  | fuel + 1, s =>
    match body s with
    | .inl s' => loop body fuel s'
    | .inr r => some r

def Halts (body : S → S ⊕ R) (s : S) : Prop := ∃ fuel, (loop body fuel s).isSome

variable {body : S → S ⊕ R} {s s' : S} {r r' : R} {fuel fuel' : Nat}

lemma loop_succ_of_inl (again : body s = .inl s') : loop body (fuel + 1) s = loop body fuel s' := by
  simp [loop, again]

lemma loop_succ_of_inr (done : body s = .inr r) : loop body (fuel + 1) s = some r := by
  simp [loop, done]

/-- More rounds do not change the result. -/
theorem loop_mono (le : fuel ≤ fuel') (ran : loop body fuel s = some r) :
    loop body fuel' s = some r := by
  induction fuel generalizing s fuel' with
  | zero => cases ran
  | succ fuel ih =>
    obtain ⟨fuel', rfl⟩ := Nat.exists_eq_add_of_le' (Nat.one_le_of_lt (Nat.lt_of_succ_le le))
    cases h : body s with
    | inl s' =>
      rw [loop_succ_of_inl h] at ran ⊢
      exact ih (Nat.le_of_succ_le_succ le) ran
    | inr r' =>
      rw [loop_succ_of_inr h] at ran ⊢
      exact ran

lemma loop_unique (ran : loop body fuel s = some r) (ran' : loop body fuel' s = some r') : r = r' :=
  Option.some.inj ((loop_mono (le_max_left fuel fuel') ran).symm.trans
    (loop_mono (le_max_right fuel fuel') ran'))

lemma Halts.of_inr (done : body s = .inr r) : Halts body s :=
  ⟨1, by rw [loop_succ_of_inr done]; rfl⟩

lemma halts_iff_of_inl (again : body s = .inl s') : Halts body s ↔ Halts body s' := by
  constructor
  · rintro ⟨_ | fuel, h⟩
    · cases h
    · exact ⟨fuel, loop_succ_of_inl again ▸ h⟩
  · rintro ⟨fuel, h⟩
    exact ⟨fuel + 1, (loop_succ_of_inl again).symm ▸ h⟩

/-- A loop halts if every round decreases a measure, and the measure is enough fuel. -/
theorem loop_of_measure (measure : S → Nat) (P : S → Prop)
    (round : ∀ s s', P s → body s = .inl s' → P s' ∧ measure s' < measure s) (init : P s)
    (enough : measure s < fuel) : (loop body fuel s).isSome := by
  induction fuel generalizing s with
  | zero => omega
  | succ fuel ih =>
    cases hs : body s with
    | inl s' =>
      obtain ⟨keeps, less⟩ := round s s' init hs
      rw [loop_succ_of_inl hs]
      exact ih keeps (by omega)
    | inr r =>
      rw [loop_succ_of_inr hs]
      rfl

/-- What the rounds keep holds where the loop ends. -/
theorem loop_invariant (P : S → Prop) (round : ∀ s s', P s → body s = .inl s' → P s') (init : P s)
    (ran : loop body fuel s = some r) : ∃ t, P t ∧ body t = .inr r := by
  induction fuel generalizing s with
  | zero => cases ran
  | succ fuel ih =>
    cases h : body s with
    | inl s' => exact ih (round s s' init h) (loop_succ_of_inl h ▸ ran)
    | inr r' =>
      obtain rfl := Option.some.inj ((loop_succ_of_inr h).symm.trans ran)
      exact ⟨s, init, h⟩

/-- A loop that stays in a set of states for ever does not halt. -/
theorem not_halts (P : S → Prop) (round : ∀ s, P s → ∃ s', body s = .inl s' ∧ P s') (init : P s) :
    ¬ Halts body s := by
  rintro ⟨fuel, h⟩
  induction fuel generalizing s with
  | zero => cases h
  | succ fuel ih =>
    obtain ⟨s', again, keeps⟩ := round s init
    exact ih keeps (loop_succ_of_inl again ▸ h)

lemma Halts.of_reaches {t : S} (halts : Halts body s)
    (reaches : Relation.ReflTransGen (fun s s' => body s = .inl s') s t) : Halts body t := by
  induction reaches with
  | refl => exact halts
  | tail _ again ih => exact (halts_iff_of_inl again).mp ih

/-- A loop in which a round decreases a measure, or leaves the state as it is, halts exactly if it
comes to no state that is left as it is. -/
theorem halts_iff_of_progress (measure : S → Nat)
    (progress : ∀ s s', body s = .inl s' → s' = s ∨ measure s' < measure s) :
    Halts body s ↔ ∀ t, Relation.ReflTransGen (fun s s' => body s = .inl s') s t →
      body t ≠ .inl t := by
  constructor
  · intro halts t reaches stuck
    exact not_halts (· = t) (fun s eq => ⟨t, eq ▸ stuck, rfl⟩) rfl (halts.of_reaches reaches)
  · intro moves
    refine ⟨measure s + 1, loop_of_measure measure
      (Relation.ReflTransGen (fun s s' => body s = .inl s') s) ?_ .refl (Nat.lt_succ_self _)⟩
    intro t t' reaches again
    refine ⟨reaches.tail again, (progress t t' again).resolve_left fun same => ?_⟩
    exact moves t reaches (same ▸ again)

/-! ## Rounds that may fail -/

/-- A body that has no result if a round fails. -/
def attempt (step : S → Option (S ⊕ R)) (s : S) : S ⊕ Option R :=
  match step s with
  | none => .inr none
  | some (.inl s') => .inl s'
  | some (.inr r) => .inr (some r)

lemma attempt_eq_inl {step : S → Option (S ⊕ R)} :
    attempt step s = .inl s' ↔ step s = some (.inl s') := by
  unfold attempt
  split <;> simp_all

lemma attempt_eq_inr {step : S → Option (S ⊕ R)} :
    attempt step s = .inr (some r) ↔ step s = some (.inr r) := by
  unfold attempt
  split <;> simp_all

/-- The loop comes to a result, and no round fails. -/
def Returns (step : S → Option (S ⊕ R)) (s : S) (r : R) : Prop :=
  ∃ fuel, loop (attempt step) fuel s = some (some r)

section Returns

variable {step : S → Option (S ⊕ R)}

lemma Returns.of_inr (done : step s = some (.inr r)) : Returns step s r :=
  ⟨1, loop_succ_of_inr (attempt_eq_inr.mpr done)⟩

lemma returns_iff_of_inl (again : step s = some (.inl s')) :
    Returns step s r ↔ Returns step s' r := by
  have again := attempt_eq_inl.mpr again
  constructor
  · rintro ⟨_ | fuel, h⟩
    · cases h
    · exact ⟨fuel, loop_succ_of_inl again ▸ h⟩
  · rintro ⟨fuel, h⟩
    exact ⟨fuel + 1, (loop_succ_of_inl again).trans h⟩

lemma Returns.unique (h : Returns step s r) (h' : Returns step s r') : r = r' := by
  obtain ⟨fuel, h⟩ := h
  obtain ⟨fuel', h'⟩ := h'
  exact Option.some.inj (loop_unique h h')

lemma not_returns_of_none (fails : step s = none) : ¬ Returns step s r := by
  have fails : attempt step s = .inr none := by simp [attempt, fails]
  rintro ⟨_ | fuel, h⟩
  · cases h
  · rw [loop_succ_of_inr fails] at h
    cases h

/-- A round that changes nothing is repeated for ever. -/
theorem not_returns_of_self (stuck : step s = some (.inl s)) : ¬ Returns step s r := by
  have again : attempt step s = .inl s := attempt_eq_inl.mpr stuck
  rintro ⟨fuel, h⟩
  refine not_halts (· = s) ?_ rfl ⟨fuel, Option.isSome_iff_exists.mpr ⟨_, h⟩⟩
  rintro t rfl
  exact ⟨t, again, rfl⟩

end Returns

end ExscapeOS.Lib
