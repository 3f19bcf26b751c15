import Mathlib.Tactic

/-!
# Runs of labelled transition systems

A system is a relation between a state, an action and a next state. `Run` is a finite sequence of
steps. `Run.invariant` is the induction that carries an invariant along a run, and `Run.mono`
restricts or weakens the step relation. `Guarded` keeps only those steps whose action meets a
condition in the state before.
-/
namespace ExscapeOS.Lib

variable {S A : Type*}

inductive Run (step : S → A → S → Prop) : S → List A → S → Prop where
  | nil (s : S) : Run step s [] s
  | snoc {s t u : S} {as : List A} {a : A} : Run step s as t → step t a u →
      Run step s (as ++ [a]) u

/-- The steps of `step` that meet the condition `ok`. -/
def Guarded (ok : S → A → Prop) (step : S → A → S → Prop) (s : S) (a : A) (t : S) : Prop :=
  ok s a ∧ step s a t

namespace Run

variable {step : S → A → S → Prop} {s t u : S} {as bs : List A} {a : A}

lemma invariant {P : S → Prop} (h : Run step s as t) (init : P s)
    (preserves : ∀ s a t, P s → step s a t → P t) : P t := by
  induction h with
  | nil => exact init
  | snoc _ last ih => exact preserves _ _ _ ih last

lemma mono {step' : S → A → S → Prop} (h : Run step s as t)
    (le : ∀ s a t, step s a t → step' s a t) : Run step' s as t := by
  induction h with
  | nil => exact .nil _
  | snoc _ last ih => exact .snoc ih (le _ _ _ last)

lemma append (h : Run step s as t) (g : Run step t bs u) : Run step s (as ++ bs) u := by
  induction g with
  | nil => simpa using h
  | snoc _ last ih => simpa [List.append_assoc] using Run.snoc ih last

lemma single (h : step s a t) : Run step s [a] t := by
  simpa using Run.snoc (Run.nil s) h

lemma cons (h : step s a t) (g : Run step t as u) : Run step s (a :: as) u :=
  (single h).append g

end Run

/-- Execute actions of a deterministic system, up to the first failure. -/
def exec (step : S → A → Option S) : S → List A → Option S
  | s, [] => some s
  | s, a :: as => (step s a).bind fun t => exec step t as

/-- An execution is a run of the relation the step function denotes. -/
theorem Run.of_exec {step : S → A → Option S} {as : List A} {s t : S}
    (h : exec step s as = some t) : Run (fun s a t => step s a = some t) s as t := by
  induction as generalizing s with
  | nil =>
    obtain rfl : s = t := by simpa [exec] using h
    exact .nil s
  | cons a as ih =>
    obtain ⟨u, hu, ht⟩ := Option.bind_eq_some_iff.mp h
    exact .cons hu (ih ht)

/-- An execution that checks the condition at every step is a guarded run. -/
theorem Run.of_exec_guarded {ok : S → A → Prop} [∀ s a, Decidable (ok s a)]
    {step : S → A → Option S} {as : List A} {s t : S}
    (h : exec (fun s a => if ok s a then step s a else none) s as = some t) :
    Run (Guarded ok fun s a t => step s a = some t) s as t := by
  refine (Run.of_exec h).mono fun s a t hs => ?_
  split_ifs at hs with holds
  exact ⟨holds, hs⟩

section Evaluate

variable {I : Type*} {ok : S → A → Prop} [∀ s a, Decidable (ok s a)] {step : S → A → Option S}
  {as : List A} {s : S} {P : S → Prop} [DecidablePred P] {init : Option I} {start : I → S}

/-- A run with a property of its last state, by evaluation. -/
theorem Run.exists_of_exec (h : (exec step s as).any (P ·)) :
    ∃ t, Run (fun s a t => step s a = some t) s as t ∧ P t := by
  obtain ⟨t, ran, holds⟩ := (Option.any_eq_true _ _).mp h
  exact ⟨t, .of_exec ran, of_decide_eq_true holds⟩

lemma Run.exists_of_exec_guarded
    (h : (exec (fun s a => if ok s a then step s a else none) s as).any (P ·)) :
    ∃ t, Run (Guarded ok fun s a t => step s a = some t) s as t ∧ P t := by
  obtain ⟨t, ran, holds⟩ := (Option.any_eq_true _ _).mp h
  exact ⟨t, .of_exec_guarded ran, of_decide_eq_true holds⟩

/-- The same from a state that is computed. -/
theorem Run.exists_of_init (h : init.any fun i => (exec step (start i) as).any (P ·)) :
    ∃ i t, init = some i ∧ Run (fun s a t => step s a = some t) (start i) as t ∧ P t := by
  obtain ⟨i, eq, ran⟩ := (Option.any_eq_true _ _).mp h
  obtain ⟨t, run⟩ := exists_of_exec ran
  exact ⟨i, t, eq, run⟩

lemma Run.exists_of_init_guarded
    (h : init.any fun i =>
      (exec (fun s a => if ok s a then step s a else none) (start i) as).any (P ·)) :
    ∃ i t, init = some i ∧ Run (Guarded ok fun s a t => step s a = some t) (start i) as t ∧
      P t := by
  obtain ⟨i, eq, ran⟩ := (Option.any_eq_true _ _).mp h
  obtain ⟨t, run⟩ := exists_of_exec_guarded ran
  exact ⟨i, t, eq, run⟩

end Evaluate

end ExscapeOS.Lib
