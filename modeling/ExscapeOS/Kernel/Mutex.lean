import ExscapeOS.Lib.Transition
import ExscapeOS.Lib.Word

/-!
# Mutexes

`mutex_lock` and `mutex_unlock`, one memory access a step. The lock word is tested and set by one
locked instruction, so at most one task is between lock and unlock. The owner is stored after the
word, on both sides. So a task that is interrupted after it has released the word can erase the
owner that another task has stored in the meantime.
-/
namespace ExscapeOS.Mutexes

open Lib Function List Option

variable {T : Type}

inductive Pc where
  | idle
  /-- In the loop of `mutex_lock`, before `LOCK BTSL`. -/
  | test
  | setOwner
  /-- Between `mutex_lock` and `mutex_unlock`. -/
  | held
  | checkLocked
  | checkOwner
  | clearLock
  | clearOwner
  deriving DecidableEq

/-- The task has taken the lock word. -/
def Pc.inside : Pc → Bool
  | .setOwner | .held | .checkLocked | .checkOwner | .clearLock => true
  | .idle | .test | .clearOwner => false

/-- The task is back from `mutex_lock`, and `mutex_unlock` has not cleared the lock word yet. -/
def Pc.owns : Pc → Bool
  | .held | .checkLocked | .checkOwner | .clearLock => true
  | .idle | .test | .setOwner | .clearOwner => false

/-- `mutex_t`, and the tasks that use it. -/
structure State (T : Type) where
  mutex : Bool
  owner : Option T
  pc : T → Pc

/-- After `mutex_create`. -/
def created (T : Type) : State T := { mutex := false, owner := none, pc := fun _ => .idle }

variable [DecidableEq T]

namespace State

def jump (t : T) (pc : Pc) (s : State T) : State T := { s with pc := update s.pc t pc }

/-- The next access of task `t`; `none` if an assertion fails. A task that finds the mutex taken
tries again. -/
def step (s : State T) (t : T) : Option (State T) :=
  match s.pc t with
  | .idle => some (s.jump t .test)
  | .test =>
    if s.mutex then some s else some ({ s with mutex := true }.jump t .setOwner)
  | .setOwner => some ({ s with owner := some t }.jump t .held)
  | .held => some (s.jump t .checkLocked)
  | .checkLocked => do
    kassert (s.mutex = true)
    return s.jump t .checkOwner
  | .checkOwner => do
    kassert (s.owner = some t)
    return s.jump t .clearLock
  | .clearLock => some ({ s with mutex := false }.jump t .clearOwner)
  | .clearOwner => some ({ s with owner := none }.jump t .idle)

/-- No task erases the owner while another one has the mutex. -/
def calm (s : State T) (t : T) : Prop := s.pc t = .clearOwner → ∀ u, (s.pc u).owns = false

instance [Fintype T] (s : State T) (t : T) : Decidable (s.calm t) :=
  inferInstanceAs (Decidable (_ → _))

/-- What a step does to the word and the owner. -/
inductive Move (s : State T) (t : T) : State T → Prop
  /-- The mutex is taken: the task yields. -/
  | spin : Move s t s
  /-- The task is neither entering nor leaving. -/
  | stay {pc : Pc} (inside : pc.inside = (s.pc t).inside) (owns : pc.owns = (s.pc t).owns) :
    Move s t (s.jump t pc)
  | take (free : s.mutex = false) (pc : s.pc t = .test) :
    Move s t ({ s with mutex := true }.jump t .setOwner)
  | own (pc : s.pc t = .setOwner) : Move s t ({ s with owner := some t }.jump t .held)
  | release (pc : s.pc t = .clearLock) : Move s t ({ s with mutex := false }.jump t .clearOwner)
  | disown (pc : s.pc t = .clearOwner) : Move s t ({ s with owner := none }.jump t .idle)

lemma move_of_step {s s' : State T} {t : T} (ran : s.step t = some s') : Move s t s' := by
  unfold step at ran
  cases pc : s.pc t with
  | test =>
    simp only [pc] at ran
    split_ifs at ran with taken
    · exact some.inj ran ▸ .spin
    · exact some.inj ran ▸ .take (by simpa using taken) pc
  | setOwner => exact some.inj (by simpa only [pc] using ran) ▸ .own pc
  | clearLock => exact some.inj (by simpa only [pc] using ran) ▸ .release pc
  | clearOwner => exact some.inj (by simpa only [pc] using ran) ▸ .disown pc
  | checkLocked =>
    simp only [pc, bind, kassert_bind_eq_some, pure, some.injEq] at ran
    exact ran.2 ▸ .stay (by rw [pc]; rfl) (by rw [pc]; rfl)
  | checkOwner =>
    simp only [pc, bind, kassert_bind_eq_some, pure, some.injEq] at ran
    exact ran.2 ▸ .stay (by rw [pc]; rfl) (by rw [pc]; rfl)
  | idle =>
    exact some.inj (by simpa only [pc] using ran) ▸ .stay (by rw [pc]; rfl) (by rw [pc]; rfl)
  | held =>
    exact some.inj (by simpa only [pc] using ran) ▸ .stay (by rw [pc]; rfl) (by rw [pc]; rfl)

/-! ## Mutual exclusion -/

/-- The word is set while one task is inside. -/
structure Exclusive (s : State T) : Prop where
  locked : ∀ t, (s.pc t).inside = true → s.mutex = true
  unique : ∀ t u, (s.pc t).inside = true → (s.pc u).inside = true → t = u

variable {s s' : State T} {t u : T}

lemma Exclusive.stay {pc : Pc} (h : Exclusive s) (same : pc.inside = (s.pc t).inside)
    (owner : Option T) : Exclusive ({ s with owner := owner }.jump t pc) := by
  have inside (v : T) : ((update s.pc t pc) v).inside = (s.pc v).inside := by
    by_cases own : v = t
    · rw [own, update_self, same]
    · rw [update_of_ne own]
  constructor
  · intro v enters
    exact h.locked v ((inside v).symm.trans enters)
  · intro v w enters enters'
    exact h.unique v w ((inside v).symm.trans enters) ((inside w).symm.trans enters')

lemma Exclusive.enter (h : Exclusive s) (free : s.mutex = false) :
    Exclusive ({ s with mutex := true }.jump t .setOwner) := by
  have outside (v : T) (ne : v ≠ t) : ((update s.pc t .setOwner) v).inside = false := by
    rw [update_of_ne ne]
    by_contra inside
    rw [h.locked v (by simpa using inside)] at free
    cases free
  refine ⟨fun _ _ => rfl, fun v w enters enters' => ?_⟩
  have eq (v : T) (enters : ((update s.pc t .setOwner) v).inside = true) : v = t := by
    by_contra ne
    rw [outside v ne] at enters
    cases enters
  rw [eq v enters, eq w enters']

lemma Exclusive.leave (h : Exclusive s) (last : s.pc t = .clearLock) :
    Exclusive ({ s with mutex := false }.jump t .clearOwner) := by
  have inside : (s.pc t).inside = true := by rw [last]; rfl
  have none (v : T) : ((update s.pc t .clearOwner) v).inside = false := by
    by_cases own : v = t
    · rw [own, update_self]
      rfl
    · rw [update_of_ne own]
      by_contra enters
      exact own (h.unique v t (by simpa using enters) inside)
  refine ⟨fun v enters => ?_, fun v w enters => ?_⟩
  · cases (none v).symm.trans enters
  · cases (none v).symm.trans enters

lemma Exclusive.step (h : Exclusive s) (ran : s.step t = some s') : Exclusive s' := by
  cases move_of_step ran with
  | spin => exact h
  | stay inside => exact h.stay inside s.owner
  | take free => exact h.enter free
  | own pc => exact h.stay (by rw [pc]; rfl) (some t)
  | release pc => exact h.leave pc
  | disown pc => exact h.stay (by rw [pc]; rfl) none

/-! ## The owner -/

/-- The owner is the task that has the mutex. -/
def Owned (s : State T) : Prop := ∀ t, (s.pc t).owns = true → s.owner = some t

lemma inside_of_owns {pc : Pc} (h : pc.owns = true) : pc.inside = true := by
  cases pc <;> trivial

lemma Owned.stay {pc : Pc} (h : Owned s) (owns : pc.owns = true → (s.pc t).owns = true)
    (mutex : Bool) : Owned ({ s with mutex := mutex }.jump t pc) := by
  intro v enters
  by_cases own : v = t
  · subst own
    exact h v (owns (by simpa [jump] using enters))
  · exact h v (by simpa [jump, own] using enters)

lemma Owned.step (h : Owned s) (exclusive : Exclusive s) (calm : s.calm t)
    (ran : s.step t = some s') : Owned s' := by
  cases move_of_step ran with
  | spin => exact h
  | stay _ owns => exact h.stay (fun owner => owns ▸ owner) s.mutex
  | take free pc => exact h.stay (fun owner => by cases owner) true
  | release pc => exact h.stay (fun owner => by cases owner) false
  | own pc =>
    intro v enters
    by_cases own : v = t
    · rw [own]
      rfl
    · -- nobody else is inside
      refine absurd (exclusive.unique v t (inside_of_owns ?_) (by rw [pc]; rfl)) own
      simpa [jump, own] using enters
  | disown pc =>
    intro v enters
    by_cases own : v = t
    · subst own
      simp [jump, Pc.owns] at enters
    · have outside := calm pc v
      simp only [jump, update_of_ne own, outside] at enters
      cases enters

lemma step_isSome (exclusive : Exclusive s) (owned : Owned s) (t : T) : (s.step t).isSome := by
  unfold State.step
  cases pc : s.pc t with
  | checkLocked =>
    have locked := exclusive.locked t (by rw [pc]; rfl)
    simp [kassert, locked]
  | checkOwner =>
    have owner := owned t (by rw [pc]; rfl)
    simp [kassert, owner]
  | test =>
    split_ifs <;> rfl
  | _ => rfl

/-- In every run, at most one task is inside. -/
lemma exclusive_run {ts : List T}
    (run : Run (fun s t s' => State.step s t = some s') (created T) ts s) : Exclusive s := by
  refine run.invariant ?_ fun _ _ _ h ran => h.step ran
  exact ⟨fun _ enters => (by cases enters), fun _ _ enters => (by cases enters)⟩

/-- In every run in which no task erases the owner while another one has the mutex: at most one task
is inside, it is the owner once it has returned from `mutex_lock`, and no assertion fails. -/
theorem mutex_correct {ts : List T}
    (run : Run (Guarded calm fun s t s' => State.step s t = some s') (created T) ts s) :
    (∀ t u, (s.pc t).inside = true → (s.pc u).inside = true → t = u) ∧
      (∀ t, (s.pc t).owns = true → s.owner = some t) ∧ ∀ t, (s.step t).isSome := by
  have both : Exclusive s ∧ Owned s := by
    refine run.invariant (P := fun s => Exclusive s ∧ Owned s)
      ⟨exclusive_run (.nil _), fun _ enters => (by cases enters)⟩ ?_
    rintro s t s' ⟨exclusive, owned⟩ ⟨calm, ran⟩
    exact ⟨exclusive.step ran, owned.step exclusive calm ran⟩
  exact ⟨both.1.unique, both.2, step_isSome both.1 both.2⟩

/-- Task 0 locks and unlocks, then task 1 locks. -/
theorem mutex_correct_turns : ∃ s : State (Fin 2),
    Run (Guarded calm fun s t s' => State.step s t = some s') (created (Fin 2))
        [0, 0, 0, 0, 0, 0, 0, 0, 1, 1, 1] s ∧ s.owner = some 1 ∧ ∀ t, (s.step t).isSome := by
  obtain ⟨s, run, owner⟩ : ∃ s : State (Fin 2),
      Run (Guarded calm fun s t s' => State.step s t = some s') (created (Fin 2))
        [0, 0, 0, 0, 0, 0, 0, 0, 1, 1, 1] s ∧ s.owner = some 1 :=
    Run.exists_of_exec_guarded (by decide +kernel)
  exact ⟨s, run, owner, (mutex_correct run).2.2⟩

/-- Task 0 is interrupted in `mutex_unlock`, between the two stores, and erases the owner: task 1
cannot unlock. -/
theorem owner_erased : ∃ s : State (Fin 2),
    Run (fun s t s' => State.step s t = some s') (created (Fin 2))
        [0, 0, 0, 0, 0, 0, 0, 1, 1, 1, 0, 1, 1] s ∧
      s.pc 1 = .checkOwner ∧ s.mutex = true ∧ s.owner = none ∧ (s.step 1).isNone :=
  Run.exists_of_exec (by decide +kernel)

end State

end ExscapeOS.Mutexes
