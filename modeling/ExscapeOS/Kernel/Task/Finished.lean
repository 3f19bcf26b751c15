import ExscapeOS.Kernel.Task.Places

/-!
# Finished tasks

`kill` and `_exit` set `TASK_EXITING`, the reaper sets `TASK_DEAD`. Nothing else looks at these
states before it writes another one: `set_next_task` sets `TASK_RUNNING`, and a task that has killed
itself with `kill_pid` goes on and may sleep. The condition `sparing` leaves out such requests.
Under it a task that is exiting or dead never runs again.
-/
namespace ExscapeOS.Tasks

open Lib Kernel

variable {k k' : Kernel} {t : Pid} {a : Action}

/-- `kill_pid` is not used on the caller, on the task that runs next, or on a task in `TASK_IDLE`
(the idle task, and a child that `fork` has not started). No packet arrives for a network task that
has been killed. -/
def sparing (k : Kernel) : Action → Prop
  | .call (.kill t) => t ≠ k.current ∧ k.nextTask ≠ some t ∧ (k.task t).state ≠ .idle
  | .net h => (k.task h.task).state.finished = false
  | _ => True

instance (k : Kernel) (a : Action) : Decidable (sparing k a) :=
  match a with
  | .call (.kill t) => inferInstanceAs
      (Decidable (t ≠ k.current ∧ k.nextTask ≠ some t ∧ (k.task t).state ≠ .idle))
  | .net h => inferInstanceAs (Decidable ((k.task h.task).state.finished = false))
  | .call (.sleep _) | .call (.nanosleep ..) | .call .io | .call .yield | .call (.exit _)
  | .call (.create _) | .call .fork
  | .call .wait | .call (.waitpid ..) | .call .execve | .run | .tick | .ata => isTrue trivial

/-- In `_exit`, after `kill`. -/
def Pc.isExit : Pc → Bool
  | .exitStore _ | .exitYield | .exitReturned => true
  | _ => false

lemma Pc.isScan_of_isExit {pc : Pc} (h : pc.isExit = true) : pc.isScan = false := by
  cases pc <;> simp_all [Pc.isExit, Pc.isScan]

lemma Pc.isExit_of_inExecve {pc : Pc} (h : pc.inExecve = true) : pc.isExit = false := by
  cases pc <;> simp_all [Pc.inExecve, Pc.isExit]

lemma Pc.isExit_of_yields {pc pc' : Pc} (h : pc.isExit = true) (yields : pc.yields = some pc') :
    pc'.isExit = true := by
  cases pc <;> simp_all [Pc.isExit, Pc.yields]
  subst yields
  rfl

/-! ## The invariant -/

structure Orderly (k : Kernel) : Prop where
  places : Places k
  idling : Idling k
  exits : (k.task k.current).state.finished = true → k.cpu.isExit = true
  next : ∀ t, k.nextTask = some t → (k.task t).state.finished = false

lemma sparing_idle (ok : sparing k a) (t : Pid) (killed : a = .call (.kill t)) :
    (k.task t).state ≠ .idle := by
  subst killed
  exact ok.2.2

namespace Orderly

variable (inv : Orderly k)

include inv

lemma idling_step (ok : sparing k a) (move : Move k a k') : Idling k' := by
  refine inv.idling.step inv.places (sparing_idle ok) (fun scan finished => ?_) move
  have exits := inv.exits finished
  rcases scan with scan | scan
  · rw [Pc.isScan_of_isExit exits] at scan
    cases scan
  · rw [scan] at exits
    cases exits

lemma chosen_alive (ok : sparing k a) (move : Move k a k') (ne : k'.current ≠ k.current) :
    (k'.task k'.current).state.finished = false := by
  obtain ⟨wakes, -, -, next | running | idle⟩ := move.chosen ne
  · have alive := inv.next _ next
    rw [← Bool.not_eq_true] at alive ⊢
    exact (wakes _).finished_iff.not.mpr alive
  · generalize (k'.task k'.current).state = st at running
    cases st <;> simp_all [TaskState.isRunning, TaskState.finished]
  · rw [idle, (inv.idling_step ok move).idle.1]
    rfl

/-- A finished task that is still the current one goes on in `_exit`. -/
lemma exits_stay (move : Move k a k') (same : k'.current = k.current)
    (finished : (k.task k.current).state.finished = true) : k'.cpu.isExit = true := by
  have exits := inv.exits finished
  have := move.goes k'.current
  rw [ctx_current] at this
  generalize k'.cpu = pc at *
  rw [same] at this
  cases this with
  | stays => rwa [ctx_current]
  | freed ne => exact absurd rfl ne
  | new new => exact absurd new inv.places.current.ne
  | next _ next =>
    cases next with
    | jump h => cases h <;> simp_all [Pc.isExit]
    | own h => cases h <;> simp_all [Pc.isExit]
    | scanned scan => simp [Pc.isScan_of_isExit exits] at scan
    | yields h => exact Pc.isExit_of_yields exits h
    | _ => simp_all [Pc.isExit]
  | loads _ set =>
    have inside := inv.places.execve _ set
    rw [ctx_current] at inside
    simp [Pc.isExit_of_inExecve inside] at exits

variable (ok : sparing k a) (move : Move k a k')
include ok move

lemma exits_step (finished : (k'.task k'.current).state.finished = true) :
    k'.cpu.isExit = true := by
  by_cases same : k'.current = k.current
  · rw [same] at finished
    cases move.alters k.current with
    | freed _ _ _ idle | forked _ _ idle =>
      rw [idle] at finished
      cases finished
    | created new => exact absurd new inv.places.current.ne
    | next _ next =>
      generalize (k'.task k.current).state = st at *
      cases next with
      | wakes wakes => exact inv.exits_stay move same (wakes.finished_iff.mp finished)
      | exit _ _ cpu => rw [cpu]; rfl
      | kill killed =>
        subst killed
        exact absurd rfl ok.1
      | _ => cases finished
    | dies _ _ state => exact inv.exits_stay move same (by rw [state]; rfl)
    | woken _ _ _ after =>
      rw [after] at finished
      cases finished
  · rw [inv.chosen_alive ok move same] at finished
    cases finished

lemma next_step (t : Pid) (next : k'.nextTask = some t) :
    (k'.task t).state.finished = false := by
  rcases move.asked next with ⟨running, -⟩ | ⟨next, -⟩
  · rw [running]
    rfl
  · have alive := inv.next t next
    obtain ⟨lt, low⟩ := inv.places.next t next
    cases move.alters t with
    | freed _ _ _ idle | forked _ _ idle =>
      rw [idle]
      rfl
    | created new => exact absurd new lt.ne
    | next _ state =>
      generalize (k'.task t).state = st at state
      cases state with
      | wakes wakes =>
        rw [← Bool.not_eq_true] at alive ⊢
        exact wakes.finished_iff.not.mpr alive
      | exit own cpu =>
        have high := inv.places.owned t
        rw [own, ctx_current, cpu] at high
        rcases low with low | yield
        · exact absurd (own ▸ high) low.not_ge
        · rw [cpu] at yield
          cases yield
      | kill killed =>
        subst killed
        exact absurd next ok.2.1
      | _ => rfl
    | dies _ _ state =>
      rw [state] at alive
      cases alive
    | woken _ _ _ after =>
      rw [after]
      rfl

lemma step : Orderly k' where
  places := inv.places.step move
  idling := inv.idling_step ok move
  exits := inv.exits_step ok move
  next := inv.next_step ok move

end Orderly

lemma Orderly.boot : Orderly boot where
  places := .boot
  idling := .boot
  exits := by decide
  next t next := by cases next

/-- The task is finished, or its memory has been freed. -/
def Over (k : Kernel) (t : Pid) : Prop :=
  t < k.nextPid ∧ ((k.task t).state.finished = true ∨
    (k.task t).allocated = false ∧ (k.task t).state = .idle)

lemma Over.step (inv : Orderly k) (ok : sparing k a) (move : Move k a k') (gone : Over k t) :
    Over k' t := by
  obtain ⟨lt, gone⟩ := gone
  refine ⟨lt.trans_le move.nextPid_le, ?_⟩
  rcases gone with finished | free
  · have busy (own : t = k.current) : k.cpu.isExit = true := inv.exits (own ▸ finished)
    cases move.alters t with
    | freed _ _ allocated idle => exact .inr ⟨allocated, idle⟩
    | created new | forked new => exact absurd new lt.ne
    | dies _ _ _ after =>
      rw [after]
      exact .inl rfl
    | woken _ _ state =>
      rw [state] at finished
      cases finished
    | next allocated next =>
      generalize (k'.task t).state = st at next
      cases next with
      | wakes wakes => exact .inl (wakes.finished_iff.mpr finished)
      | sleep own cpu | io own cpu | execve own cpu =>
        have := busy own
        rw [cpu] at this
        cases this
      | wait own cpu =>
        have := busy own
        rcases cpu with cpu | ⟨pid, cpu⟩
        all_goals
          rw [cpu] at this
          cases this
      | exit | kill => exact .inl rfl
      | forkRun cpu =>
        rw [inv.idling.forks k.current t (by rw [ctx_current, cpu]; rfl)] at finished
        cases finished
      | net net own =>
        subst net
        have : (k.task _).state.finished = false := ok
        rw [← own, finished] at this
        cases this
  · exact .inr (inv.idling.free_step (sparing_idle ok) move lt free)

/-- Runs in which `kill_pid` and the network spare finished tasks. -/
abbrev SparingRun : Kernel → List Action → Kernel → Prop :=
  Run (Guarded sparing fun k a k' => step k a = some k')

lemma SparingRun.orderly {acts : List Action} (run : SparingRun boot acts k) : Orderly k := by
  refine run.invariant .boot ?_
  rintro k a k' inv ⟨ok, moved⟩
  exact inv.step ok (step_moves moved).2

/-- The scheduler does not switch to a task that is finished or freed. -/
lemma Over.not_chosen (inv : Orderly k) (ok : sparing k a) (gone : Over k t)
    (move : Move k a k') (current : k'.current = t) : k.current = t := by
  subst current
  by_contra ne
  have after := gone.step inv ok move
  obtain ⟨-, allocated, -⟩ := move.chosen (Ne.symm ne)
  rcases after.2 with finished | ⟨free, -⟩
  · rw [inv.chosen_alive ok move (Ne.symm ne)] at finished
    cases finished
  · rw [free] at allocated
    cases allocated

/-- In every such run, a task that is exiting or dead is so until its memory is freed, and the
scheduler never switches to it again. -/
theorem finished_forever {acts acts' : List Action} (run : SparingRun boot acts k)
    (finished : (k.task t).state.finished = true) (later : SparingRun k acts' k') :
    ((k'.task t).state.finished = true ∨
      (k'.task t).allocated = false ∧ (k'.task t).state = .idle) ∧
    ∀ a k'', sparing k' a → step k' a = some k'' → k''.current = t → k'.current = t := by
  have inv := run.orderly
  have lt : t < k.nextPid := by
    by_contra new
    rw [(inv.places.fresh t (not_lt.mp new)).1] at finished
    cases finished
  have both : Orderly k' ∧ Over k' t := by
    refine later.invariant (P := fun k => Orderly k ∧ Over k t) ⟨inv, lt, .inl finished⟩ ?_
    rintro k a k' ⟨inv, gone⟩ ⟨ok, moved⟩
    have move := (step_moves moved).2
    exact ⟨inv.step ok move, gone.step inv ok move⟩
  refine ⟨both.2.2, ?_⟩
  intro a k'' ok moved current
  exact both.2.not_chosen both.1 ok (step_moves moved).2 current

/-- A user task calls `_exit`, up to its `YIELD`. -/
def exitCalled : List Action := [.call (.create true), .tick, .call (.exit 3), .run]

theorem finished_forever_sample : ∃ k k', SparingRun boot exitCalled k ∧
    (k.task 5).state = .exiting ∧ SparingRun k [.run, .run, .tick] k' ∧
    ((k'.task 5).state.finished = true ∨
      (k'.task 5).allocated = false ∧ (k'.task 5).state = .idle) := by
  let guarded := fun k a => if sparing k a then step k a else none
  obtain ⟨k, ran, exiting, k', ran', -⟩ : ∃ k ∈ exec guarded boot exitCalled,
      (k.task 5).state = .exiting ∧ ∃ _ ∈ exec guarded k [.run, .run, .tick],
        True := by decide +kernel
  have run := Run.of_exec_guarded ran
  have later := Run.of_exec_guarded ran'
  exact ⟨k, k', run, exiting, later, (finished_forever run (by rw [exiting]; rfl) later).1⟩

/-- The kernel shell kills the ARP task, and a packet arrives for it. -/
def killHandler : List Action := [.call (.create false), .tick, .call (.kill 3)]

/-- `set_next_task` sets an exiting task running, and the scheduler switches to it. -/
theorem finished_revived : ∃ k k' k'', TaskRun boot killHandler k ∧ (k.task 3).state = .exiting ∧
    step k (.net .arp) = some k' ∧ (k'.task 3).state = .running ∧
    step k' .tick = some k'' ∧ k'.current ≠ 3 ∧ k''.current = 3 := by
  obtain ⟨k, ran, exiting, k', packet, running, before, k'', ticked, after⟩ :
      ∃ k ∈ exec step boot killHandler, (k.task 3).state = .exiting ∧
      ∃ k' ∈ step k (.net .arp), (k'.task 3).state = .running ∧ k'.current ≠ 3 ∧
      ∃ k'' ∈ step k' .tick, k''.current = 3 := by decide +kernel
  exact ⟨k, k', k'', Run.of_exec ran, exiting, packet, running, ticked, before, after⟩

end ExscapeOS.Tasks
