import ExscapeOS.Kernel.Task.Effects

/-!
# The context of a task that has called `execve`

A successful `execve` sets `did_execve`, puts the context of the new image into the saved stack
pointer, and yields. The scheduler then loads that, but it looks at `next_task` first: a switch to
another task saves the interrupted context over the new one.
-/
namespace ExscapeOS.Tasks

open Lib Kernel

variable {k k' : Kernel} {t : Pid} {a : Action}

/-- While the current task has `did_execve` set, no interrupt switches to another task. -/
def undisturbed (k : Kernel) (a : Action) : Prop :=
  (k.task k.current).didExecve = true →
    match a with
    | .tick | .run => k.nextTask = none
    | .ata => False
    | .call _ | .net _ => True

instance (k : Kernel) (a : Action) : Decidable (undisturbed k a) :=
  match a with
  | .tick | .run =>
    inferInstanceAs (Decidable ((k.task k.current).didExecve = true → k.nextTask = none))
  | .ata => inferInstanceAs (Decidable ((k.task k.current).didExecve = true → False))
  | .call _ | .net _ => isTrue fun _ => trivial

/-- A task between `execve` and its return to user mode. -/
structure Loaded (k : Kernel) (t : Pid) : Prop where
  execve : (k.task t).didExecve = true
  current : t = k.current
  cpu : k.cpu = .execveYield
  esp : (k.task t).esp = .entry
  high : numServices ≤ t

/-- Every task that called `execve` is about to load its new context. -/
def ExecveInv (k : Kernel) : Prop := ∀ t, (k.task t).didExecve = true → Loaded k t

lemma schedulerTaskSwitch_execve (next : k.nextTask = none)
    (execve : (k.task k.current).didExecve = true) (high : numServices ≤ k.current) :
    k.schedulerTaskSwitch =
      (k.upd k.current fun t => { t with didExecve := false }).jump (k.task k.current).esp := by
  have busy : ¬ (k.current = kernelTask ∧ k.readyQueue.length = 1) := by
    rintro ⟨eq, -⟩
    rw [eq] at high
    exact absurd high (by decide)
  rw [schedulerTaskSwitch, if_neg busy, next]
  simp [execve]

/-- What has become of a task that had `did_execve` set. -/
def Resumes (k' : Kernel) (t : Pid) : Prop :=
  Loaded k' t ∨ (k'.task t).didExecve = false ∧ k'.current = t ∧ k'.cpu = .entry

lemma Loaded.step (h : Loaded k t) (ok : undisturbed k a) (move : Move k a k') :
    Resumes k' t := by
  obtain ⟨execve, rfl, cpu, esp, high⟩ := h
  have calm := ok execve
  cases move with
  | same => exact .inl ⟨execve, rfl, cpu, esp, high⟩
  | stop => exact .inl ⟨execve, rfl, cpu, esp, high⟩
  | jump h => cases h <;> simp_all
  | own h => cases h <;> simp_all
  | kill user | create user | fork user | enqueue user | forkRun user | reap user =>
    rw [cpu] at user
    cases user
  | collect scan =>
    rw [cpu] at scan
    cases scan
  | @yield pc =>
    have next : (k.jump pc).nextTask = none := calm
    rw [yieldTo, schedulerTaskSwitch_execve next execve high]
    exact .inr ⟨by simp, rfl, esp⟩
  | tick =>
    rw [schedulerTaskSwitch_execve calm execve high]
    exact .inr ⟨by simp, rfl, esp⟩
  | @net h =>
    refine .inl ⟨?_, rfl, cpu, ?_, high⟩
    all_goals
      by_cases ht : k.current = h.task
      · simp only [setNextTask, ht, upd_task_self]
        rw [ht] at execve esp
        assumption
      · simpa [setNextTask, ht]
  | ata => exact absurd calm id

lemma execveInv_step (inv : ExecveInv k) (ok : undisturbed k a) (move : Move k a k') :
    ExecveInv k' := by
  intro t execve
  rcases move.didExecve execve with before | ⟨rfl, high, rfl⟩
  · rcases (inv t before).step ok move with loaded | ⟨cleared, -⟩
    · exact loaded
    · exact absurd (cleared.symm.trans execve) (by decide)
  · exact ⟨by simp [execveDone], rfl, rfl, by simp [execveDone], high⟩

lemma execveInv_boot : ExecveInv boot := by
  intro t execve
  simp only [boot] at execve
  split_ifs at execve <;> simp [service, newTask, Task.free] at execve

/-- Runs in which no interrupt disturbs a task between `execve` and user mode. -/
abbrev UndisturbedRun : Kernel → List Action → Kernel → Prop :=
  Run (Guarded undisturbed fun k a k' => step k a = some k')

/-- In every undisturbed run, a task that has called `execve` has the context of its new image in
its saved stack pointer until it is resumed, and it is resumed there. -/
theorem execve_resumes {acts : List Action} (run : UndisturbedRun boot acts k)
    (execve : (k.task t).didExecve = true) :
    (k.task t).esp = .entry ∧ k.current = t ∧ ∀ a k', undisturbed k a → step k a = some k' →
      ((k'.task t).didExecve = true ∧ (k'.task t).esp = .entry ∧ k'.current = t) ∨
        (k'.task t).didExecve = false ∧ k'.current = t ∧ k'.cpu = .entry := by
  have inv : ExecveInv k := by
    refine run.invariant execveInv_boot ?_
    rintro k a k' inv ⟨ok, moved⟩
    exact execveInv_step inv ok (step_moves moved).2
  have loaded := inv t execve
  refine ⟨loaded.esp, loaded.current.symm, ?_⟩
  intro a k' ok moved
  rcases loaded.step ok (step_moves moved).2 with loaded' | resumed
  · exact .inl ⟨loaded'.execve, loaded'.esp, loaded'.current.symm⟩
  · exact .inr resumed

/-- A user task calls `execve`; a timer interrupt comes before its `YIELD`. -/
def execveTicked : List Action := [.call (.create true), .tick, .call .execve]

theorem execve_resumes_sample : ∃ k k', UndisturbedRun boot execveTicked k ∧
    (k.task 5).didExecve = true ∧ (k.task 5).esp = .entry ∧ step k .tick = some k' ∧
    k'.current = 5 ∧ k'.cpu = .entry := by
  obtain ⟨k, ran, execve, next, k', ticked, cleared⟩ :
      ∃ k ∈ exec (fun k a => if undisturbed k a then step k a else none) boot execveTicked,
      (k.task 5).didExecve = true ∧ k.nextTask = none ∧
      ∃ k' ∈ step k .tick, (k'.task 5).didExecve = false := by decide +kernel
  have run := Run.of_exec_guarded ran
  obtain ⟨esp, -, after⟩ := execve_resumes run execve
  rcases after .tick k' (fun _ => next) ticked with ⟨set, -⟩ | ⟨-, current, cpu⟩
  · exact absurd (cleared.symm.trans set) (by decide)
  · exact ⟨k, k', run, execve, esp, ticked, current, cpu⟩

/-- A user task calls `execve`, and a packet arrives before its `YIELD`. -/
def execveDisturbed : List Action := [.call (.create true), .tick, .call .execve, .net .arp]

/-- The old context is saved over the new one, and the task comes back inside the `execve` of its
old image. -/
theorem execve_not_resumed : ∃ k k' k'', TaskRun boot execveDisturbed k ∧
    (k.task 5).didExecve = true ∧ (k.task 5).esp = .entry ∧
    TaskRun k [.run] k' ∧ (k'.task 5).didExecve = true ∧ (k'.task 5).esp = .execveReturned ∧
    TaskRun k' [.tick, .tick, .tick] k'' ∧ k''.current = 5 ∧ k''.cpu = .execveReturned := by
  obtain ⟨k, ran, execve, esp, k', ran', execve', esp', k'', ran'', current, cpu⟩ :
      ∃ k ∈ exec step boot execveDisturbed, (k.task 5).didExecve = true ∧ (k.task 5).esp = .entry ∧
      ∃ k' ∈ exec step k [.run], (k'.task 5).didExecve = true ∧ (k'.task 5).esp = .execveReturned ∧
      ∃ k'' ∈ exec step k' [.tick, .tick, .tick], k''.current = 5 ∧ k''.cpu = .execveReturned := by
    decide +kernel
  exact ⟨k, k', k'', Run.of_exec ran, execve, esp, Run.of_exec ran', execve', esp',
    Run.of_exec ran'', current, cpu⟩

end ExscapeOS.Tasks
