import ExscapeOS.Kernel.Task.Effects

/-!
# What `kill` changes

`kill` marks its victim as exiting, takes it off its console's list of tasks, and stores the exit
code of a killed task in the current task. So any victim but the caller keeps its old exit code,
which is what `wait` reports, and the exit code of the caller is overwritten. A task that is twice
on the list stays on it: `kmain` adds the shells of the consoles behind the first again after
`create_task` has added them.
-/
namespace ExscapeOS.Tasks

open Kernel Lib List Option

/-- The console of each task and the tasks of each console. -/
structure Consoles where
  console : Pid → Option Nat
  tasks : Nat → List Pid

/-- The end of `kill`: `list_remove_first` on the console's list. -/
def Consoles.detach (t : Pid) (s : Consoles) : Consoles :=
  match s.console t with
  | none => s
  | some c =>
    { console := Function.update s.console t none
      tasks := Function.update s.tasks c ((s.tasks c).erase t) }

/-- The task is on the list of its console at most once. -/
def Consoles.listedOnce (t : Pid) (s : Consoles) : Prop :=
  ∀ c, s.console t = some c → (s.tasks c).count t ≤ 1

structure Machine where
  kernel : Kernel
  consoles : Consoles

namespace Machine

def kill (t : Pid) (s : Machine) : Machine := ⟨s.kernel.kill t, s.consoles.detach t⟩

def killPid (t : Pid) (s : Machine) : Machine :=
  if t = reaperTask then ⟨s.kernel.stop .assertion, s.consoles⟩
  else if t ∈ s.kernel.readyQueue then s.kill t
  else s

lemma killPid_kernel (s : Machine) (t : Pid) :
    (s.killPid t).kernel = s.kernel.killPid t := by
  unfold killPid Kernel.killPid
  split_ifs <;> rfl

end Machine

/-- The task `t` is there and takes no step. -/
def silent (t : Pid) (k : Kernel) : Action → Prop
  | .call _ | .run => (k.task t).allocated = true ∧ k.current ≠ t
  | _ => (k.task t).allocated = true

/-- Runs in which `t` takes no step and is not freed before the last one. -/
abbrev SilentRun (t : Pid) : Kernel → List Action → Kernel → Prop :=
  Run (Guarded (silent t) fun k a k' => step k a = some k')

/-- The victim `t` is killed, and nothing happens to any other task. From then on `wait` reports
that. -/
structure Killed (s : Machine) (t : Pid) (s' : Machine) : Prop where
  state : (s'.kernel.task t).state = .exiting
  console : s'.consoles.console = Function.update s.consoles.console t none
  tasks : ∀ c, s'.consoles.tasks c =
    if s.consoles.console t = some c then (s.consoles.tasks c).filter (· ≠ t)
      else s.consoles.tasks c
  status : ∀ acts k, SilentRun t s'.kernel acts k → (k.task t).allocated = true →
    (k.collect t).delivered = k.delivered ++ [⟨k.current, t, 256⟩]
  others : ∀ u, u ≠ t → s'.kernel.task u = s.kernel.task u
  rest : s'.kernel = { s.kernel with task := s'.kernel.task }

variable {k k' : Kernel} {a : Action} {t u : Pid} {s : Machine}

/-! ## Consoles -/

lemma detach_console (s : Consoles) (t : Pid) :
    (s.detach t).console = Function.update s.console t none := by
  cases here : s.console t with
  | none =>
    simp [Consoles.detach, here]
  | some c => simp [Consoles.detach, here]

lemma erase_eq_filter_iff (l : List Pid) (t : Pid) :
    l.erase t = l.filter (· ≠ t) ↔ l.count t ≤ 1 := by
  induction l with
  | nil => simp
  | cons u l ih =>
    by_cases eq : u = t
    · subst eq
      have none_left : l = l.filter (· ≠ u) ↔ u ∉ l := by
        rw [eq_comm, filter_eq_self]
        grind
      simpa [count_eq_zero] using none_left
    · simpa [eq] using ih

lemma detach_tasks_iff (s : Consoles) (t : Pid) :
    (∀ c, (s.detach t).tasks c =
      if s.console t = some c then (s.tasks c).filter (· ≠ t) else s.tasks c) ↔ s.listedOnce t := by
  unfold Consoles.listedOnce
  refine forall_congr' fun c => ?_
  cases here : s.console t with
  | none => simp [Consoles.detach, here]
  | some d =>
    by_cases eq : d = c
    · subst eq
      simpa [Consoles.detach, here] using erase_eq_filter_iff (s.tasks d) t
    · simp [Consoles.detach, here, eq, Ne.symm eq]

/-! ## The exit code of a task that takes no step -/

/-- A task that is still there has the exit code it had. -/
def Keeps (T T' : Task) : Prop :=
  T'.allocated = true → T.allocated = true ∧ T'.exitCode = T.exitCode

namespace Keeps

lemma refl (T : Task) : Keeps T T := fun h => ⟨h, rfl⟩

lemma trans {T T' T'' : Task} (h : Keeps T T') (h' : Keeps T' T'') : Keeps T T'' := by
  intro allocated
  obtain ⟨before, code⟩ := h' allocated
  obtain ⟨first, code'⟩ := h before
  exact ⟨first, code.trans code'⟩

lemma upd {f : Task → Task} (h : Keeps (k.task t) (f (k.task t))) (u : Pid) :
    Keeps (k.task u) ((k.upd t f).task u) := by
  by_cases eq : u = t
  · subst eq
    simpa using h
  · simpa [eq] using refl _

lemma release (k : Kernel) (t u : Pid) : Keeps (k.task u) ((k.release t).task u) :=
  upd (f := fun _ => .free) nofun u

lemma orphans (cs : List Pid) (k : Kernel) (u : Pid) :
    Keeps (k.task u) ((cs.foldl Kernel.orphan k).task u) := by
  induction cs generalizing k with
  | nil => exact refl _
  | cons c cs ih =>
    refine trans ?_ (ih (k.orphan c))
    unfold Kernel.orphan
    split
    · exact release k c u
    · exact trans (upd (refl _) u) (upd (fun h => ⟨h, rfl⟩) u)

lemma of_same {T T' : Task} (h : SameTask T T') : Keeps T T' :=
  fun allocated => ⟨h.allocated ▸ allocated, h.exitCode⟩

lemma doWaitOne (k : Kernel) (parent child u : Pid) :
    Keeps (k.task u) ((k.doWaitOne parent child).task u) := by
  unfold Kernel.doWaitOne
  dsimp only
  split
  · exact refl _
  · have first (v : Pid) := upd (k := k) (t := parent) (f := fun t => { t with
      children := some (((k.task parent).children.getD []).erase child) }) (fun h => ⟨h, rfl⟩) v
    have both := (first u).trans (release _ child u)
    split <;> exact both

lemma bury (k : Kernel) (t : Pid) (cs : List Pid) (u : Pid) :
    Keeps (k.task u) ((k.bury t cs).task u) := by
  have dead := upd (k := k) (t := t) (f := fun T => { T with state := .dead }) (fun h => ⟨h, rfl⟩) u
  exact (dead.trans (orphans cs _ u)).trans (upd (fun h => ⟨h, rfl⟩) u)

lemma notify (k : Kernel) (t u : Pid) : Keeps (k.task u) ((k.notify t).task u) := by
  unfold Kernel.notify
  split
  · exact release k t u
  · split
    · exact refl _
    · dsimp only
      split
      · exact upd (f := fun T => { T with state := .running, wakeupTime := 0 })
          (fun h => ⟨h, rfl⟩) u
      · exact refl _

lemma destroyTask (k : Kernel) (t u : Pid) : Keeps (k.task u) ((k.destroyTask t).task u) := by
  unfold Kernel.destroyTask
  split
  · exact refl _
  · split
    · exact refl _
    · exact (bury k t _ u).trans (notify _ t u)

lemma reap (k : Kernel) (u : Pid) : Keeps (k.task u) (k.reap.task u) := by
  unfold Kernel.reap
  split
  · exact refl _
  · split
    · exact destroyTask k _ u
    · exact doWaitOne k k.current _ u

end Keeps

lemma Move.keeps (move : Move k a k') (old : t < k.nextPid) (other : t ≠ k.current) :
    Keeps (k.task t) (k'.task t) := by
  cases move.kin with
  | calm calm => exact fun allocated => ⟨(calm t).allocated ▸ allocated, (calm t).exitCode other⟩
  | create _ eq =>
    rw [eq, createTask_task, if_neg old.ne]
    exact .refl _
  | fork _ _ eq =>
    have task : k'.task t = k.task t := by simp [eq, forkLink, old.ne, other]
    rw [task]
    exact .refl _
  | @collect _ c _ _ eq =>
    subst eq
    exact .doWaitOne _ k.current c t
  | reap _ _ eq =>
    subst eq
    exact .reap k t

lemma step_keeps (old : t < k.nextPid) (quiet : silent t k a) (moved : step k a = some k') :
    Keeps (k.task t) (k'.task t) := by
  obtain ⟨running, move⟩ := step_moves moved
  cases a with
  | call c => exact move.keeps old (Ne.symm quiet.2)
  | run => exact move.keeps old (Ne.symm quiet.2)
  | tick =>
    simp only [step, running, ne_eq, not_true_eq_false, if_false, ite_none_right_eq_some,
      some.injEq] at moved
    obtain ⟨-, rfl⟩ := moved
    exact .of_same ((schedulerTaskSwitch_switched k).task t)
  | net h =>
    simp only [step, running, ne_eq, not_true_eq_false, if_false, ite_none_right_eq_some] at moved
    obtain ⟨-, moved⟩ := moved
    split_ifs at moved
    · cases moved
      exact .upd (f := fun T => { T with state := .running, wakeupTime := 0 })
        (fun h => ⟨h, rfl⟩) t
    · cases moved
      exact .refl _
  | ata =>
    simp only [step, running, ne_eq, not_true_eq_false, if_false, ite_none_right_eq_some,
      some.injEq] at moved
    obtain ⟨-, rfl⟩ := moved
    exact .of_same ((schedulerWakeIowait_switched k).task t)

lemma SilentRun.keeps {acts : List Action} (run : SilentRun t k acts k') (old : t < k.nextPid) :
    Keeps (k.task t) (k'.task t) := by
  have inv := run.invariant (P := fun k' => Keeps (k.task t) (k'.task t) ∧ t < k'.nextPid)
    ⟨.refl _, old⟩ ?_
  · exact inv.1
  · rintro k₁ a k₂ ⟨kept, old⟩ ⟨quiet, moved⟩
    exact ⟨kept.trans (step_keeps old quiet moved), old.trans_le (step_moves moved).2.nextPid_le⟩

/-! ## The tasks that `kill` changes -/

lemma kill_task (k : Kernel) (t u : Pid) : (k.kill t).task u =
    { k.task u with
      state := if u = t then .exiting else (k.task u).state
      exitCode := if u = k.current then 256 else (k.task u).exitCode } := by
  rw [Kernel.kill, setState]
  by_cases victim : u = t <;> by_cases caller : u = k.current
  · subst victim
    rw [← caller]
    simp
  · subst victim
    simp [caller]
  · subst caller
    simp [victim]
  · simp [victim, caller]

/-- The killed task was current, or its exit code was there already. -/
def Kernel.spared (k : Kernel) (t : Pid) : Prop :=
  t = k.current ∨ (k.task t).exitCode = 256 ∧ (k.task k.current).exitCode = 256

lemma collect_delivered (k : Kernel) (t : Pid) :
    (k.collect t).delivered = k.delivered ++ [⟨k.current, t, (k.task t).exitCode⟩] := by
  obtain ⟨_, _, _, eq⟩ := collect_eq k t
  rw [eq]

lemma reports_iff (alive : (k.task t).allocated = true) (old : t < k.nextPid) (status : Nat) :
    (∀ acts k', SilentRun t k acts k' → (k'.task t).allocated = true →
      (k'.collect t).delivered = k'.delivered ++ [⟨k'.current, t, status⟩]) ↔
        (k.task t).exitCode = status := by
  constructor
  · intro reports
    have now := reports [] k (.nil k) alive
    rw [collect_delivered, append_cancel_left_eq] at now
    simpa using now
  · rintro rfl acts k' run allocated
    rw [collect_delivered, (SilentRun.keeps run old allocated).2]

lemma killed_iff (alive : (s.kernel.task t).allocated = true) (old : t < s.kernel.nextPid) :
    Killed s t (s.kill t) ↔ s.kernel.spared t ∧ s.consoles.listedOnce t := by
  have alive' : ((s.kernel.kill t).task t).allocated = true := by
    rw [kill_task]
    exact alive
  have status := reports_iff alive' old 256
  rw [kill_task] at status
  constructor
  · intro h
    refine ⟨?_, (detach_tasks_iff _ t).mp h.tasks⟩
    by_cases self : t = s.kernel.current
    · exact .inl self
    · have reported := status.mp h.status
      have same := congrArg Task.exitCode (h.others s.kernel.current (Ne.symm self))
      rw [Machine.kill, kill_task, if_pos rfl] at same
      exact .inr ⟨by simpa [self] using reported, same.symm⟩
  · rintro ⟨spared, once⟩
    refine ⟨?_, detach_console _ t, (detach_tasks_iff _ t).mpr once, status.mpr ?_,
      fun u other => ?_, rfl⟩
    · rw [Machine.kill, kill_task, if_pos rfl]
    · rcases spared with self | ⟨code, -⟩
      · exact if_pos self
      · simp [code]
    · rw [Machine.kill, kill_task, if_neg other]
      have code : (if u = s.kernel.current then 256 else (s.kernel.task u).exitCode) =
          (s.kernel.task u).exitCode := by
        split_ifs with caller
        · rcases spared with self | ⟨-, code⟩
          · exact absurd (caller.trans self.symm) other
          · rw [caller, code]
        · rfl
      rw [code]

/-- `kill` and `kill_pid` do what they are for exactly when the victim is the caller, or nothing was
left to store, and the victim is not twice on the list of its console. -/
theorem kill_and_killPid_iff (alive : (s.kernel.task t).allocated = true)
    (old : t < s.kernel.nextPid) (mem : t ∈ s.kernel.readyQueue) (running : s.kernel.panic = none) :
    (Killed s t (s.kill t) ↔ s.kernel.spared t ∧ s.consoles.listedOnce t) ∧
      (Killed s t (s.killPid t) ↔
        t ≠ reaperTask ∧ s.kernel.spared t ∧ s.consoles.listedOnce t) := by
  refine ⟨killed_iff alive old, ?_⟩
  by_cases reaper : t = reaperTask
  · simp only [Machine.killPid, reaper, if_true, ne_eq, not_true_eq_false, false_and, iff_false]
    intro h
    have panic := congrArg Kernel.panic h.rest
    simp [Kernel.stop, running] at panic
  · rw [Machine.killPid, if_neg reaper, if_pos mem, killed_iff alive old]
    exact (and_iff_right reaper).symm

/-- A user task 5 is created and forks 6. -/
def forked : List Action := [.call (.create true), .tick, .call .fork, .run, .run]

/-- Both tasks are on the first console. -/
def firstConsole : Consoles where
  console t := if t = 5 ∨ t = 6 then some 0 else none
  tasks c := if c = 0 then [5, 6] else []

theorem forked_kills_itself : ∃ k, TaskRun boot forked k ∧ k.current = 5 ∧
    Killed ⟨k, firstConsole⟩ 5 (Machine.kill 5 ⟨k, firstConsole⟩) ∧
      Killed ⟨k, firstConsole⟩ 5 (Machine.killPid 5 ⟨k, firstConsole⟩) := by
  obtain ⟨k, run, current, alive, nextPid, queue, panic⟩ : ∃ k, TaskRun boot forked k ∧
      k.current = 5 ∧ (k.task 5).allocated = true ∧ k.nextPid = 7 ∧
      k.readyQueue = [0, 5, 6, 4, 3, 2, 1] ∧ k.panic = none :=
        Run.exists_of_exec (by decide +kernel)
  have once : firstConsole.listedOnce 5 := by
    intro c here
    obtain rfl : 0 = c := by simpa [firstConsole] using here
    decide
  have kills := kill_and_killPid_iff (s := ⟨k, firstConsole⟩) alive
    (by rw [nextPid]; decide) (by rw [queue]; decide) panic
  exact ⟨k, run, current, kills.1.mpr ⟨.inl current.symm, once⟩,
    kills.2.mpr ⟨by decide, .inl current.symm, once⟩⟩

/-- The parent waits, the reaper destroys the child, and `wait` returns. -/
def childReaped : List Action := [.call .wait, .run, .run, .run, .tick, .tick, .run, .run, .run]

/-- Task 5 kills its child. Then `wait` reports that the child ended normally, and task 5 has the
exit code of a killed task. -/
theorem forked_kills_child : ∃ k k', TaskRun boot forked k ∧
    ¬Killed ⟨k, firstConsole⟩ 6 (Machine.killPid 6 ⟨k, firstConsole⟩) ∧
      TaskRun (k.killPid 6) childReaped k' ∧ k'.delivered = [⟨5, 6, 0⟩] ∧
        (k'.task 5).exitCode = 256 := by
  obtain ⟨k, ran, after, before, k', ran', delivered, code⟩ : ∃ k ∈ exec step boot forked,
      ((k.killPid 6).task 5).exitCode = 256 ∧ (k.task 5).exitCode = 0 ∧
      ∃ k' ∈ exec step (k.killPid 6) childReaped, k'.delivered = [⟨5, 6, 0⟩] ∧
        (k'.task 5).exitCode = 256 := by decide +kernel
  refine ⟨k, k', .of_exec ran, fun h => ?_, .of_exec ran', delivered, code⟩
  have same := congrArg Task.exitCode (h.others 5 (by decide))
  rw [Machine.killPid_kernel, after, before] at same
  cases same

end ExscapeOS.Tasks
