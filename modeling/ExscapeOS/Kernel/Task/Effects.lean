import ExscapeOS.Kernel.Task.Moves

/-!
# The effect of a step on a task

What a step does to the record of one task and to the place at which it continues. `Fades`, `Reaped`
and `Reaping` describe collection and destruction; `Goes` and `Alters` describe every step.
-/
namespace ExscapeOS.Tasks

open Kernel

variable {k k' : Kernel} {t u : Pid} {a : Action}

/-! ## Collection and destruction, task by task -/

/-- `TASK_EXITING` or `TASK_DEAD`. -/
def TaskState.finished : TaskState → Bool
  | .exiting | .dead => true
  | _ => false

/-- A task keeps its state and place, or is finished and freed. -/
def Fades (T T' : Task) : Prop :=
  T'.allocated = T.allocated ∧ T'.state = T.state ∧ T'.esp = T.esp ∧ T'.didExecve = T.didExecve ∧
      T'.wakeupTime = T.wakeupTime ∨
    T.state.finished = true ∧ T'.allocated = false ∧ T'.state = .idle ∧ T'.esp = .halt ∧
      T'.didExecve = false ∧ T'.wakeupTime = 0

namespace Fades

lemma refl (T : Task) : Fades T T := .inl ⟨rfl, rfl, rfl, rfl, rfl⟩

lemma free {T : Task} (finished : T.state.finished = true) : Fades T .free :=
  .inr ⟨finished, rfl, rfl, rfl, rfl, rfl⟩

lemma trans {T T' T'' : Task} (h : Fades T T') (h' : Fades T' T'') : Fades T T'' := by
  rcases h with ⟨allocated, state, esp, execve, time⟩ | ⟨finished, allocated, state,
    esp, execve, time⟩
  · rcases h' with ⟨allocated', state', esp', execve', time'⟩ | ⟨finished, gone⟩
    · exact .inl ⟨allocated'.trans allocated, state'.trans state, esp'.trans esp,
        execve'.trans execve, time'.trans time⟩
    · exact .inr ⟨state ▸ finished, gone⟩
  · rcases h' with ⟨allocated', state', esp', execve', time'⟩ | ⟨again, -⟩
    · exact .inr ⟨finished, allocated'.trans allocated, state'.trans state, esp'.trans esp,
        execve'.trans execve, time'.trans time⟩
    · rw [state] at again
      cases again

lemma upd {f : Task → Task} (hf : Fades (k.task t) (f (k.task t))) (u : Pid) :
    Fades (k.task u) ((k.upd t f).task u) :=
  upd_rel Fades refl hf u

lemma release (finished : (k.task t).state.finished = true) (u : Pid) :
    Fades (k.task u) ((k.release t).task u) :=
  upd (f := fun _ => Task.free) (free finished) u

lemma doWaitOne {child : Pid} (dead : (k.task child).state = .dead) (parent u : Pid) :
    Fades (k.task u) ((k.doWaitOne parent child).task u) := by
  unfold Kernel.doWaitOne
  dsimp only
  split
  · exact refl _
  · let k₁ := k.upd parent fun t => { t with
      children := some (((k.task parent).children.getD []).erase child) }
    have first : Fades (k.task u) (k₁.task u) := upd (.inl ⟨rfl, rfl, rfl, rfl, rfl⟩) u
    have finished : (k₁.task child).state.finished = true := by
      rw [upd_part Task.state rfl, dead]
      rfl
    have h := first.trans (release finished u)
    split <;> exact h

lemma orphan (k : Kernel) (child u : Pid) :
    Fades (k.task u) ((k.orphan child).task u) := by
  unfold Kernel.orphan
  split
  · case isTrue dead => exact release (by rw [dead]; rfl) u
  · exact (upd (.inl ⟨rfl, rfl, rfl, rfl, rfl⟩) u).trans (upd (.inl ⟨rfl, rfl, rfl, rfl, rfl⟩) u)

lemma orphans (cs : List Pid) (k : Kernel) (u : Pid) :
    Fades (k.task u) ((cs.foldl Kernel.orphan k).task u) := by
  induction cs generalizing k with
  | nil => exact refl _
  | cons c cs ih => exact (orphan k c u).trans (ih (k.orphan c))

end Fades

lemma collect_fades {c : Pid} (dead : (k.task c).state = .dead) (u : Pid) :
    Fades (k.task u) ((k.collect c).task u) :=
  Fades.doWaitOne (k := { k with delivered := k.delivered ++ _ }) dead k.current u

lemma deadChild_spec {pid : Option Pid} {c : Pid} (found : k.deadChild pid = some c) :
    c ∈ k.children ∧ (k.task c).state = .dead := by
  have dead := List.find?_some found
  simp only [decide_eq_true_eq] at dead
  exact ⟨List.mem_of_find?_eq_some found, dead.2⟩

/-- What the reaper does to a task. -/
inductive Reaped (T T' : Task) : Prop where
  | fades : Fades T T' → Reaped T T'
  | dies : T.state = .exiting → T'.state = .dead → T'.allocated = T.allocated → T'.esp = T.esp →
      T'.didExecve = T.didExecve → T'.wakeupTime = T.wakeupTime → Reaped T T'
  | woken : T.state = .waiting → T'.state = .running → T'.allocated = T.allocated →
      T'.esp = T.esp → T'.didExecve = T.didExecve → T'.wakeupTime = 0 → Reaped T T'

/-- What the reaper does to the machine. -/
structure Reaping (k k' : Kernel) : Prop where
  current : k'.current = k.current
  nextPid : k'.nextPid = k.nextPid
  cpu : k'.cpu = .sleepRead 2 .reaperScan ∨ k'.cpu = .reaperYield ∨ k'.cpu = k.cpu
  nextTask : k'.nextTask = k.nextTask ∨ ∃ p, k'.nextTask = some p ∧ k'.cpu = .reaperYield ∧
    (k.task p).state = .waiting ∧ (k'.task p).state = .running
  task : ∀ t, Reaped (k.task t) (k'.task t)

lemma orphans_eq (cs : List Pid) (k : Kernel) :
    ∃ task queue, cs.foldl Kernel.orphan k = { k with task := task, readyQueue := queue } := by
  induction cs generalizing k with
  | nil => exact ⟨k.task, k.readyQueue, rfl⟩
  | cons c cs ih =>
    have one : ∃ task queue, k.orphan c = { k with task := task, readyQueue := queue } := by
      unfold Kernel.orphan
      split <;> exact ⟨_, _, rfl⟩
    obtain ⟨task, queue, eq⟩ := one
    obtain ⟨task', queue', rest⟩ := ih (k.orphan c)
    exact ⟨task', queue', by rw [List.foldl_cons, rest, eq]⟩

lemma doWaitOne_eq (k : Kernel) (parent child : Pid) : ∃ task queue panic,
    k.doWaitOne parent child = { k with task := task, readyQueue := queue, panic := panic } := by
  unfold Kernel.doWaitOne
  dsimp only
  split
  · exact ⟨_, _, _, rfl⟩
  · split <;> exact ⟨_, _, _, rfl⟩

lemma collect_eq (k : Kernel) (c : Pid) : ∃ task queue panic, k.collect c = { k with
    task := task, readyQueue := queue, panic := panic, cpu := .user
    delivered := k.delivered ++ [⟨k.current, c, (k.task c).exitCode⟩] } := by
  obtain ⟨task, queue, panic, eq⟩ := doWaitOne_eq { k with
    delivered := k.delivered ++ [⟨k.current, c, (k.task c).exitCode⟩] } k.current c
  exact ⟨task, queue, panic, by rw [Kernel.collect, eq]; rfl⟩

lemma Reaping.of_stop (k : Kernel) (p : Panic) : Reaping k (k.stop p) :=
  ⟨rfl, rfl, .inr (.inr rfl), .inl rfl, fun _ => .fades (.refl _)⟩

/-- The task dies, and every other task is as it was or gone. -/
lemma bury_reaped (exiting : (k.task t).state = .exiting) (cs : List Pid) (u : Pid) :
    Reaped (k.task u) ((k.bury t cs).task u) := by
  have fades : Fades ((k.setState t .dead).task u) ((k.bury t cs).task u) :=
    (Fades.orphans cs _ u).trans (.upd (.inl ⟨rfl, rfl, rfl, rfl, rfl⟩) u)
  by_cases h : u = t
  · subst h
    rw [setState, upd_task_self] at fades
    rcases fades with ⟨allocated, state, esp, execve, time⟩ | gone
    · exact .dies exiting state allocated esp execve time
    · exact .fades (.inr ⟨by rw [exiting]; rfl, gone.2⟩)
  · rw [setState, upd_task_of_ne _ _ _ _ h] at fades
    exact .fades fades

lemma bury_eq (t : Pid) (cs : List Pid) (k : Kernel) :
    ∃ task queue, k.bury t cs = { k with task := task, readyQueue := queue } := by
  obtain ⟨task, queue, eq⟩ := orphans_eq cs (k.setState t .dead)
  exact ⟨_, queue, by rw [bury, eq]; rfl⟩

/-- A task that waits has not been touched. -/
lemma Reaped.of_waiting {T T' : Task} (h : Reaped T T') (waiting : T'.state = .waiting) :
    T.state = .waiting ∧ T'.allocated = T.allocated ∧ T'.esp = T.esp ∧
      T'.didExecve = T.didExecve := by
  cases h with
  | fades h =>
    rcases h with ⟨allocated, state, esp, execve, -⟩ | ⟨-, -, state, -⟩
    · exact ⟨state ▸ waiting, allocated, esp, execve⟩
    · rw [waiting] at state
      cases state
  | dies _ state | woken _ state =>
    rw [waiting] at state
    cases state

lemma notify_reaping {k₁ : Kernel} (current : k₁.current = k.current) (cpu : k₁.cpu = k.cpu)
    (nextPid : k₁.nextPid = k.nextPid) (nextTask : k₁.nextTask = k.nextTask)
    (finished : (k.task t).state.finished = true)
    (task : ∀ u, Reaped (k.task u) (k₁.task u)) : Reaping k (k₁.notify t) := by
  unfold Kernel.notify
  split
  · refine ⟨current, nextPid, .inl rfl, .inl nextTask, fun u => ?_⟩
    by_cases hu : u = t
    · subst hu
      exact .fades (.inr ⟨finished, by simp [Kernel.release, Task.free]⟩)
    · simpa [Kernel.release, hu] using task u
  · case h_2 p parent =>
    split
    · exact ⟨current, nextPid, .inr (.inr cpu), .inl nextTask, task⟩
    · dsimp only
      split
      · case isTrue waiting =>
        obtain ⟨before, allocated, esp, execve⟩ := (task p).of_waiting waiting
        refine ⟨current, nextPid, .inr (.inl rfl), .inr ⟨p, rfl, rfl, before, ?_⟩, fun u => ?_⟩
        · simp [setNextTask]
        · by_cases hu : u = p
          · subst hu
            refine .woken before ?_ ?_ ?_ ?_ ?_ <;> simp [setNextTask, allocated, esp, execve]
          · simpa [setNextTask, hu] using task u
      · exact ⟨current, nextPid, .inr (.inl rfl), .inl nextTask, task⟩

lemma destroyTask_reaping (exiting : (k.task t).state = .exiting) :
    Reaping k (k.destroyTask t) := by
  unfold Kernel.destroyTask
  split
  · exact .of_stop k _
  · split
    · exact .of_stop k _
    · case h_2 cs _ =>
      obtain ⟨task, queue, eq⟩ := bury_eq t cs k
      refine notify_reaping ?_ ?_ ?_ ?_ (by rw [exiting]; rfl) (bury_reaped exiting cs) <;> rw [eq]

lemma reap_reaping (k : Kernel) : Reaping k k.reap := by
  unfold Kernel.reap
  split
  · exact ⟨rfl, rfl, .inl rfl, .inl rfl, fun _ => .fades (.refl _)⟩
  · case h_2 t hit =>
    split
    · case isTrue exiting => exact destroyTask_reaping exiting
    · case isFalse notExiting =>
      have dead : (k.task t).state = .dead := by
        simpa [notExiting] using List.find?_some hit
      have tasks := Fades.doWaitOne dead k.current
      obtain ⟨task, queue, panic, eq⟩ := doWaitOne_eq k k.current t
      rw [eq] at tasks ⊢
      exact ⟨rfl, rfl, .inl rfl, .inl rfl, fun u => .fades (tasks u)⟩

/-! ## Places and states -/

/-- The places to which the current task can go. -/
inductive NextPc (k k' : Kernel) : Pc → Prop where
  | jump {pc : Pc} : Jump k pc → NextPc k k' pc
  | own {pc : Pc} {f : Task → Task} : Own k pc f → k'.task k.current = f (k.task k.current) →
      NextPc k k' pc
  | scanned : k.cpu.isScan = true → NextPc k k' .user
  | fork : k.cpu = .user → numServices ≤ k.current → k'.nextPid = k.nextPid + 1 →
      NextPc k k' (.forkEnqueue k.nextPid)
  | enqueue {c : Pid} : k.cpu = .forkEnqueue c → NextPc k k' (.forkRun c)
  | forkRun {c : Pid} : k.cpu = .forkRun c → NextPc k k' .user
  | reaperSleep : k.cpu = .reaperScan → NextPc k k' (.sleepRead 2 .reaperScan)
  | reaperYield : k.cpu = .reaperScan → NextPc k k' .reaperYield
  | yields {pc : Pc} : k.cpu.yields = some pc → Switched (k.jump pc) k' → NextPc k k' pc

/-- How a step changes the place at which a task continues. -/
inductive Goes (k k' : Kernel) (t : Pid) : Pc → Prop where
  | stays : Goes k k' t (k.ctx t)
  | freed : t ≠ k.current → (k'.task t).allocated = false → Goes k k' t .halt
  | new : t = k.nextPid → Goes k k' t .user
  | next {pc : Pc} : t = k.current → NextPc k k' pc → Goes k k' t pc
  /-- The context that `execve` has set up is loaded. -/
  | loads : t = k.current → (k.task t).didExecve = true → (k'.task t).didExecve = false →
      Goes k k' t (k.task t).esp

lemma Goes.of_eq {pc : Pc} (h : pc = k.ctx t) : Goes k k' t pc := h ▸ .stays

/-- Only the current task moves; another keeps its place, is freed, or new. -/
structure Stepped (k k' : Kernel) : Prop where
  current : k'.current = k.current
  esp : ∀ u ≠ k.current, (k'.task u).esp = (k.task u).esp ∨
    (k'.task u).esp = .halt ∧ (k'.task u).allocated = false ∨
    u = k.nextPid ∧ (k'.task u).esp = .user
  own : (k'.task k.current).esp = (k.task k.current).esp ∨ (k'.task k.current).esp = .halt ∨
    (k'.task k.current).esp = .entry ∨ k.current = k.nextPid
  cpu : k'.cpu = k.cpu ∨ NextPc k k' k'.cpu

namespace Stepped

lemma of_freed (current : k'.current = k.current) (cpu : k'.cpu = k.cpu ∨ NextPc k k' k'.cpu)
    (esp : ∀ u, (k'.task u).esp = (k.task u).esp ∨
      (k'.task u).esp = .halt ∧ (k'.task u).allocated = false) : Stepped k k' :=
  ⟨current, fun u _ => (esp u).imp_right .inl, (esp _).imp_right (.inl ·.1), cpu⟩

lemma of_esp (current : k'.current = k.current) (cpu : k'.cpu = k.cpu ∨ NextPc k k' k'.cpu)
    (esp : ∀ u, (k'.task u).esp = (k.task u).esp) : Stepped k k' :=
  of_freed current cpu fun u => .inl (esp u)

lemma of_new (current : k'.current = k.current) (cpu : k'.cpu = k.cpu ∨ NextPc k k' k'.cpu)
    (new : (k'.task k.nextPid).esp = .user)
    (esp : ∀ u ≠ k.nextPid, (k'.task u).esp = (k.task u).esp) : Stepped k k' := by
  refine ⟨current, fun u _ => ?_, ?_, cpu⟩
  · by_cases hu : u = k.nextPid
    · exact .inr (.inr ⟨hu, hu ▸ new⟩)
    · exact .inl (esp u hu)
  · by_cases hu : k.current = k.nextPid
    · exact .inr (.inr (.inr hu))
    · exact .inl (esp _ hu)

lemma goes (h : Stepped k k') (t : Pid) : Goes k k' t (k'.ctx t) := by
  by_cases ht : t = k.current
  · have eq : k'.ctx t = k'.cpu := by rw [ht, ← h.current, ctx_current]
    rw [eq]
    rcases h.cpu with same | next
    · rw [same]
      exact .of_eq (by rw [ht, ctx_current])
    · exact .next ht next
  · rw [ctx_of_ne (by rwa [h.current])]
    rcases h.esp t ht with same | ⟨gone, freed⟩ | ⟨new, user⟩
    · rw [same]
      exact .of_eq (ctx_of_ne ht).symm
    · rw [gone]
      exact .freed ht freed
    · rw [user]
      exact .new new

end Stepped

lemma enqueue_eq (k : Kernel) (t : Pid) : ∃ queue panic,
    k.enqueue t = { k with readyQueue := queue, panic := panic } := by
  unfold Kernel.enqueue
  split <;> exact ⟨_, _, rfl⟩

lemma Fades.esp {T T' : Task} (h : Fades T T') :
    T'.esp = T.esp ∨ T'.esp = .halt ∧ T'.allocated = false := by
  rcases h with ⟨-, -, same, -⟩ | ⟨-, freed, -, gone, -⟩
  · exact .inl same
  · exact .inr ⟨gone, freed⟩

lemma Reaped.esp {T T' : Task} (h : Reaped T T') :
    T'.esp = T.esp ∨ T'.esp = .halt ∧ T'.allocated = false := by
  cases h with
  | fades h => exact h.esp
  | dies _ _ _ same | woken _ _ _ same => exact .inl same

lemma Reaping.nextPc (h : Reaping k k') (scan : k.cpu = .reaperScan) :
    k'.cpu = k.cpu ∨ NextPc k k' k'.cpu := by
  rcases h.cpu with sleep | yield | same
  · exact .inr (sleep ▸ .reaperSleep scan)
  · exact .inr (yield ▸ .reaperYield scan)
  · exact .inl same

lemma Own.esp {pc : Pc} {f : Task → Task} (h : Own k pc f) (T : Task) :
    (f T).esp = T.esp ∨ (f T).esp = .entry := by
  cases h with
  | execve => exact .inr rfl
  | _ => exact .inl rfl

lemma Move.stepped (move : Move k a k') : Stepped k k' ∨ Switched k k' ∨
    ∃ pc, k.cpu.yields = some pc ∧ Switched (k.jump pc) k' := by
  cases move with
  | same | stop => exact .inl (.of_esp rfl (.inl rfl) fun _ => rfl)
  | jump h => exact .inl (.of_esp rfl (.inr (.jump h)) fun _ => rfl)
  | own h =>
    refine .inl ⟨rfl, fun u hu => .inl ?_, ?_, .inr (.own h (by simp))⟩
    · simp [hu]
    · rcases h.esp (k.task k.current) with same | entry
      · exact .inl (by simpa using same)
      · exact .inr (.inr (.inl (by simpa using entry)))
  | kill =>
    refine .inl (.of_esp rfl (.inl rfl) fun u => ?_)
    rw [Kernel.kill, upd_part Task.esp rfl, setState, upd_part Task.esp rfl]
  | @create _ user =>
    obtain ⟨queue, panic, eq⟩ := enqueue_eq
      { k.upd k.nextPid fun _ => newTask .running user none with nextPid := k.nextPid + 1 }
        k.nextPid
    rw [createTask, eq]
    exact .inl (.of_new rfl (.inl rfl) (by simp [newTask]) fun u hu => by simp [hu])
  | fork user high =>
    refine .inl (.of_new rfl (.inr (.fork user high rfl)) ?_ fun u old => ?_)
    all_goals rw [forkLink, jump_task, upd_part Task.esp rfl]
    · simp [newTask]
    · simp [old]
  | @enqueue _ c cpu =>
    obtain ⟨queue, panic, eq⟩ := enqueue_eq k c
    rw [eq]
    exact .inl (.of_esp rfl (.inr (.enqueue cpu)) fun _ => rfl)
  | @forkRun _ c cpu =>
    refine .inl (.of_esp rfl (.inr (.forkRun cpu)) fun u => ?_)
    rw [jump_task, setState, upd_part Task.esp rfl]
  | @collect _ pid c scan found =>
    refine .inl (.of_freed ?_ (.inr (.scanned scan)) fun u =>
      (collect_fades (deadChild_spec found).2 u).esp)
    obtain ⟨task, queue, panic, eq⟩ := collect_eq k c
    rw [eq]
  | reap scan =>
    have reaping := reap_reaping k
    exact .inl (.of_freed reaping.current (reaping.nextPc scan) fun u => (reaping.task u).esp)
  | @yield pc yields => exact .inr (.inr ⟨pc, yields, schedulerTaskSwitch_switched (k.jump pc)⟩)
  | tick =>
    have h := schedulerTaskSwitch_switched k
    exact .inr (.inl ⟨h.1, h.2, h.3, h.4, h.5, h.6, h.7, h.8, h.9, h.10, h.11, h.12⟩)
  | net =>
    refine .inl (.of_esp rfl (.inl rfl) fun u => ?_)
    simp only [setNextTask, upd_part Task.esp]
  | ata => exact .inr (.inl (schedulerWakeIowait_switched k))

lemma Switched.goes (h : Switched k k') (t : Pid) :
    k'.ctx t = k.ctx t ∨ t = k.current ∧ (k.task t).didExecve = true ∧
      (k'.task t).didExecve = false ∧ k'.ctx t = (k.task t).esp := by
  rcases h.ctx with same | ⟨execve, current, cpu, esp, others⟩
  · exact .inl (same t).1
  · by_cases ht : t = k.current
    · subst ht
      refine .inr ⟨rfl, execve, ?_, ?_⟩
      · by_contra set
        exact (others _ (by simpa using set)).1 rfl
      · rw [← current, ctx_current, cpu, current]
    · refine .inl ?_
      rw [ctx_of_ne (by rwa [current]), ctx_of_ne ht, esp]

lemma Move.goes (move : Move k a k') (t : Pid) : Goes k k' t (k'.ctx t) := by
  rcases move.stepped with stepped | switched | ⟨pc, yields, switched⟩
  · exact stepped.goes t
  · rcases switched.goes t with same | ⟨own, execve, cleared, pc⟩
    · exact .of_eq same
    · exact pc ▸ .loads own execve cleared
  · rcases switched.goes t with same | ⟨own, execve, cleared, pc⟩
    · rw [same, ctx_jump]
      split
      · case isTrue own => exact .next own (.yields yields switched)
      · exact .stays
    · exact pc ▸ .loads own execve cleared

/-- What the current task has saved is old, or it comes from `execve`. -/
lemma Move.esp_current (move : Move k a k') :
    (k'.task k'.current).esp = (k.task k'.current).esp ∨ k'.current = k.current ∧
      ((k'.task k.current).esp = .halt ∨ (k'.task k.current).esp = .entry ∨
        k.current = k.nextPid) := by
  rcases move.stepped with stepped | switched | ⟨pc, yields, switched⟩
  · rw [stepped.current]
    exact stepped.own.imp_right fun h => ⟨rfl, h⟩
  · exact .inl switched.esp
  · exact .inl switched.esp

/-- The states that a step can give to a task. -/
inductive NextState (k : Kernel) (a : Action) (k' : Kernel) (t : Pid) : TaskState → Prop where
  | wakes {st : TaskState} : Wakes (k.task t).state st → NextState k a k' t st
  | sleep {wakeup : Nat} {ret : Pc} : t = k.current → k.cpu = .sleepState wakeup ret →
      NextState k a k' t .sleeping
  | io : t = k.current → k.cpu = .user → a = .call .io → NextState k a k' t .iowait
  | exit {status : Nat} : t = k.current → k.cpu = .exitKill status → k'.cpu = .exitStore status →
      NextState k a k' t .exiting
  | wait : t = k.current → k.cpu = .waitStore ∨ (∃ pid, k.cpu = .waitpidStore pid) →
      NextState k a k' t .waiting
  | execve : t = k.current → k.cpu = .user → NextState k a k' t .running
  | kill : a = .call (.kill t) → k.cpu = .user → t ≠ reaperTask → t ∈ k.readyQueue →
      NextState k a k' t .exiting
  | forkRun : k.cpu = .forkRun t → (k.task t).allocated = true → k'.ctx k.current = .user →
      NextState k a k' t .running
  | net {h : NetHandler} : a = .net h → t = h.task → (k.task t).allocated = true →
      k'.nextTask = some t → NextState k a k' t .running

lemma enqueue_task (k : Kernel) (t : Pid) : (k.enqueue t).task = k.task := by
  unfold Kernel.enqueue
  split <;> rfl

/-- A step that leaves a task where it is in the family. -/
structure Calm (k : Kernel) (a : Action) (k' : Kernel) (t : Pid) : Prop where
  allocated : (k'.task t).allocated = (k.task t).allocated
  parent : (k'.task t).parent = (k.task t).parent
  children : (k'.task t).children = (k.task t).children
  exitCode : t ≠ k.current → (k'.task t).exitCode = (k.task t).exitCode
  state : NextState k a k' t (k'.task t).state

/-- The steps, by what they do to the family. -/
inductive Kin (k : Kernel) (a : Action) (k' : Kernel) : Prop where
  | calm : (∀ u, Calm k a k' u) → k'.deaths = k.deaths → k'.delivered = k.delivered → Kin k a k'
  | create {user : Bool} : k.cpu = .user → k' = k.createTask user → Kin k a k'
  | fork : k.cpu = .user → numServices ≤ k.current → k' = k.forkLink → Kin k a k'
  | collect {pid : Option Pid} {c : Pid} : k.cpu.isScan = true → k.deadChild pid = some c →
      k' = k.collect c → Kin k a k'
  | reap : a = .run → k.cpu = .reaperScan → k' = k.reap → Kin k a k'

namespace Calm

lemma of_eq (h : k'.task t = k.task t) : Calm k a k' t := by
  constructor <;> rw [h]
  · exact fun _ => rfl
  · exact .wakes (.same _)

lemma woken (same : SameTask (k.task t) (k'.task t))
    (wakes : Wakes (k.task t).state (k'.task t).state) : Calm k a k' t :=
  ⟨same.allocated, same.parent, same.children, fun _ => same.exitCode, .wakes wakes⟩

lemma own {pc : Pc} {f : Task → Task} (h : Own k pc f) (io : pc = .ioYield → a = .call .io)
    (t : Pid) : Calm k a ((k.upd k.current f).jump pc) t := by
  by_cases ht : t = k.current
  · subst ht
    have state : NextState k a ((k.upd k.current f).jump pc) k.current
        (f (k.task k.current)).state := by
      cases h with
      | sleepState cpu => exact .sleep rfl cpu
      | sleepTime | exitStore => exact .wakes (.same _)
      | io cpu => exact .io rfl cpu (io rfl)
      | exitKill cpu => exact .exit rfl cpu rfl
      | waitStore cpu => exact .wait rfl (.inl cpu)
      | waitpidStore cpu => exact .wait rfl (.inr ⟨_, cpu⟩)
      | execve cpu => exact .execve rfl cpu
    refine ⟨?_, ?_, ?_, fun other => absurd rfl other, by simpa using state⟩
    all_goals cases h <;> simp
  · exact of_eq (by simp [ht])

lemma kill (cpu : k.cpu = .user) (other : t ≠ reaperTask) (mem : t ∈ k.readyQueue) (u : Pid) :
    Calm k (.call (.kill t)) (k.kill t) u where
  allocated := by
    rw [Kernel.kill, upd_part Task.allocated rfl, setState, upd_part Task.allocated rfl]
  parent := by rw [Kernel.kill, upd_part Task.parent rfl, setState, upd_part Task.parent rfl]
  children := by rw [Kernel.kill, upd_part Task.children rfl, setState, upd_part Task.children rfl]
  exitCode hu := by
    rw [Kernel.kill, upd_task_of_ne _ _ _ _ hu, setState, upd_part Task.exitCode rfl]
  state := by
    rw [Kernel.kill, upd_part Task.state rfl, setState]
    by_cases hu : u = t
    · subst hu
      simpa using .kill rfl cpu other mem
    · simpa [hu] using .wakes (.same _)

lemma setState {k₁ : Kernel} {f : Task → Task} (task : k₁.task = (k.upd t f).task)
    (same : SameTask (k.task t) (f (k.task t)))
    (state : NextState k a k₁ t (f (k.task t)).state) (u : Pid) : Calm k a k₁ u := by
  by_cases hu : u = t
  · subst hu
    have eq : k₁.task u = f (k.task u) := by rw [task, upd_task_self]
    constructor <;> rw [eq]
    · exact same.allocated
    · exact same.parent
    · exact same.children
    · exact fun _ => same.exitCode
    · exact state
  · exact of_eq (by rw [task, upd_task_of_ne _ _ _ _ hu])

end Calm

/-- A task switch, after which the current task goes on at `pc`. -/
lemma Switched.kin {pc : Pc} (h : Switched (k.jump pc) k') : Kin k a k' :=
  .calm (fun u => .woken (h.task u) (h.wakes u)) h.deaths h.delivered

lemma Move.kin (move : Move k a k') : Kin k a k' := by
  cases move with
  | same | stop | jump => exact .calm (fun _ => .of_eq rfl) rfl rfl
  | own h io => exact .calm (.own h io) rfl rfl
  | kill cpu other mem => exact .calm (.kill cpu other mem) rfl rfl
  | create cpu => exact .create cpu rfl
  | fork cpu high => exact .fork cpu high rfl
  | @enqueue _ c =>
    obtain ⟨queue, panic, eq⟩ := enqueue_eq k c
    rw [eq]
    exact .calm (fun _ => .of_eq rfl) rfl rfl
  | @forkRun _ c cpu allocated =>
    refine .calm (.setState (f := fun T => { T with state := .running }) rfl
      ⟨rfl, rfl, rfl, rfl, rfl⟩ ?_) rfl rfl
    exact .forkRun cpu allocated (ctx_current _)
  | collect scan found => exact .collect scan found rfl
  | reap cpu => exact .reap rfl cpu rfl
  | yield => exact (schedulerTaskSwitch_switched _).kin
  | tick =>
    have h := schedulerTaskSwitch_switched k
    exact .calm (fun u => .woken (h.task u) (h.wakes u)) h.deaths h.delivered
  | @net h _ allocated =>
    exact .calm (.setState
      (f := fun T => { T with state := .running, wakeupTime := 0 }) rfl ⟨rfl, rfl, rfl, rfl, rfl⟩
      (.net rfl rfl allocated rfl)) rfl rfl
  | ata => exact (schedulerWakeIowait_switched k).kin

/-- How a step changes a task's record. -/
inductive Alters (k : Kernel) (a : Action) (k' : Kernel) (t : Pid) : Prop where
  | next : (k'.task t).allocated = (k.task t).allocated → NextState k a k' t (k'.task t).state →
      Alters k a k' t
  | freed : k.cpu.isScan = true ∨ k.cpu = .reaperScan → (k.task t).state.finished = true →
      (k'.task t).allocated = false → (k'.task t).state = .idle → (k'.task t).esp = .halt →
      Alters k a k' t
  | dies : k.cpu = .reaperScan → (k'.task t).allocated = (k.task t).allocated →
      (k.task t).state = .exiting → (k'.task t).state = .dead → Alters k a k' t
  | woken : k.cpu = .reaperScan → (k'.task t).allocated = (k.task t).allocated →
      (k.task t).state = .waiting → (k'.task t).state = .running → Alters k a k' t
  | created : t = k.nextPid → k'.nextPid = k.nextPid + 1 → (k'.task t).state = .running →
      k'.ctx k.current = .user → Alters k a k' t
  | forked : t = k.nextPid → k'.nextPid = k.nextPid + 1 → (k'.task t).state = .idle →
      Alters k a k' t

namespace Alters

lemma same (allocated : (k'.task t).allocated = (k.task t).allocated)
    (state : (k'.task t).state = (k.task t).state) : Alters k a k' t :=
  .next allocated (state ▸ .wakes (.same _))

lemma fades (scan : k.cpu.isScan = true ∨ k.cpu = .reaperScan)
    (h : Fades (k.task t) (k'.task t)) : Alters k a k' t := by
  rcases h with ⟨allocated, state, -⟩ | ⟨finished, allocated, state, esp, -⟩
  · exact same allocated state
  · exact .freed scan finished allocated state esp

end Alters

lemma createTask_task (k : Kernel) (user : Bool) (u : Pid) :
    (k.createTask user).task u = if u = k.nextPid then newTask .running user none
      else k.task u := by
  rw [createTask, enqueue_task]
  split_ifs with h
  · subst h
    simp
  · simp [h]

/-- A part of the records that does not depend on the children, after `fork`. -/
lemma forkLink_part {α : Type} (part : Task → α)
    (same : ∀ T cs, part { T with children := cs } = part T) (u : Pid) :
    part (k.forkLink.task u) =
      part (if u = k.nextPid then newTask .idle true (some k.current) else k.task u) := by
  simp only [forkLink, jump_task]
  rw [upd_part part (same ..)]
  split_ifs with h
  · subst h
    simp
  · simp [h]

lemma createTask_eq (k : Kernel) (user : Bool) : ∃ task queue panic, k.createTask user =
    { k with task := task, readyQueue := queue, panic := panic, nextPid := k.nextPid + 1 } := by
  obtain ⟨queue, panic, eq⟩ := enqueue_eq
    { k.upd k.nextPid fun _ => newTask .running user none with nextPid := k.nextPid + 1 } k.nextPid
  exact ⟨_, queue, panic, by rw [createTask, eq]; rfl⟩

lemma Move.alters (move : Move k a k') (t : Pid) : Alters k a k' t := by
  cases move.kin with
  | calm calm => exact .next (calm t).allocated (calm t).state
  | @create user cpu eq =>
    subst eq
    have task := createTask_task k user t
    obtain ⟨_, _, _, eq⟩ := createTask_eq k user
    split_ifs at task with new
    · refine .created new (by rw [eq]) (by rw [task]; rfl) ?_
      rw [eq]
      simp [Kernel.ctx, cpu]
    · exact .same (by rw [task]) (by rw [task])
  | fork cpu _ eq =>
    subst eq
    have allocated := forkLink_part (k := k) Task.allocated (fun _ _ => rfl) t
    have state := forkLink_part (k := k) Task.state (fun _ _ => rfl) t
    by_cases ht : t = k.nextPid
    · subst ht
      exact .forked rfl rfl (state.trans (by simp [newTask]))
    · rw [if_neg ht] at allocated state
      exact .same allocated state
  | collect scan found eq =>
    exact eq ▸ .fades (.inl scan) (collect_fades (deadChild_spec found).2 t)
  | reap _ scan eq =>
    subst eq
    cases (reap_reaping k).task t with
    | fades h => exact .fades (.inr scan) h
    | dies before after allocated => exact .dies scan allocated before after
    | woken before after allocated => exact .woken scan allocated before after

lemma Switched.didExecve (h : Switched k k') (execve : (k'.task t).didExecve = true) :
    (k.task t).didExecve = true := by
  rcases h.ctx with same | ⟨-, -, -, -, others⟩
  · rw [← (same t).2]
    exact execve
  · exact (others t execve).2

lemma Move.didExecve (move : Move k a k') (execve : (k'.task t).didExecve = true) :
    (k.task t).didExecve = true ∨ t = k.current ∧ numServices ≤ k.current ∧ k' = k.execveDone := by
  cases move with
  | same | stop | jump => exact .inl execve
  | @own _ pc f own =>
    by_cases ht : t = k.current
    · cases own with
      | execve _ high => exact .inr ⟨ht, high, rfl⟩
      | _ =>
        subst ht
        exact .inl (by simpa using execve)
    · exact .inl (by simpa [ht] using execve)
  | kill =>
    rw [Kernel.kill, upd_part Task.didExecve rfl, setState, upd_part Task.didExecve rfl] at execve
    exact .inl execve
  | create =>
    rw [createTask, enqueue_task] at execve
    by_cases ht : t = k.nextPid
    · subst ht
      simp [newTask] at execve
    · exact .inl (by simpa [ht] using execve)
  | fork =>
    rw [forkLink_part Task.didExecve (fun _ _ => rfl)] at execve
    split_ifs at execve with new
    · simp [newTask] at execve
    · exact .inl execve
  | enqueue =>
    rw [jump_task, enqueue_task] at execve
    exact .inl execve
  | forkRun =>
    rw [jump_task, setState, upd_part Task.didExecve rfl] at execve
    exact .inl execve
  | @collect _ pid c _ found =>
    rcases collect_fades (deadChild_spec found).2 t with ⟨-, -, -, same, -⟩ | ⟨-, -, -, -, gone, -⟩
    · exact .inl (same ▸ execve)
    · exact absurd (gone.symm.trans execve) (by decide)
  | reap =>
    cases (reap_reaping k).task t with
    | fades h =>
      rcases h with ⟨-, -, -, same, -⟩ | ⟨-, -, -, -, gone, -⟩
      · exact .inl (same ▸ execve)
      · exact absurd (gone.symm.trans execve) (by decide)
    | dies _ _ _ _ same | woken _ _ _ _ same => exact .inl (same ▸ execve)
  | @yield pc => exact .inl ((schedulerTaskSwitch_switched (k.jump pc)).didExecve execve)
  | tick => exact .inl ((schedulerTaskSwitch_switched k).didExecve execve)
  | ata => exact .inl ((schedulerWakeIowait_switched k).didExecve execve)
  | net =>
    simp only [setNextTask] at execve
    rw [upd_part Task.didExecve rfl] at execve
    exact .inl execve

/-! ## The current and the next task -/

lemma Move.nextPid_le (move : Move k a k') : k.nextPid ≤ k'.nextPid := by
  cases move with
  | @create _ user =>
    obtain ⟨_, _, _, eq⟩ := createTask_eq k user
    rw [eq]
    exact Nat.le_succ _
  | fork => exact Nat.le_succ _
  | @enqueue _ c =>
    obtain ⟨queue, panic, eq⟩ := enqueue_eq k c
    rw [eq]
    rfl
  | @collect _ _ c =>
    obtain ⟨task, queue, panic, eq⟩ := collect_eq k c
    rw [eq]
  | reap => exact (reap_reaping k).nextPid.ge
  | @yield pc => exact (schedulerTaskSwitch_switched (k.jump pc)).nextPid.ge
  | tick => exact (schedulerTaskSwitch_switched k).nextPid.ge
  | ata => exact (schedulerWakeIowait_switched k).nextPid.ge
  | _ => rfl

/-- A task becomes current if it was asked for, is running, or is the idle task. -/
lemma Move.chosen (move : Move k a k') (ne : k'.current ≠ k.current) :
    (∀ t, Wakes (k.task t).state (k'.task t).state) ∧
      (k'.task k'.current).allocated = true ∧ (k'.task k'.current).children ≠ none ∧
      (k.nextTask = some k'.current ∨ (k'.task k'.current).state.isRunning = true ∨
        k'.current = idleTask) := by
  rcases move.stepped with stepped | switched | ⟨pc, -, switched⟩
  · exact absurd stepped.current ne
  · exact ⟨switched.wakes, switched.chosen ne⟩
  · exact ⟨switched.wakes, switched.chosen ne⟩

/-- Who may be asked for after a step. -/
inductive NextTask (k : Kernel) (a : Action) (k' : Kernel) : Prop where
  | none : k'.nextTask = none → NextTask k a k'
  | same : k'.nextTask = k.nextTask → k.cpu ≠ .reaperYield ∨ k'.cpu = .reaperYield ∨
      k.current = kernelTask → NextTask k a k'
  | net {h : NetHandler} : a = .net h → k'.nextTask = some h.task →
      (k'.task h.task).state = .running → NextTask k a k'
  | reap {p : Pid} : k'.nextTask = some p → k'.cpu = .reaperYield →
      (k'.task p).state = .running → (k.task p).state = .waiting → NextTask k a k'

lemma Move.nextTask (move : Move k a k') : NextTask k a k' := by
  cases move with
  | same => exact .same rfl (by tauto)
  | stop => exact .same rfl (by simp only [Kernel.stop]; tauto)
  | jump h => exact .same rfl (by cases h <;> simp_all)
  | own h => exact .same rfl (by cases h <;> simp_all)
  | kill cpu => exact .same rfl (by simp [cpu])
  | @create _ user cpu =>
    obtain ⟨_, _, _, eq⟩ := createTask_eq k user
    rw [eq]
    exact .same rfl (by simp [cpu])
  | fork cpu => exact .same rfl (by simp [cpu])
  | @enqueue _ c cpu =>
    obtain ⟨queue, panic, eq⟩ := enqueue_eq k c
    rw [eq]
    exact .same rfl (by simp [cpu])
  | forkRun cpu => exact .same rfl (by simp [cpu])
  | @collect _ _ c scan =>
    obtain ⟨task, queue, panic, eq⟩ := collect_eq k c
    rw [eq]
    exact .same rfl (.inl fun cpu => by simp [cpu, Pc.isScan] at scan)
  | reap scan =>
    rcases (reap_reaping k).nextTask with same | ⟨p, next, cpu, waiting, running⟩
    · exact .same same (by simp [scan])
    · exact .reap next cpu running waiting
  | @yield pc =>
    by_cases idle : k.current = kernelTask
    · rcases (schedulerTaskSwitch_switched (k.jump pc)).nextTask with same | none
      · exact .same same (by tauto)
      · exact .none none
    · exact .none (schedulerTaskSwitch_nextTask idle)
  | tick enabled =>
    rcases (schedulerTaskSwitch_switched k).nextTask with same | none
    · exact .same same (.inl fun cpu => by simp [cpu, Pc.interruptible] at enabled)
    · exact .none none
  | net => exact .net rfl rfl (by simp [setNextTask])
  | ata enabled =>
    rcases (schedulerWakeIowait_switched k).nextTask with same | none
    · exact .same same (.inl fun cpu => by simp [cpu, Pc.interruptible] at enabled)
    · exact .none none

/-- A task that is asked for is running, or was asked for before. -/
lemma Move.asked (move : Move k a k') (next : k'.nextTask = some t) :
    (k'.task t).state = .running ∧ ((∃ h : NetHandler, a = .net h ∧ t = h.task) ∨
        k'.cpu = .reaperYield ∧ (k.task t).state = .waiting) ∨
      k.nextTask = some t ∧
        (k.cpu ≠ .reaperYield ∨ k'.cpu = .reaperYield ∨ k.current = kernelTask) := by
  cases move.nextTask with
  | none none =>
    rw [none] at next
    cases next
  | same eq place => exact .inr ⟨eq ▸ next, place⟩
  | @net h net eq running =>
    obtain rfl : h.task = t := by simpa [eq] using next
    exact .inl ⟨running, .inl ⟨h, net, rfl⟩⟩
  | @reap p eq cpu running waiting =>
    obtain rfl : p = t := by simpa [eq] using next
    exact .inl ⟨running, .inr ⟨cpu, waiting⟩⟩

end ExscapeOS.Tasks
