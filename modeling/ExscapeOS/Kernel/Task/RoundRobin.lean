import Mathlib.Data.List.Rotate
import ExscapeOS.Kernel.Task.Moves

/-!
# The scheduler is round robin

`scheduler_taskSwitch` without a next task and without a pending `execve`. Sleeping tasks whose time
has come are woken first, and `list_node_find_next_predicate` then searches the queue, around its
end, for a task that can run. The specification rotates the queue until the current task is its last
element and takes the first task that can run.

If the queue holds only the kernel task, and that task is the current one, the function returns at
once: it neither wakes the kernel task nor runs the idle task in its place.
-/
namespace ExscapeOS.Tasks

open List Option

/-- The queue behind `t`, around its end and up to `t`. -/
def behind (t : Pid) (queue : List Pid) : List Pid := (queue.rotate (queue.idxOf t + 1)).dropLast

lemma findNext_eq_find_behind {p : Pid → Bool} {t : Pid} {queue : List Pid} (mem : t ∈ queue) :
    Kernel.findNext p t queue = (behind t queue).find? p := by
  obtain ⟨front, rest, rfl, new⟩ := eq_append_cons_of_mem mem
  have skip (u : Pid) (hu : u ∈ front) : decide (u ≠ t) = true :=
    decide_eq_true fun eq => new (eq ▸ hu)
  have index : (front ++ t :: rest).idxOf t = front.length := by
    rw [idxOf_append_of_notMem new, idxOf_cons_self, Nat.add_zero]
  have rotated : (front ++ t :: rest).rotate (front.length + 1) = (rest ++ front) ++ [t] := by
    rw [rotate_eq_drop_append_take (by simp)]
    simp [drop_append, take_append, drop_eq_nil_of_le, take_of_length_le]
  rw [behind, index, rotated, dropLast_concat, Kernel.findNext,
    dropWhile_append_of_pos skip, takeWhile_append_of_pos skip]
  simp

namespace Kernel

/-- A task on the queue whose wake-up time has been reached. -/
def due (k : Kernel) (t : Pid) : Bool :=
  t ∈ k.readyQueue ∧ (k.task t).state = .sleeping ∧ (k.task t).wakeupTime ≤ k.ticks

def runnable (k : Kernel) (t : Pid) : Bool := (k.task t).state.isRunning || k.due t

def roundRobin (k : Kernel) : Pid :=
  ((behind k.current k.readyQueue).find? k.runnable).getD
    (if k.runnable k.current then k.current else idleTask)

end Kernel

/-- Nobody asked for a particular task. Tasks that can run, and the idle task, have a stack and a
memory map, and the idle task does not sleep. -/
structure Choosing (k : Kernel) : Prop where
  onQueue : k.current ∈ k.readyQueue
  next : k.nextTask = none
  execve : (k.task k.current).didExecve = false
  alive : ∀ t, (t ∈ k.readyQueue ∧ k.runnable t = true) ∨ t = idleTask →
    (k.task t).allocated = true ∧ (k.task t).children ≠ none
  idle : (k.task idleTask).state ≠ .sleeping

/-- The due tasks are woken and the chosen task runs. A woken task counts as running once it is
switched to. -/
structure Chooses (k k' : Kernel) : Prop where
  current : k'.current = k.roundRobin
  cpu : k'.cpu = k.ctx k.roundRobin
  state : ∀ t, (k'.task t).state =
    if t = k.roundRobin ∧ t ≠ k.current ∧ k.runnable t = true then .running
    else if k.due t then .wakingUp else (k.task t).state
  wakeupTime : ∀ t, (k'.task t).wakeupTime = if k.due t then 0 else (k.task t).wakeupTime
  queue : k'.readyQueue = k.readyQueue
  panic : k'.panic = k.panic

variable {k : Kernel} {t : Pid}

lemma wakeSleepers_task (k : Kernel) (t : Pid) : k.wakeSleepers.task t =
    if k.due t then { k.task t with state := .wakingUp, wakeupTime := 0 } else k.task t := by
  simp [Kernel.wakeSleepers, Kernel.due]

lemma wakeSleepers_allocated (k : Kernel) (t : Pid) :
    (k.wakeSleepers.task t).allocated = (k.task t).allocated := by
  rw [wakeSleepers_task]
  split_ifs <;> rfl

lemma wakeSleepers_isRunning (k : Kernel) (t : Pid) :
    (k.wakeSleepers.task t).state.isRunning = k.runnable t := by
  rw [wakeSleepers_task, Kernel.runnable]
  cases due : k.due t <;> simp [TaskState.isRunning]

lemma wakeSleepers_awake (h : Choosing k) (can : k.runnable t = true ∨ t = idleTask) :
    (k.wakeSleepers.task t).state ≠ .sleeping := by
  rcases can with run | rfl
  · rw [← wakeSleepers_isRunning] at run
    intro sleeping
    simp [sleeping, TaskState.isRunning] at run
  · have notDue : k.due idleTask = false := by simp [Kernel.due, h.idle]
    simpa [wakeSleepers_task, notDue] using h.idle

lemma running_of_isRunning {st : TaskState} (running : st.isRunning = true) :
    (if st = .wakingUp then .running else st) = .running := by
  cases st <;> simp_all [TaskState.isRunning]

/-- `switch_task` to another task. -/
structure SwitchedTo (t : Pid) (k k' : Kernel) : Prop where
  current : k'.current = t
  cpu : k'.cpu = (k.task t).esp
  state : ∀ u, (k'.task u).state =
    if u = t ∧ (k.task t).state = .wakingUp then .running else (k.task u).state
  wakeupTime : ∀ u, (k'.task u).wakeupTime = (k.task u).wakeupTime
  queue : k'.readyQueue = k.readyQueue
  panic : k'.panic = k.panic

lemma switchTask_switchedTo (alive : (k.task t).allocated = true)
    (resources : (k.task t).children ≠ none) (awake : (k.task t).state ≠ .sleeping)
    (other : t ≠ k.current) : SwitchedTo t k (k.switchTask t) := by
  simp only [Kernel.switchTask, alive, resources, awake, other, if_false, Bool.true_eq_false]
  refine ⟨rfl, ?_, fun u => ?_, fun u => ?_, rfl, rfl⟩
  · simp only [Kernel.upd_current, Kernel.upd_task_of_ne _ _ _ _ other, Kernel.upd_task_self]
    split_ifs <;> rfl
  · dsimp only
    refine (Kernel.upd_part Task.state ?_ u).trans ?_
    · rfl
    by_cases eq : u = t
    · subst eq
      simp only [Kernel.upd_task_self, true_and]
      split_ifs <;> rfl
    · simp [eq]
  · dsimp only
    refine (Kernel.upd_part Task.wakeupTime ?_ u).trans ?_
    · rfl
    exact Kernel.upd_part Task.wakeupTime (by split_ifs <;> rfl) u

lemma switchTask_self (alive : (k.task t).allocated = true) (awake : (k.task t).state ≠ .sleeping)
    (same : t = k.current) : k.switchTask t = k := by
  simp [Kernel.switchTask, alive, awake, ← same]

lemma switchTask_chooses (h : Choosing k) (chosen : t = k.roundRobin) (other : t ≠ k.current)
    (can : (t ∈ k.readyQueue ∧ k.runnable t = true) ∨ t = idleTask) :
    Chooses k (k.wakeSleepers.switchTask t) := by
  have alive := h.alive t can
  have awake := wakeSleepers_awake h (can.imp_left And.right)
  have running := wakeSleepers_isRunning k t
  have same : (k.wakeSleepers.task t).children = (k.task t).children ∧
      (k.wakeSleepers.task t).esp = (k.task t).esp := by
    rw [wakeSleepers_task]
    split_ifs <;> exact ⟨rfl, rfl⟩
  have switched : SwitchedTo t k.wakeSleepers (k.wakeSleepers.switchTask t) :=
    switchTask_switchedTo ((wakeSleepers_allocated k t).trans alive.1)
      (same.1 ▸ alive.2) awake other
  refine ⟨switched.current.trans chosen, ?_, fun u => ?_, fun u => ?_, switched.queue,
    switched.panic⟩
  · rw [switched.cpu, same.2, ← chosen, Kernel.ctx_of_ne other]
  · rw [switched.state, ← chosen]
    by_cases eq : u = t
    · subst eq
      cases run : k.runnable u with
      | true =>
        rw [run] at running
        simp [other, running_of_isRunning running]
      | false =>
        have notDue : k.due u = false := by simp_all [Kernel.runnable]
        have asleep : (k.task u).state ≠ .wakingUp := by
          intro waking
          simp [Kernel.runnable, waking, TaskState.isRunning] at run
        simp [wakeSleepers_task, notDue, asleep]
    · simp only [eq, false_and, if_false, wakeSleepers_task]
      split_ifs <;> rfl
  · rw [switched.wakeupTime, wakeSleepers_task]
    split_ifs <;> rfl

lemma switchNext_chooses (h : Choosing k) : Chooses k k.wakeSleepers.switchNext := by
  have stays (chosen : k.current = k.roundRobin) : Chooses k k.wakeSleepers := by
    refine ⟨chosen, ?_, fun u => ?_, fun u => ?_, rfl, rfl⟩
    · rw [← chosen, Kernel.ctx_current]
      rfl
    · rw [if_neg fun h => h.2.1 (h.1.trans chosen.symm), wakeSleepers_task]
      split_ifs <;> rfl
    · rw [wakeSleepers_task]
      split_ifs <;> rfl
  have current : k.wakeSleepers.current = k.current := rfl
  have on : k.wakeSleepers.current ∈ k.wakeSleepers.readyQueue := h.onQueue
  have search : Kernel.findNext (fun t => (k.wakeSleepers.task t).state.isRunning)
      k.wakeSleepers.current k.wakeSleepers.readyQueue =
        (behind k.current k.readyQueue).find? k.runnable := by
    rw [findNext_eq_find_behind on]
    simp only [wakeSleepers_isRunning]
    rfl
  rw [Kernel.switchNext, if_neg (not_not.mpr on), search, wakeSleepers_isRunning, current]
  cases found : (behind k.current k.readyQueue).find? k.runnable with
  | none =>
    -- nobody else can run
    split_ifs with run
    · exact stays (by rw [Kernel.roundRobin, found, getD_none, if_pos run])
    · have chosen : idleTask = k.roundRobin := by
        rw [Kernel.roundRobin, found, getD_none, if_neg run]
      by_cases eq : idleTask = k.current
      · rw [switchTask_self ((wakeSleepers_allocated k _).trans (h.alive idleTask (.inr rfl)).1)
          (wakeSleepers_awake h (.inr rfl)) eq]
        exact stays (eq ▸ chosen)
      · exact switchTask_chooses h chosen eq (.inr rfl)
  | some t =>
    have chosen : t = k.roundRobin := by rw [Kernel.roundRobin, found, getD_some]
    have mem : t ∈ k.readyQueue := by
      have mem := mem_of_find?_eq_some found
      exact mem_rotate.mp (mem_of_mem_dropLast mem)
    simp only
    split_ifs with same
    · exact stays (same.symm.trans chosen)
    · exact switchTask_chooses h chosen same (.inl ⟨mem, find?_some found⟩)

/-- `scheduler_taskSwitch` wakes the tasks that are due and switches to the next in turn. -/
theorem schedulerTaskSwitch_chooses (h : Choosing k)
    (others : ¬(k.current = kernelTask ∧ k.readyQueue.length = 1)) :
    Chooses k k.schedulerTaskSwitch := by
  rw [Kernel.schedulerTaskSwitch, if_neg others, h.next]
  simp only [h.execve, Bool.false_eq_true, if_false]
  exact switchNext_chooses h

/-- One network handler sleeps on and the other one is due. -/
def handlerDue : Kernel :=
  { boot with
    task := fun t =>
      if t = NetHandler.icmp.task then { boot.task t with state := .sleeping, wakeupTime := 200 }
      else if t = NetHandler.arp.task then { boot.task t with state := .sleeping, wakeupTime := 50 }
      else boot.task t
    ticks := 100 }

theorem schedulerTaskSwitch_handlerDue :
    Choosing handlerDue ∧ Chooses handlerDue handlerDue.schedulerTaskSwitch ∧
      handlerDue.roundRobin = NetHandler.arp.task := by
  have alive : ∀ t ∈ handlerDue.readyQueue, (handlerDue.task t).allocated = true ∧
      (handlerDue.task t).children ≠ none := by decide
  have choosing : Choosing handlerDue :=
    ⟨by decide, rfl, rfl, fun t can => alive t (can.elim And.left fun eq => by subst eq; decide),
      by decide⟩
  exact ⟨choosing, schedulerTaskSwitch_chooses choosing (by decide), by decide⟩

/-- The kernel task, alone on the queue and due. -/
def kernelAlone : Kernel :=
  { boot with
    task := fun t => if t = kernelTask then { boot.task t with state := .sleeping } else boot.task t
    readyQueue := [kernelTask] }

/-- It is not woken: the function returns before the scan. -/
theorem kernelAlone_not_chooses : Choosing kernelAlone ∧ kernelAlone.due kernelTask = true ∧
    (kernelAlone.schedulerTaskSwitch.task kernelTask).state = .sleeping ∧
      ¬Chooses kernelAlone kernelAlone.schedulerTaskSwitch := by
  have alive : ∀ t ∈ [kernelTask, idleTask], (kernelAlone.task t).allocated = true ∧
      (kernelAlone.task t).children ≠ none := by decide
  refine ⟨⟨by decide, rfl, rfl, fun t can => alive t ?_, by decide⟩, by decide, by decide, ?_⟩
  · rcases can with ⟨mem, -⟩ | rfl
    · obtain rfl : t = kernelTask := by simpa [kernelAlone] using mem
      decide
    · decide
  · intro chooses
    have woken := chooses.state kernelTask
    revert woken
    decide

end ExscapeOS.Tasks
