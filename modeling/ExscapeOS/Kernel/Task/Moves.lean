import ExscapeOS.Kernel.Task.Basic

/-!
# What a step of the machine can do

`Move` lists the steps, each with the state it leads to. `Switched` says what a task switch does: it
changes which task is current and wakes tasks, and keeps the place at which every task continues,
except that a task which has just called `execve` continues at its new entry point.
-/
namespace ExscapeOS.Tasks

variable {k k' : Kernel} {t u : Pid}

namespace Kernel

/-- The place at which a task continues. -/
def ctx (k : Kernel) (t : Pid) : Pc := if t = k.current then k.cpu else (k.task t).esp

@[simp] lemma ctx_current (k : Kernel) : k.ctx k.current = k.cpu := if_pos rfl

lemma ctx_of_ne (h : t ≠ k.current) : k.ctx t = (k.task t).esp := if_neg h

/-! ## The fields after an update -/

section Fields

variable (k : Kernel) (t u : Pid) (f : Task → Task) (pc : Pc) (p : Panic)

@[simp] lemma upd_task_self : (k.upd t f).task t = f (k.task t) := by simp [upd]

@[simp] lemma upd_task_of_ne (h : u ≠ t) : (k.upd t f).task u = k.task u := by simp [upd, h]

lemma ctx_jump : (k.jump pc).ctx t = if t = k.current then pc else k.ctx t := by
  by_cases h : t = k.current
  · subst h
    simp [ctx]
  · simp [ctx, h]

end Fields

lemma upd_rel {f : Task → Task} (P : Task → Task → Prop) (refl : ∀ T, P T T)
    (self : P (k.task t) (f (k.task t))) (u : Pid) : P (k.task u) ((k.upd t f).task u) := by
  by_cases h : u = t
  · subst h
    simpa using self
  · simpa [h] using refl (k.task u)

lemma upd_part {α : Type} {f : Task → Task} (part : Task → α)
    (same : part (f (k.task t)) = part (k.task t)) (u : Pid) :
    part ((k.upd t f).task u) = part (k.task u) :=
  upd_rel (fun T T' => part T' = part T) (fun _ => rfl) same u

end Kernel

open Kernel List Option

/-! ## The cases of the scheduler -/

lemma findNext_mem {p : Pid → Bool} {queue : List Pid} {u : Pid}
    (found : findNext p t queue = some u) : u ∈ queue := by
  have mem := mem_of_find?_eq_some found
  rcases mem_append.mp mem with behind | before
  · exact (dropWhile_sublist _).subset (mem_of_mem_tail behind)
  · exact (takeWhile_subset _) before

lemma switchNext_cases {motive : Kernel → Prop} (k : Kernel)
    (stay : (k.task k.current).state.isRunning = true → motive k)
    (stop : ∀ p, p = .fault ∨ p = .assertion → motive (k.stop p))
    (switch : ∀ t ∈ idleTask :: k.readyQueue,
      (k.task t).state.isRunning = true ∨ t = idleTask → motive (k.switchTask t)) :
    motive k.switchNext := by
  unfold Kernel.switchNext
  split
  · case isTrue off =>
    split
    · exact stop _ (.inl rfl)
    · case h_2 t first =>
      have mem := mem_of_mem_head? first
      split_ifs with same running
      · exact absurd (same ▸ mem) off
      · exact switch t (mem_cons_of_mem _ mem) (.inl running)
      · exact stop _ (.inr rfl)
  · split
    · split_ifs with running
      · exact stay running
      · exact switch _ mem_cons_self (.inr rfl)
    · case h_2 t found =>
      have running : (k.task t).state.isRunning = true := by simpa using find?_some found
      split_ifs with same
      · exact stay (same ▸ running)
      · exact switch t (mem_cons_of_mem _ (findNext_mem found)) (.inl running)

lemma schedulerTaskSwitch_cases {motive : Kernel → Prop} (k : Kernel)
    (alone : k.current = kernelTask ∧ k.readyQueue.length = 1 → motive k)
    (asked : ∀ t, k.nextTask = some t → (k.task t).state.isSleeping = false →
      motive ({ k with nextTask := none }.switchTask t))
    (woken : ∀ t, k.nextTask = some t → (k.task t).state.isSleeping = true →
      motive (({ k with nextTask := none }.upd t fun task =>
        { task with state := .running, wakeupTime := 0 }).switchTask t))
    (execve : k.nextTask = none → (k.task k.current).didExecve = true →
      motive ((k.upd k.current fun t => { t with didExecve := false }).jump
        (k.task k.current).esp))
    (next : k.nextTask = none → motive k.wakeSleepers.switchNext) :
    motive k.schedulerTaskSwitch := by
  unfold Kernel.schedulerTaskSwitch
  split
  · case isTrue h => exact alone h
  · split
    · case h_1 t h =>
      dsimp only
      split_ifs with sleeping
      · exact woken t h sleeping
      · exact asked t h (Bool.not_eq_true _ ▸ sleeping)
    · case h_2 h =>
      split_ifs with called
      · exact execve h called
      · exact next h

lemma findIowait_mem {n : Option Pid} (found : k.findIowait = some n) :
    ∀ t, n.or (k.readyQueue.find? (· = k.current)) = some t → t ∈ k.readyQueue := by
  have searched {n : Option Pid} (mem : ∀ t, n = some t → t ∈ k.readyQueue) (t : Pid)
      (eq : n.or (k.readyQueue.find? (· = k.current)) = some t) : t ∈ k.readyQueue := by
    cases n with
    | none => exact mem_of_find?_eq_some eq
    | some u => exact mem t eq
  unfold Kernel.findIowait at found
  split_ifs at found
  · cases found
    exact searched nofun
  · cases found
    exact searched fun t first => mem_of_mem_head? first
  · obtain ⟨u, next, rfl⟩ := map_eq_some_iff.mp found
    obtain ⟨head, -, next⟩ := bind_eq_some_iff.mp next
    refine searched fun t eq => ?_
    exact some.inj eq ▸ findNext_mem next

lemma schedulerWakeIowait_cases {motive : Kernel → Prop} (k : Kernel)
    (stop : ∀ p, p = .fault ∨ p = .assertion → motive (k.stop p))
    (wake : ∀ t ∈ k.readyQueue, (k.task t).state = .iowait →
      motive ((k.setState t .running).switchTask t)) : motive k.schedulerWakeIowait := by
  unfold Kernel.schedulerWakeIowait
  split
  · exact stop _ (.inr rfl)
  · case h_2 n found =>
    split
    · exact stop _ (.inl rfl)
    · case h_2 t node =>
      split
      · exact stop _ (.inr rfl)
      · case isFalse waits =>
        refine wake t (findIowait_mem found t node) ?_
        simpa [taskIowait] using fun h => waits (.inr (decide_eq_false h))

/-! ## Task switches -/

/-- How a task switch changes a task's state. -/
inductive Wakes : TaskState → TaskState → Prop where
  | same (st : TaskState) : Wakes st st
  | sleeping : Wakes .sleeping .wakingUp
  | running {st : TaskState} : st.isSleeping = true ∨ st = .iowait → Wakes st .running

/-- The data of a task that a task switch does not touch. -/
structure SameTask (T T' : Task) : Prop where
  allocated : T'.allocated = T.allocated
  user : T'.user = T.user
  parent : T'.parent = T.parent
  children : T'.children = T.children
  exitCode : T'.exitCode = T.exitCode

lemma SameTask.refl (T : Task) : SameTask T T := ⟨rfl, rfl, rfl, rfl, rfl⟩

lemma SameTask.trans {T T' T'' : Task} (h : SameTask T T') (h' : SameTask T' T'') :
    SameTask T T'' :=
  ⟨h'.1.trans h.1, h'.2.trans h.2, h'.3.trans h.3, h'.4.trans h.4, h'.5.trans h.5⟩

/-- Tasks have been woken, and nothing else has happened. -/
structure Woken (k k' : Kernel) : Prop where
  readyQueue : k'.readyQueue = k.readyQueue
  nextPid : k'.nextPid = k.nextPid
  deaths : k'.deaths = k.deaths
  delivered : k'.delivered = k.delivered
  panic : k'.panic = k.panic
  nextTask : k'.nextTask = k.nextTask ∨ k'.nextTask = none
  task : ∀ t, SameTask (k.task t) (k'.task t)
  wakes : ∀ t, Wakes (k.task t).state (k'.task t).state
  current : k'.current = k.current
  cpu : k'.cpu = k.cpu
  esp : ∀ t, (k'.task t).esp = (k.task t).esp
  didExecve : ∀ t, (k'.task t).didExecve = (k.task t).didExecve

/-- A task switch, or a failed attempt at one. -/
structure Switched (k k' : Kernel) : Prop where
  readyQueue : k'.readyQueue = k.readyQueue
  nextPid : k'.nextPid = k.nextPid
  deaths : k'.deaths = k.deaths
  delivered : k'.delivered = k.delivered
  panic : k'.panic = k.panic ∨ k'.panic = some .fault ∨ k'.panic = some .assertion
  nextTask : k'.nextTask = k.nextTask ∨ k'.nextTask = none
  task : ∀ t, SameTask (k.task t) (k'.task t)
  wakes : ∀ t, Wakes (k.task t).state (k'.task t).state
  /-- A new task was asked for, is running, or is the idle task. -/
  chosen : k'.current ≠ k.current → (k'.task k'.current).allocated = true ∧
    (k'.task k'.current).children ≠ none ∧ (k.nextTask = some k'.current ∨
      (k'.task k'.current).state.isRunning = true ∨ k'.current = idleTask)
  /-- The current task goes on if it is running, alone, or was asked for. -/
  stays : k'.current = k.current → k'.panic = none → (k'.task k.current).state.isRunning = true ∨
    k.nextTask = some k.current ∨ (k.task k.current).didExecve = true ∨
      (k.current = kernelTask ∧ k.readyQueue.length = 1) ∨ k.current = idleTask
  /-- Every task keeps its place, unless the current one has called `execve`. -/
  ctx : (∀ t, k'.ctx t = k.ctx t ∧ (k'.task t).didExecve = (k.task t).didExecve) ∨
    (k.task k.current).didExecve = true ∧ k'.current = k.current ∧
      k'.cpu = (k.task k.current).esp ∧ (∀ t, (k'.task t).esp = (k.task t).esp) ∧
      ∀ t, (k'.task t).didExecve = true → t ≠ k.current ∧ (k.task t).didExecve = true
  /-- What the current task has saved is left from its last switch. -/
  esp : (k'.task k'.current).esp = (k.task k'.current).esp

namespace Wakes

lemma eq_of_not {st st' : TaskState} (h : Wakes st st') (awake : st.isSleeping = false)
    (noIo : st ≠ .iowait) : st' = st := by
  cases h with
  | same => rfl
  | sleeping => simp [TaskState.isSleeping] at awake
  | running h => rcases h with h | h <;> simp_all

lemma trans {st st' st'' : TaskState} (h : Wakes st st') (h' : Wakes st' st'') :
    Wakes st st'' := by
  cases h with
  | same => exact h'
  | sleeping =>
    cases h' with
    | same => exact .sleeping
    | running => exact .running (.inl rfl)
  | running h =>
    rw [h'.eq_of_not rfl nofun]
    exact .running h

lemma isRunning {st st' : TaskState} (h : Wakes st st') (running : st.isRunning = true) :
    st'.isRunning = true := by
  cases h with
  | same => exact running
  | sleeping => rfl
  | running => rfl

end Wakes

/-- What waking does to a task. -/
structure Stirs (T T' : Task) : Prop where
  same : SameTask T T'
  wakes : Wakes T.state T'.state
  esp : T'.esp = T.esp
  didExecve : T'.didExecve = T.didExecve

lemma Stirs.refl (T : Task) : Stirs T T := ⟨.refl T, .same _, rfl, rfl⟩

namespace Woken

lemma of_stirs {task : Pid → Task} {next : Option Pid} (stirs : ∀ t, Stirs (k.task t) (task t))
    (hn : next = k.nextTask ∨ next = none) : Woken k { k with task := task, nextTask := next } where
  readyQueue := rfl
  nextPid := rfl
  deaths := rfl
  delivered := rfl
  panic := rfl
  nextTask := hn
  task t := (stirs t).same
  wakes t := (stirs t).wakes
  current := rfl
  cpu := rfl
  esp t := (stirs t).esp
  didExecve t := (stirs t).didExecve

lemma refl (k : Kernel) : Woken k k := of_stirs (fun _ => .refl _) (.inl rfl)

lemma wakeSleepers (k : Kernel) : Woken k k.wakeSleepers := by
  refine of_stirs (fun t => ?_) (.inl rfl)
  split_ifs with h
  · exact ⟨⟨rfl, rfl, rfl, rfl, rfl⟩, h.2.1 ▸ .sleeping, rfl, rfl⟩
  · exact .refl _

lemma wakeOne (t : Pid) (f : Task → Task) (next : Option Pid) (hn : next = k.nextTask ∨ next = none)
    (stirs : Stirs (k.task t) (f (k.task t))) : Woken k { k.upd t f with nextTask := next } :=
  of_stirs (upd_rel Stirs .refl stirs) hn

lemma ctx_eq (h : Woken k k') (t : Pid) : k'.ctx t = k.ctx t := by
  simp only [ctx, h.current, h.cpu, h.esp]

/-- The current task goes on, or the machine stops. -/
lemma still (h : Woken k k') {panic : Option Panic}
    (plain : panic = k.panic ∨ panic = some .fault ∨ panic = some .assertion)
    (stays : panic = none → (k'.task k.current).state.isRunning = true ∨
      k.nextTask = some k.current ∨
      (k.current = kernelTask ∧ k.readyQueue.length = 1) ∨ k.current = idleTask) :
    Switched k { k' with panic := panic } where
  readyQueue := h.readyQueue
  nextPid := h.nextPid
  deaths := h.deaths
  delivered := h.delivered
  panic := plain
  nextTask := h.nextTask
  task := h.task
  wakes := h.wakes
  chosen ne := absurd h.current ne
  stays _ running := by
    tauto
  ctx := .inl fun t => ⟨h.ctx_eq t, h.didExecve t⟩
  esp := h.esp _

lemma stay (h : Woken k k')
    (stays : (k'.task k.current).state.isRunning = true ∨ k.nextTask = some k.current ∨
      (k.current = kernelTask ∧ k.readyQueue.length = 1) ∨ k.current = idleTask) : Switched k k' :=
  h.still (.inl h.panic) fun _ => stays

lemma stop (h : Woken k k') {p : Panic} (plain : p = .fault ∨ p = .assertion) :
    Switched k (k'.stop p) :=
  h.still (.inr (plain.imp (congrArg some) (congrArg some))) nofun

lemma trans {k'' : Kernel} (h : Woken k k') (h' : Woken k' k'') : Woken k k'' where
  readyQueue := h'.readyQueue.trans h.readyQueue
  nextPid := h'.nextPid.trans h.nextPid
  deaths := h'.deaths.trans h.deaths
  delivered := h'.delivered.trans h.delivered
  panic := h'.panic.trans h.panic
  nextTask := by
    rcases h'.nextTask with eq | eq
    · rw [eq]
      exact h.nextTask
    · exact .inr eq
  task t := (h.task t).trans (h'.task t)
  wakes t := (h.wakes t).trans (h'.wakes t)
  current := h'.current.trans h.current
  cpu := h'.cpu.trans h.cpu
  esp t := (h'.esp t).trans (h.esp t)
  didExecve t := (h'.didExecve t).trans (h.didExecve t)

/-- The outgoing task saves its place; the incoming one goes on where it was. -/
lemma resume (h : Woken k k') (new : Pid) (other : new ≠ k'.current)
    (allocated : (k'.task new).allocated = true) (alive : (k'.task new).children ≠ none)
    (chosen : k.nextTask = some new ∨ (k'.task new).state.isRunning = true ∨ new = idleTask) :
    Switched k { k'.upd k'.current fun t => { t with esp := k'.cpu } with
      current := new, cpu := (k'.task new).esp } := by
  have saved (P : Task → Task → Prop) := upd_rel (k := k') (t := k'.current)
    (f := fun t => { t with esp := k'.cpu }) P
  exact {
    readyQueue := h.readyQueue
    nextPid := h.nextPid
    deaths := h.deaths
    delivered := h.delivered
    panic := .inl h.panic
    nextTask := h.nextTask
    task := fun t => (h.task t).trans (saved SameTask .refl ⟨rfl, rfl, rfl, rfl, rfl⟩ t)
    wakes := fun t => (h.wakes t).trans
      (saved (fun T T' => Wakes T.state T'.state) (fun _ => .same _) (.same _) t)
    chosen := fun _ => by simpa [other] using ⟨allocated, alive, chosen⟩
    stays := fun eq => absurd (eq.trans h.current.symm) other
    ctx := .inl fun t => by
      refine ⟨?_, (saved (fun T T' => T'.didExecve = T.didExecve) (fun _ => rfl) rfl t).trans
        (h.didExecve t)⟩
      rw [← h.ctx_eq t]
      by_cases ht : t = new
      · subst ht
        simp [Kernel.ctx, other]
      · by_cases hc : t = k'.current
        · subst hc
          simp [Kernel.ctx, ht]
        · simp [Kernel.ctx, ht, hc]
    esp := by simpa [other] using h.esp new }

lemma switchTask (h : Woken k k') {new : Pid}
    (chosen : k.nextTask = some new ∨ (k'.task new).state.isRunning = true ∨ new = idleTask) :
    Switched k (k'.switchTask new) := by
  unfold Kernel.switchTask
  split_ifs with unallocated sleeping same gone
  · exact h.stop (.inl rfl)
  · exact h.stop (.inr rfl)
  · subst same
    refine h.stay ?_
    rw [← h.current]
    tauto
  · exact h.stop (.inl rfl)
  · -- a task that is waking up is running from now on
    have woken : Woken k' (k'.upd new fun t =>
        if t.state = .wakingUp then { t with state := .running } else t) := by
      refine wakeOne new _ k'.nextTask (.inl rfl) ?_
      split_ifs with waking
      · exact ⟨⟨rfl, rfl, rfl, rfl, rfl⟩, .running (.inl (by rw [waking]; rfl)), rfl, rfl⟩
      · exact .refl _
    have := (h.trans woken).resume new same ?_ ?_ ?_
    · simpa [same] using this
    · rw [(woken.task new).allocated]
      simpa using unallocated
    · rwa [(woken.task new).children]
    · exact chosen.imp_right (.imp_left (woken.wakes new).isRunning)

end Woken

lemma Woken.switchNext (h : Woken k k') : Switched k k'.switchNext :=
  switchNext_cases k' (fun running => h.stay (.inl (h.current ▸ running))) (fun _ => h.stop)
    fun _ _ chosen => h.switchTask (.inr chosen)

lemma switched_execve (execve : (k.task k.current).didExecve = true) :
    Switched k ((k.upd k.current fun t => { t with didExecve := false }).jump
      (k.task k.current).esp) where
  readyQueue := rfl
  nextPid := rfl
  deaths := rfl
  delivered := rfl
  panic := .inl rfl
  nextTask := .inl rfl
  task t := by
    rw [jump_task]
    exact upd_rel SameTask .refl ⟨rfl, rfl, rfl, rfl, rfl⟩ t
  wakes t := by
    rw [jump_task, upd_part Task.state rfl]
    exact .same _
  chosen ne := absurd rfl ne
  stays _ _ := .inr (.inr (.inl execve))
  ctx := by
    refine .inr ⟨execve, rfl, rfl, fun t => ?_, fun t set => ?_⟩
    · rw [jump_task, upd_part Task.esp rfl]
    · by_cases h : t = k.current
      · subst h
        simp at set
      · exact ⟨h, by simpa [h] using set⟩
  esp := by simp

lemma switchTask_nextTask (k : Kernel) (new : Pid) : (k.switchTask new).nextTask = k.nextTask := by
  unfold Kernel.switchTask
  split_ifs <;> rfl

lemma schedulerTaskSwitch_nextTask (busy : k.current ≠ kernelTask) :
    k.schedulerTaskSwitch.nextTask = none := by
  refine schedulerTaskSwitch_cases (motive := fun k' => k'.nextTask = none) k
    (fun alone => absurd alone.1 busy) (fun t _ _ => switchTask_nextTask _ t)
    (fun t _ _ => switchTask_nextTask _ t) (fun none _ => none) fun none => ?_
  exact switchNext_cases (motive := fun k' => k'.nextTask = .none) _ (fun _ => none)
    (fun _ _ => none) fun t _ _ => (switchTask_nextTask _ t).trans none

lemma schedulerTaskSwitch_switched (k : Kernel) : Switched k k.schedulerTaskSwitch := by
  refine schedulerTaskSwitch_cases k
    (fun alone => (Woken.refl k).stay (.inr (.inr (.inl alone)))) (fun t next _ => ?_)
    (fun t next sleeping => ?_) (fun _ => switched_execve)
    fun _ => (Woken.wakeSleepers k).switchNext
  · refine Woken.switchTask ?_ (.inl next)
    exact Woken.of_stirs (fun _ => .refl _) (.inr rfl)
  · refine Woken.switchTask ?_ (.inl next)
    exact Woken.wakeOne t (fun task => { task with state := .running, wakeupTime := 0 }) none
      (.inr rfl) ⟨⟨rfl, rfl, rfl, rfl, rfl⟩, .running (.inl sleeping), rfl, rfl⟩

lemma schedulerWakeIowait_switched (k : Kernel) : Switched k k.schedulerWakeIowait := by
  refine schedulerWakeIowait_cases k (fun _ => (Woken.refl k).stop) fun t _ iowait => ?_
  have woken : Woken k (k.setState t .running) :=
    Woken.wakeOne t (fun task => { task with state := .running }) k.nextTask (.inl rfl)
      ⟨⟨rfl, rfl, rfl, rfl, rfl⟩, .running (.inr iowait), rfl, rfl⟩
  exact woken.switchTask (.inr (.inl (by simp [setState, TaskState.isRunning])))

/-! ## Steps -/

/-- The current task goes from its place to `pc`. -/
inductive Jump (k : Kernel) : Pc → Prop where
  | sleep (ticks : Nat) : k.cpu = .user → Jump k (.sleepRead ticks .user)
  | yield : k.cpu = .user → Jump k .ioYield
  | exit (status : Nat) : k.cpu = .user → numServices ≤ k.current → Jump k (.exitKill status)
  | wait : k.cpu = .user → numServices ≤ k.current → Jump k .waitScan
  | waitpid (pid : Option Pid) (nohang : Bool) : k.cpu = .user → numServices ≤ k.current →
      Jump k (.waitpidScan pid nohang)
  | entry : k.cpu = .entry → Jump k .user
  | waitEnd : k.cpu = .waitScan → Jump k .user
  | waitpidEnd {pid : Option Pid} {nohang : Bool} : k.cpu = .waitpidScan pid nohang → Jump k .user
  | waitStore : k.cpu = .waitScan → k.deadChild none = none → Jump k .waitStore
  | waitpidStore {pid : Option Pid} {nohang : Bool} : k.cpu = .waitpidScan pid nohang →
      Jump k (.waitpidStore pid)
  | waitpidAgain {pid : Option Pid} : k.cpu = .waitpidRescan pid → Jump k (.waitpidStore pid)
  | sleepRead {ticks : Nat} {ret : Pc} : k.cpu = .sleepRead ticks ret →
      Jump k (.sleepState (Lib.add32 k.ticks ticks) ret)
  | reaperScan : k.cpu = .reaperScan → Jump k (.sleepRead 2 .reaperScan)
  | reaperResume : k.cpu = .reaperResume → Jump k (.sleepRead 2 .reaperScan)

/-- The current task updates its own record and goes to `pc`. -/
inductive Own (k : Kernel) : Pc → (Task → Task) → Prop where
  | sleepState {wakeup : Nat} {ret : Pc} : k.cpu = .sleepState wakeup ret →
      (k.task k.current).wakeupTime = 0 →
      Own k (.sleepTime wakeup ret) fun t => { t with state := .sleeping }
  | sleepTime {wakeup : Nat} {ret : Pc} : k.cpu = .sleepTime wakeup ret →
      Own k (.sleepYield ret) fun t => { t with wakeupTime := wakeup }
  | io : k.cpu = .user → Own k .ioYield fun t => { t with state := .iowait }
  | exitKill {status : Nat} : k.cpu = .exitKill status →
      Own k (.exitStore status) fun t => { t with state := .exiting, exitCode := 256 }
  | exitStore {status : Nat} : k.cpu = .exitStore status →
      Own k .exitYield fun t => { t with exitCode := status % 256 * 256 }
  | waitStore : k.cpu = .waitStore → Own k .waitYield fun t => { t with state := .waiting }
  | waitpidStore {pid : Option Pid} : k.cpu = .waitpidStore pid →
      Own k (.waitpidYield pid) fun t => { t with state := .waiting }
  | execve : k.cpu = .user → numServices ≤ k.current →
      Own k .execveYield fun t => { t with state := .running, didExecve := true, esp := .entry }

/-- Where a task continues after it has yielded. -/
def Pc.yields : Pc → Option Pc
  | .sleepYield ret => some ret
  | .ioYield => some .user
  | .exitYield => some .exitReturned
  | .waitYield => some .waitRescan
  | .waitpidYield pid => some (.waitpidRescan pid)
  | .execveYield => some .execveReturned
  | .reaperYield => some .reaperResume
  | _ => none

/-- A task looks for a dead child. -/
def Pc.isScan : Pc → Bool
  | .waitScan | .waitRescan | .waitpidScan .. | .waitpidRescan _ => true
  | _ => false

/-- Everything that can happen. -/
inductive Move (k : Kernel) : Action → Kernel → Prop where
  | same {a : Action} : Move k a k
  | stop {a : Action} {p : Panic}
      (wait : p = .waitNoDeadChild → k.cpu = .waitRescan ∧ k.deadChild none = none)
      (execve : p = .execveReturned → k.cpu = .execveReturned) : Move k a (k.stop p)
  | jump {a : Action} {pc : Pc} : Jump k pc → Move k a (k.jump pc)
  | own {a : Action} {pc : Pc} {f : Task → Task} : Own k pc f → (pc = .ioYield → a = .call .io) →
      Move k a ((k.upd k.current f).jump pc)
  | kill {t : Pid} : k.cpu = .user → t ≠ reaperTask → t ∈ k.readyQueue →
      Move k (.call (.kill t)) (k.kill t)
  | create {a : Action} {user : Bool} : k.cpu = .user → Move k a (k.createTask user)
  | fork {a : Action} : k.cpu = .user → numServices ≤ k.current → Move k a k.forkLink
  | enqueue {a : Action} {c : Pid} : k.cpu = .forkEnqueue c →
      Move k a ((k.enqueue c).jump (.forkRun c))
  | forkRun {a : Action} {c : Pid} : k.cpu = .forkRun c → (k.task c).allocated = true →
      Move k a ((k.setState c .running).jump .user)
  | collect {a : Action} {pid : Option Pid} {c : Pid} : k.cpu.isScan = true →
      k.deadChild pid = some c → Move k a (k.collect c)
  | reap : k.cpu = .reaperScan → Move k .run k.reap
  | yield {pc : Pc} : k.cpu.yields = some pc → Move k .run (k.yieldTo pc)
  | tick : k.cpu.interruptible = true →
      Move k .tick { k.schedulerTaskSwitch with ticks := Lib.add32 k.ticks 1 }
  | net {h : NetHandler} : k.cpu.interruptible = true → (k.task h.task).allocated = true →
      Move k (.net h) (k.setNextTask h.task)
  | ata : k.cpu.interruptible = true → Move k .ata k.schedulerWakeIowait

lemma Move.stop' {a : Action} {p : Panic} (wait : p ≠ .waitNoDeadChild)
    (execve : p ≠ .execveReturned) : Move k a (k.stop p) :=
  .stop (absurd · wait) (absurd · execve)

lemma sleep_moves {milliseconds : Nat} (cpu : k.cpu = .user) :
    Move k a (k.sleep milliseconds) := by
  unfold Kernel.sleep
  split
  · exact .same
  · exact .jump (.sleep _ cpu)

lemma call_moves {c : Call} (cpu : k.cpu = .user) (allowed : c.allowed k = true) :
    Move k (.call c) (k.call c) := by
  cases c with
  | sleep | nanosleep => exact sleep_moves cpu
  | io => exact .own (.io cpu) fun _ => rfl
  | yield => exact .jump (.yield cpu)
  | exit status => exact .jump (.exit status cpu (by simpa [Call.allowed] using allowed))
  | kill t =>
    simp only [Kernel.call, killPid]
    split
    · exact .stop' nofun nofun
    · split
      · case isTrue mem => exact .kill cpu ‹_› mem
      · exact .same
  | create user => exact .create cpu
  | fork =>
    simp only [Call.allowed, decide_eq_true_eq] at allowed
    exact .fork cpu allowed.1
  | wait =>
    simp only [Call.allowed, decide_eq_true_eq] at allowed
    exact .jump (.wait cpu allowed.1)
  | waitpid pid nohang untraced =>
    simp only [Call.allowed, decide_eq_true_eq] at allowed
    simp only [Kernel.call]
    split
    · exact .same
    · split
      · exact .jump (.wait cpu allowed.1)
      · split
        · exact .stop' nofun nofun
        · exact .jump (.waitpid pid nohang cpu allowed.1)
  | execve =>
    simp only [Call.allowed, decide_eq_true_eq] at allowed
    exact .own (.execve cpu allowed.1) nofun

lemma kill_current (k : Kernel) :
    k.kill k.current = k.upd k.current fun t => { t with state := .exiting, exitCode := 256 } := by
  simp [kill, setState, upd]

lemma Move.of_some {k₁ : Kernel} {a : Action} (move : Move k a k₁) (h : some k₁ = some k') :
    Move k a k' :=
  some.inj h ▸ move

lemma run_moves : k.run = some k' → Move k .run k' := by
  unfold Kernel.run
  cases cpu : k.cpu with
  | user | halt => exact nofun
  | entry => exact .of_some (.jump (.entry cpu))
  | sleepRead ticks ret => exact .of_some (.jump (.sleepRead cpu))
  | sleepState wakeup ret =>
    dsimp only
    split_ifs with busy
    · exact .of_some (.stop' nofun nofun)
    · simp only [not_or, not_not] at busy
      exact .of_some (.own (.sleepState cpu busy.2.2) nofun)
  | sleepTime wakeup ret => exact .of_some (.own (.sleepTime cpu) nofun)
  | sleepYield _ | ioYield | exitYield | waitYield | waitpidYield _ | execveYield | reaperYield =>
    exact .of_some (.yield (by rw [cpu]; rfl))
  | exitKill status =>
    rw [kill_current]
    exact .of_some (.own (.exitKill cpu) nofun)
  | exitStore status => exact .of_some (.own (.exitStore cpu) nofun)
  | exitReturned => exact .of_some (.stop' nofun nofun)
  | waitScan =>
    dsimp only
    split_ifs
    · exact .of_some (.jump (.waitEnd cpu))
    · split
      · case h_1 c found => exact .of_some (.collect (by rw [cpu]; rfl) found)
      · case h_2 none => exact .of_some (.jump (.waitStore cpu none))
  | waitStore => exact .of_some (.own (.waitStore cpu) nofun)
  | waitRescan =>
    dsimp only
    split
    · case h_1 c found => exact .of_some (.collect (by rw [cpu]; rfl) found)
    · case h_2 none =>
      refine .of_some (.stop (fun _ => ⟨cpu, none⟩) ?_)
      split <;> exact nofun
  | waitpidScan pid nohang =>
    dsimp only
    split
    · case h_1 c found => exact .of_some (.collect (by rw [cpu]; rfl) found)
    · split_ifs
      · exact .of_some (.jump (.waitpidEnd cpu))
      · exact .of_some (.jump (.waitpidStore cpu))
  | waitpidStore pid => exact .of_some (.own (.waitpidStore cpu) nofun)
  | waitpidRescan pid =>
    dsimp only
    split_ifs
    · exact .of_some (.stop' nofun nofun)
    · split
      · case h_1 c found => exact .of_some (.collect (by rw [cpu]; rfl) found)
      · exact .of_some (.jump (.waitpidAgain cpu))
  | forkEnqueue c => exact .of_some (.enqueue cpu)
  | forkRun c =>
    dsimp only
    split_ifs with allocated
    · exact .of_some (.forkRun cpu allocated)
    · exact .of_some (.stop' nofun nofun)
  | execveReturned => exact .of_some (.stop nofun fun _ => cpu)
  | reaperScan => exact .of_some (.reap cpu)
  | reaperResume => exact .of_some (.jump (.reaperResume cpu))

/-- The machine only moves while it has not stopped, as `Move` says. -/
lemma step_moves {a : Action} (h : step k a = some k') : k.panic = none ∧ Move k a k' := by
  unfold step at h
  by_cases running : k.panic = none
  · refine ⟨running, ?_⟩
    rw [if_neg (not_not.mpr running)] at h
    revert h
    cases a with
    | call c =>
      dsimp only
      split_ifs with enabled
      · exact .of_some (call_moves enabled.1 enabled.2)
      · exact nofun
    | run => exact run_moves
    | tick =>
      split_ifs with enabled
      · exact .of_some (.tick enabled)
      · exact nofun
    | net handler =>
      dsimp only
      split_ifs with enabled allocated
      · exact .of_some (.net enabled allocated)
      · exact .of_some (.stop' nofun nofun)
      · exact nofun
    | ata =>
      split_ifs with enabled
      · exact .of_some (.ata enabled)
      · exact nofun
  · rw [if_pos running] at h
    cases h

end ExscapeOS.Tasks
