import Mathlib.Tactic
import ExscapeOS.Lib.Transition
import ExscapeOS.Lib.Word

/-!
# Tasks and the scheduler

`fork`, `_exit`, `kill`, `wait`, `waitpid`, `sleep` and `execve` of `kernel/task.c` and
`kernel/elf.c`, the reaper task, and the scheduler. One processor executes the current task, and
interrupts are the only way to leave it: the timer, the task switch vector (`YIELD`), the network
card, which asks for a next task, and the disk, which wakes the task that waits for it.

A step is what cannot be interrupted: one store to shared data, or everything between
`INTERRUPT_LOCK` and the next point where interrupts are enabled or the task yields. A failed
assertion stops the machine. A task is identified by its process id. The ghost fields `deaths` and
`delivered` record which tasks were destroyed, and which exit codes `wait` and `waitpid` have
returned.
-/
namespace ExscapeOS.Tasks

abbrev Pid : Type := Nat

inductive TaskState where
  | running
  | sleeping
  | wakingUp
  | iowait
  | exiting
  | idle
  | dead
  | waiting
  deriving DecidableEq

/-- `state & TASK_RUNNING`; `TASK_WAKING_UP` has this bit too. -/
def TaskState.isRunning : TaskState → Bool
  | .running | .wakingUp => true
  | _ => false

/-- `state & TASK_SLEEPING`. -/
def TaskState.isSleeping : TaskState → Bool
  | .sleeping | .wakingUp => true
  | _ => false

/-- Where a task is, which stands for its stack pointer. -/
inductive Pc where
  /-- The task's own code. -/
  | user
  /-- The entry point of an image loaded by `execve`, on a new stack. -/
  | entry
  /-- The loop of the idle task. -/
  | halt
  /-- In `sleep`, before it reads the tick count. -/
  | sleepRead (ticks : Nat) (ret : Pc)
  | sleepState (wakeup : Nat) (ret : Pc)
  | sleepTime (wakeup : Nat) (ret : Pc)
  | sleepYield (ret : Pc)
  | ioYield
  | exitKill (status : Nat)
  | exitStore (status : Nat)
  | exitYield
  | exitReturned
  | waitScan
  | waitStore
  | waitYield
  | waitRescan
  | waitpidScan (pid : Option Pid) (nohang : Bool)
  | waitpidStore (pid : Option Pid)
  | waitpidYield (pid : Option Pid)
  | waitpidRescan (pid : Option Pid)
  | forkEnqueue (child : Pid)
  | forkRun (child : Pid)
  | execveYield
  | execveReturned
  | reaperScan
  | reaperYield
  | reaperResume
  deriving DecidableEq

/-- Interrupts are off from the reaper's scan until it has been scheduled again. -/
def Pc.interruptible : Pc → Bool
  | .reaperYield | .reaperResume => false
  | _ => true

/-- `struct task`. The stack, the descriptor table and the memory map are freed together with
`children`, which is then `none`. -/
structure Task where
  allocated : Bool
  state : TaskState
  wakeupTime : Nat
  /-- Privilege level 3. -/
  user : Bool
  esp : Pc
  didExecve : Bool
  parent : Option Pid
  children : Option (List Pid)
  exitCode : Nat

/-- Memory that is not, or no longer, a task. -/
def Task.free : Task :=
  { allocated := false, state := .idle, wakeupTime := 0, user := false, esp := .halt
    didExecve := false, parent := none, children := none, exitCode := 0 }

/-- Why the machine stopped. -/
inductive Panic where
  | assertion
  /-- An access through a pointer to freed memory. -/
  | fault
  | waitNoDeadChild
  | processGroup
  | exitReturned
  | execveReturned
  deriving DecidableEq

/-- The exit code of `child`, a child of `parent`. -/
structure Report where
  parent : Pid
  child : Pid
  status : Nat
  deriving DecidableEq

structure Kernel where
  task : Pid → Task
  readyQueue : List Pid
  current : Pid
  nextTask : Option Pid
  /-- Where the current task is; its `esp` is set when it is switched out. -/
  cpu : Pc
  ticks : Nat
  nextPid : Pid
  panic : Option Panic
  /-- Children that were destroyed, with their parent at that time. -/
  deaths : List Report
  /-- Exit codes that `wait` and `waitpid` have returned. -/
  delivered : List Report

def kernelTask : Pid := 0
def reaperTask : Pid := 1
def idleTask : Pid := 2

/-- The tasks of the kernel; every other task has a higher id. -/
def numServices : Pid := 5

inductive NetHandler where
  | arp
  | icmp
  deriving DecidableEq

/-- `nethandler_arp->task` and `nethandler_icmp->task`. -/
def NetHandler.task : NetHandler → Pid
  | .arp => 3
  | .icmp => 4

namespace Kernel

@[simps readyQueue current nextTask cpu nextPid panic deaths delivered]
def upd (t : Pid) (f : Task → Task) (k : Kernel) : Kernel :=
  { k with task := Function.update k.task t (f (k.task t)) }

def setState (t : Pid) (state : TaskState) (k : Kernel) : Kernel :=
  k.upd t fun task => { task with state := state }

/-- The current task goes on at `pc`. -/
@[simps task readyQueue current nextTask cpu nextPid panic deaths delivered]
def jump (pc : Pc) (k : Kernel) : Kernel := { k with cpu := pc }

@[simps task]
def stop (p : Panic) (k : Kernel) : Kernel := { k with panic := some p }

/-- `memset` and `kfree` of a task that is taken off the ready queue. -/
def release (t : Pid) (k : Kernel) : Kernel :=
  { k.upd t fun _ => .free with readyQueue := k.readyQueue.erase t }

/-! ## The scheduler -/

/-- `list_node_find_next_predicate`: the next match behind `t`, around the end. -/
def findNext (p : Pid → Bool) (t : Pid) (queue : List Pid) : Option Pid :=
  ((queue.dropWhile (· ≠ t)).tail ++ queue.takeWhile (· ≠ t)).find? p

def switchTask (new : Pid) (k : Kernel) : Kernel :=
  if (k.task new).allocated = false then k.stop .fault
  else if (k.task new).state = .sleeping then k.stop .assertion
  else if new = k.current then k
  else if (k.task new).children = none then k.stop .fault
  else
    let k := k.upd new fun t => if t.state = .wakingUp then { t with state := .running } else t
    let k := k.upd k.current fun t => { t with esp := k.cpu }
    { k with current := new, cpu := (k.task new).esp }

def setNextTask (t : Pid) (k : Kernel) : Kernel :=
  { k.upd t fun task => { task with state := .running, wakeupTime := 0 } with nextTask := some t }

/-- The scan for sleeping tasks whose time has come. -/
def wakeSleepers (k : Kernel) : Kernel :=
  { k with task := fun t =>
      if t ∈ k.readyQueue ∧ (k.task t).state = .sleeping ∧ (k.task t).wakeupTime ≤ k.ticks then
        { k.task t with state := .wakingUp, wakeupTime := 0 }
      else k.task t }

/-- The end of `scheduler_taskSwitch`: the next running task in the queue. -/
def switchNext (k : Kernel) : Kernel :=
  if k.current ∉ k.readyQueue then
    -- the current task is not on the queue: start over from the beginning
    match k.readyQueue.head? with
    | none => k.stop .fault
    | some t =>
      if t = k.current then k
      else if (k.task t).state.isRunning then k.switchTask t else k.stop .assertion
  else
    match findNext (fun t => (k.task t).state.isRunning) k.current k.readyQueue with
    | none => if (k.task k.current).state.isRunning then k else k.switchTask idleTask
    | some t => if t = k.current then k else k.switchTask t

def schedulerTaskSwitch (k : Kernel) : Kernel :=
  if k.current = kernelTask ∧ k.readyQueue.length = 1 then k
  else
    match k.nextTask with
    | some t =>
      let k := { k with nextTask := none }
      let k := if (k.task t).state.isSleeping then
          k.upd t fun task => { task with state := .running, wakeupTime := 0 }
        else k
      k.switchTask t
    | none =>
      if (k.task k.current).didExecve then
        (k.upd k.current fun t => { t with didExecve := false }).jump (k.task k.current).esp
      else k.wakeSleepers.switchNext

/-- `task_iowait_predicate`. -/
def taskIowait (k : Kernel) (t : Pid) : Bool := (k.task t).state = .iowait

/-- The first half of `scheduler_wake_iowait`: the node `n`, which may be `NULL`. There is no result
if the assertion fails. The search starts behind the head. -/
def findIowait (k : Kernel) : Option (Option Pid) :=
  if k.taskIowait k.current then some none
  else if k.current ≠ kernelTask ∧ k.taskIowait kernelTask then some k.readyQueue.head?
  else (k.readyQueue.head?.bind fun head => findNext k.taskIowait head k.readyQueue).map some

def schedulerWakeIowait (k : Kernel) : Kernel :=
  match k.findIowait with
  | none => k.stop .assertion
  | some n =>
    match n.or (k.readyQueue.find? (· = k.current)) with
    | none => k.stop .fault
    | some t =>
      if findNext k.taskIowait t k.readyQueue ≠ none ∨ k.taskIowait t = false then k.stop .assertion
      else (k.setState t .running).switchTask t

/-! ## Exit codes -/

/-- `kill`. The exit code goes to the current task, whoever is killed. -/
def kill (t : Pid) (k : Kernel) : Kernel :=
  (k.setState t .exiting).upd k.current fun task => { task with exitCode := 256 }

def killPid (t : Pid) (k : Kernel) : Kernel :=
  if t = reaperTask then k.stop .assertion
  else if t ∈ k.readyQueue then k.kill t
  else k

def doWaitOne (parent child : Pid) (k : Kernel) : Kernel :=
  let children := (k.task parent).children.getD []
  if children = [] then { k with readyQueue := k.readyQueue.erase child }.stop .assertion
  else
    let k :=
      (k.upd parent fun t => { t with children := some (children.erase child) }).release child
    if child ∈ children then k else k.stop .assertion

/-- The current task's `wait` or `waitpid` returns with `child`. -/
def collect (child : Pid) (k : Kernel) : Kernel :=
  let report : Report := ⟨k.current, child, (k.task child).exitCode⟩
  ({ k with delivered := k.delivered ++ [report] }.doWaitOne k.current child).jump .user

def children (k : Kernel) : List Pid := (k.task k.current).children.getD []

/-- The first dead child that `pid` selects (`none` selects all). -/
def deadChild (pid : Option Pid) (k : Kernel) : Option Pid :=
  k.children.find? fun c => (pid = none ∨ pid = some c) ∧ (k.task c).state = .dead

/-! ## Destruction -/

/-- `destroy_task` for a child: a dead one is freed, a live one is moved. -/
def orphan (k : Kernel) (child : Pid) : Kernel :=
  if (k.task child).state = .dead then k.release child
  else
    (k.upd reaperTask fun t => { t with children := t.children.map (· ++ [child]) }).upd child
      fun t => { t with parent := some reaperTask }

/-- `destroy_task`: the task dies, and its children lose their parent. -/
def bury (t : Pid) (cs : List Pid) (k : Kernel) : Kernel :=
  (cs.foldl orphan (k.setState t .dead)).upd t fun task => { task with children := none }

/-- The end of `destroy_task`, up to its `YIELD`: a parent may want the exit code. -/
def notify (t : Pid) (k : Kernel) : Kernel :=
  match (k.task t).parent with
  | none => (k.release t).jump (.sleepRead 2 .reaperScan)
  | some p =>
    if (k.task p).state = .dead then k.stop .assertion
    else
      let report : Report := ⟨p, t, (k.task t).exitCode⟩
      let k : Kernel := { k with deaths := k.deaths ++ [report] }
      (if (k.task p).state = .waiting then k.setNextTask p else k).jump .reaperYield

def destroyTask (t : Pid) (k : Kernel) : Kernel :=
  if t = kernelTask ∨ t = k.current then k.stop .assertion
  else
    match (k.task t).children with
    | none => k.stop .fault
    | some cs => (k.bury t cs).notify t

/-- `reaper_func`: the first task on the queue that is exiting or dead. -/
def reaperHit (k : Kernel) : Option Pid :=
  k.readyQueue.find? fun t => (k.task t).state = .exiting ∨ (k.task t).state = .dead

/-- One round of `reaper_func`. -/
def reap (k : Kernel) : Kernel :=
  match k.reaperHit with
  | none => k.jump (.sleepRead 2 .reaperScan)
  | some t =>
    if (k.task t).state = .exiting then k.destroyTask t
    else (k.doWaitOne k.current t).jump (.sleepRead 2 .reaperScan)

/-! ## Creation -/

/-- `list_node_insert_after` the current task. -/
def enqueue (t : Pid) (k : Kernel) : Kernel :=
  if k.current ∈ k.readyQueue then
    { k with readyQueue := k.readyQueue.takeWhile (· ≠ k.current) ++
        k.current :: t :: (k.readyQueue.dropWhile (· ≠ k.current)).tail }
  else k.stop .assertion

/-- A task as `create_task` or `fork` sets it up. -/
def newTask (state : TaskState) (user : Bool) (parent : Option Pid) : Task :=
  { allocated := true, state := state, wakeupTime := 0, user := user, esp := .user
    didExecve := false, parent := parent, children := some [], exitCode := 0 }

/-- `create_task` and `create_task_elf`. -/
def createTask (user : Bool) (k : Kernel) : Kernel :=
  { k.upd k.nextPid fun _ => newTask .running user none with nextPid := k.nextPid + 1 }.enqueue
    k.nextPid

/-- `fork` up to the link of the child to its parent. `child->parent` is set after `list_append`,
but nobody reads it before the child is ready: both are one step. `unlinked` is the state between.
-/
def forkLink (k : Kernel) : Kernel :=
  let child := k.nextPid
  let k := { k.upd child fun _ => newTask .idle true (some k.current) with nextPid := child + 1 }
  (k.upd k.current fun t => { t with children := t.children.map (· ++ [child]) }).jump
    (.forkEnqueue child)

/-- The successful end of `execve`. -/
def execveDone (k : Kernel) : Kernel :=
  (k.upd k.current fun t => { t with state := .running, didExecve := true, esp := .entry }).jump
    .execveYield

end Kernel

/-! ## The steps of a task -/

/-- The duration of a `sleep` in ticks: `milliseconds / (1000 / TIMER_HZ)`, but at least one. -/
def ticksToWait (milliseconds : Nat) : Nat :=
  if milliseconds / 10 = 0 then 1 else milliseconds / 10

inductive Call where
  | sleep (milliseconds : Nat)
  /-- `sys_nanosleep`, with a duration that is not negative. -/
  | nanosleep (sec nsec : Nat)
  | io
  /-- `mutex_lock` when the mutex is taken. -/
  | yield
  | exit (status : Nat)
  | kill (pid : Pid)
  | create (user : Bool)
  | fork
  | wait
  /-- `pid` is `none` for -1, and `some 0` for a process group. -/
  | waitpid (pid : Option Pid) (nohang untraced : Bool)
  | execve

/-- The services only sleep, yield and wait for the disk, except that the kernel task starts the
shells. Of the other tasks, those in user mode have children. -/
def Call.allowed (k : Kernel) : Call → Bool
  | .sleep _ | .nanosleep .. | .io | .yield => true
  | .create _ => k.current = kernelTask ∨ numServices ≤ k.current
  | .exit _ | .kill _ => numServices ≤ k.current
  | .fork | .wait | .waitpid .. | .execve => numServices ≤ k.current ∧ (k.task k.current).user

namespace Kernel

/-- `sleep`, up to the point where it reads the tick count. -/
def sleep (milliseconds : Nat) (k : Kernel) : Kernel :=
  if milliseconds = 0 then k else k.jump (.sleepRead (ticksToWait milliseconds) .user)

/-- What the current task's own code can ask for. -/
def call (k : Kernel) : Call → Kernel
  | .sleep milliseconds => k.sleep milliseconds
  | .nanosleep sec nsec => k.sleep ((sec * 1000 + nsec / 1000000) % Lib.wordSize)
  | .io => (k.setState k.current .iowait).jump .ioYield
  | .yield => k.jump .ioYield
  | .exit status => k.jump (.exitKill status)
  | .kill pid => k.killPid pid
  | .create user => k.createTask user
  | .fork => k.forkLink
  | .wait => k.jump .waitScan
  | .waitpid pid nohang untraced =>
    if k.children = [] then k
    else if pid = none ∧ nohang = false ∧ untraced = false then k.jump .waitScan
    else if pid = some 0 then k.stop .processGroup
    else k.jump (.waitpidScan pid nohang)
  | .execve => k.execveDone

/-- `YIELD`: the task goes on at `pc` when it is scheduled again. -/
def yieldTo (pc : Pc) (k : Kernel) : Kernel := (k.jump pc).schedulerTaskSwitch

/-- The next step of the current task inside the kernel. -/
def run (k : Kernel) : Option Kernel :=
  match k.cpu with
  | .user | .halt => none
  | .entry => some (k.jump .user)
  | .sleepRead ticks ret => some (k.jump (.sleepState (Lib.add32 k.ticks ticks) ret))
  | .sleepState wakeup ret =>
    let t := k.task k.current
    if t.state = .sleeping ∨ t.state = .iowait ∨ t.wakeupTime ≠ 0 then some (k.stop .assertion)
    else some ((k.setState k.current .sleeping).jump (.sleepTime wakeup ret))
  | .sleepTime wakeup ret =>
    some ((k.upd k.current fun t => { t with wakeupTime := wakeup }).jump (.sleepYield ret))
  | .sleepYield ret => some (k.yieldTo ret)
  | .ioYield => some (k.yieldTo .user)
  | .exitKill status => some ((k.kill k.current).jump (.exitStore status))
  | .exitStore status =>
    some ((k.upd k.current fun t => { t with exitCode := status % 256 * 256 }).jump .exitYield)
  | .exitYield => some (k.yieldTo .exitReturned)
  | .exitReturned => some (k.stop .exitReturned)
  | .waitScan =>
    if k.children = [] then some (k.jump .user)
    else
      match k.deadChild none with
      | some c => some (k.collect c)
      | none => some (k.jump .waitStore)
  | .waitStore => some ((k.setState k.current .waiting).jump .waitYield)
  | .waitYield => some (k.yieldTo .waitRescan)
  | .waitRescan =>
    match k.deadChild none with
    | some c => some (k.collect c)
    | none => some (k.stop (if k.children = [] then .assertion else .waitNoDeadChild))
  | .waitpidScan pid nohang =>
    match k.deadChild pid with
    | some c => some (k.collect c)
    | none =>
      if k.children = [] ∨ (∃ c, pid = some c ∧ c ∉ k.children) ∨ nohang then some (k.jump .user)
      else some (k.jump (.waitpidStore pid))
  | .waitpidStore pid => some ((k.setState k.current .waiting).jump (.waitpidYield pid))
  | .waitpidYield pid => some (k.yieldTo (.waitpidRescan pid))
  | .waitpidRescan pid =>
    if k.children = [] then some (k.stop .assertion)
    else
      match k.deadChild pid with
      | some c => some (k.collect c)
      | none => some (k.jump (.waitpidStore pid))
  | .forkEnqueue child => some ((k.enqueue child).jump (.forkRun child))
  | .forkRun child =>
    if (k.task child).allocated then some ((k.setState child .running).jump .user)
    else some (k.stop .fault)
  | .execveYield => some (k.yieldTo .execveReturned)
  | .execveReturned => some (k.stop .execveReturned)
  | .reaperScan => some k.reap
  | .reaperYield => some (k.yieldTo .reaperResume)
  | .reaperResume => some (k.jump (.sleepRead 2 .reaperScan))

end Kernel

/-! ## Runs -/

inductive Action where
  | call (c : Call)
  | run
  /-- The timer interrupt. -/
  | tick
  /-- A packet for a network handler. -/
  | net (h : NetHandler)
  /-- The disk has finished. -/
  | ata

/-- One step of the machine; `none` if the action is not possible. -/
def step (k : Kernel) (a : Action) : Option Kernel :=
  if k.panic ≠ none then none
  else
    match a with
    | .call c => if k.cpu = .user ∧ c.allowed k then some (k.call c) else none
    | .run => k.run
    | .tick =>
      if k.cpu.interruptible then some { k.schedulerTaskSwitch with ticks := Lib.add32 k.ticks 1 }
      else none
    | .net h =>
      if k.cpu.interruptible then
        if (k.task h.task).allocated then some (k.setNextTask h.task) else some (k.stop .fault)
      else none
    | .ata => if k.cpu.interruptible then some k.schedulerWakeIowait else none

/-- A task of the kernel itself. -/
def service (state : TaskState) (esp : Pc) : Task :=
  { Kernel.newTask state false none with esp := esp }

/-- The state after `init_tasking` and the creation of the network handlers. -/
def boot : Kernel :=
  { task := fun t =>
      if t = kernelTask then service .running .user
      else if t = reaperTask then service .running .reaperScan
      else if t = idleTask then service .idle .halt
      else if t < numServices then service .running .user
      else .free
    readyQueue := [0, 4, 3, 2, 1]
    current := kernelTask
    nextTask := none
    cpu := .user
    ticks := 0
    nextPid := numServices
    panic := none
    deaths := []
    delivered := [] }

abbrev TaskRun : Kernel → List Action → Kernel → Prop :=
  Lib.Run fun k a k' => step k a = some k'

end ExscapeOS.Tasks
