import ExscapeOS.Lib.Word
import ExscapeOS.Lib.Transition

/-!
# Lazy switching of the FPU

`switch_task` does not touch the FPU registers. It sets the TS bit if the new task is not the one
whose registers are in the FPU, and its first FPU instruction then leads to
`no_fpu_interrupt_handler`, which saves and loads the registers. The machine has the fields that
these functions use. Task structures and blocks for saved registers are given by their addresses,
which the heap may hand out again.

Beside it runs a machine that gives every task its own registers. What a task finds in the FPU is
the same in both, except in three cases: `fork` copies the saved registers of the parent while its
registers are in the FPU, a task whose registers are in the FPU exits, and a new task finds the data
of another one, since `fninit` does not clear them.
-/
namespace ExscapeOS.Fpu

open Lib Function List Option

/-! ## The machine -/

/-- What `fxsave` stores: the environment of the x87, which `fninit` sets, and the data registers
(`ST`, `MM` and `XMM`) with `MXCSR`, which are 0 here after a reset. -/
structure Registers where
  env : Nat
  data : Nat
  deriving DecidableEq

/-- The instruction `fninit`. -/
def Registers.fninit (r : Registers) : Registers := { r with env := 0x37f }

/-- The initial state of the FPU. -/
def Registers.initial : Registers := { env := 0x37f, data := 0 }

/-- The fields of `task_t` that belong to the FPU. -/
structure TaskFields where
  fpuState : Option Nat
  hasUsedFpu : Bool

/-- The memory of a `task_t`: free, a task, or one that has been destroyed and not waited for. The
kernel task has no block and no FPU instructions. -/
inductive Phase where
  | absent
  | alive
  | dead
  | kernel
  deriving DecidableEq

structure Machine where
  task : Nat → TaskFields
  phase : Nat → Phase
  block : Nat → Bool
  mem : Nat → Registers
  regs : Registers
  ts : Bool
  lastFpuTask : Option Nat
  currentTask : Nat

namespace Machine

/-- The first part of `no_fpu_interrupt_handler` saves the registers of the previous FPU task. -/
def savePrevious (m : Machine) : Option Machine :=
  match m.lastFpuTask with
  | none => some m
  | some t =>
    -- the assertion that the task has a block
    match (m.task t).fpuState with
    | none => none
    | some b => some { m with mem := update m.mem b m.regs }

/-- The second part: the registers of the current task. -/
def loadCurrent (m : Machine) : Option Machine :=
  match (m.task m.currentTask).fpuState with
  | none => none
  | some b =>
    if (m.task m.currentTask).hasUsedFpu then some { m with regs := m.mem b }
    else some { m with
      regs := m.regs.fninit
      mem := update m.mem b m.regs.fninit
      task := update m.task m.currentTask { m.task m.currentTask with hasUsedFpu := true } }

def noFpuInterruptHandler (m : Machine) : Option Machine := do
  let m ← { m with ts := false }.savePrevious
  let m ← m.loadCurrent
  return { m with lastFpuTask := some m.currentTask }

/-- The exception that comes before an FPU instruction if TS is set. -/
def beforeInstruction (m : Machine) : Option Machine :=
  if m.ts then m.noFpuInterruptHandler else some m

/-- The registers that an FPU instruction of the current task finds. -/
def observed (m : Machine) : Option Registers := (m.beforeInstruction).map regs

/-- The part of `switch_task` for the FPU. -/
def switchTask (t : Nat) (m : Machine) : Machine :=
  { m with ts := decide (some t ≠ m.lastFpuTask), currentTask := t }

/-- A new `task_t` at `t`, with a block at `b`. -/
def addTask (t b : Nat) (used : Bool) (m : Machine) : Machine :=
  { m with
    task := update m.task t ⟨some b, used⟩
    phase := update m.phase t .alive
    block := update m.block b true }

/-- The part of `create_task_int` for the FPU. -/
def createTask (t b : Nat) (m : Machine) : Machine := m.addTask t b false

/-- The part of `fork` for the FPU. -/
def fork (t b : Nat) (m : Machine) : Option Machine :=
  match (m.task m.currentTask).fpuState with
  | none => none
  | some parent => some <|
    { m with mem := update m.mem b (m.mem parent) }.addTask t b (m.task m.currentTask).hasUsedFpu

/-- `destroy_task` frees the block, and leaves its address in the structure. -/
def destroyTask (t : Nat) (m : Machine) : Machine :=
  { m with
    phase := update m.phase t .dead
    block := match (m.task t).fpuState with
      | none => m.block
      | some b => update m.block b false }

/-- The structure of a task is zeroed and freed, by `do_wait_one` or `destroy_task`. -/
def release (t : Nat) (m : Machine) : Machine :=
  { m with task := update m.task t ⟨none, false⟩, phase := update m.phase t .absent }

end Machine

/-! ## Runs -/

inductive Action where
  | create (t b : Nat)
  | fork (t b : Nat)
  | switch (t : Nat)
  | instruction (f : Registers → Registers)
  | destroy (t : Nat)
  | release (t : Nat)

/-- The machine, and the registers that each task would have if every switch saved them. -/
structure World where
  machine : Machine
  own : Nat → Registers

/-- One action. The addresses of a new task come from `kmalloc`, and only tasks run. -/
def step (w : World) : Action → Option World
  | .create t b => do
    kassert (w.machine.phase t = .absent ∧ w.machine.block b = false)
    return ⟨w.machine.createTask t b, update w.own t .initial⟩
  | .fork t b => do
    kassert (w.machine.phase w.machine.currentTask = .alive)
    kassert (w.machine.phase t = .absent ∧ w.machine.block b = false)
    let m ← w.machine.fork t b
    return ⟨m, update w.own t (w.own w.machine.currentTask)⟩
  | .switch t => do
    kassert (w.machine.phase t = .alive ∨ w.machine.phase t = .kernel)
    return { w with machine := w.machine.switchTask t }
  | .instruction f => do
    kassert (w.machine.phase w.machine.currentTask = .alive)
    let m ← w.machine.beforeInstruction
    return ⟨{ m with regs := f m.regs }, update w.own m.currentTask (f (w.own m.currentTask))⟩
  | .destroy t => do
    kassert (w.machine.phase t = .alive ∧ t ≠ w.machine.currentTask)
    return { w with machine := w.machine.destroyTask t }
  | .release t => do
    kassert (w.machine.phase t = .dead)
    return { w with machine := w.machine.release t }

/-- The first FPU instruction of a task finds no data of another one in the registers. -/
def World.cleared (w : World) : Prop :=
  (w.machine.task w.machine.currentTask).hasUsedFpu = false →
    w.machine.regs.data = Registers.initial.data

/-- The condition on the actions of a run. When a task forks, its registers are not in the FPU or
have not changed since they were saved; a structure is not freed while its task is the last FPU
task; a new task does not get the block of the last FPU task, and finds no data in the FPU. -/
def safe (w : World) : Action → Prop
  | .create _ b => ∀ t, w.machine.lastFpuTask = some t → (w.machine.task t).fpuState ≠ some b
  | .fork _ b =>
    (∀ t, w.machine.lastFpuTask = some t → (w.machine.task t).fpuState ≠ some b) ∧
    (w.machine.lastFpuTask = some w.machine.currentTask →
      ∀ p, (w.machine.task w.machine.currentTask).fpuState = some p →
        w.machine.mem p = w.machine.regs)
  | .release t => w.machine.lastFpuTask ≠ some t
  | .instruction _ => w.cleared
  | _ => True

/-! ## The invariant -/

/-- Where the registers of each task are. -/
structure Inv (w : World) : Prop where
  /-- A task has a block of its own. -/
  block : ∀ t, w.machine.phase t = .alive →
    ∃ b, (w.machine.task t).fpuState = some b ∧ w.machine.block b = true
  /-- The last FPU task, dead or alive, has a block of its own. -/
  last : ∀ t, w.machine.lastFpuTask = some t →
    (w.machine.phase t = .alive ∨ w.machine.phase t = .dead) ∧
      (w.machine.task t).hasUsedFpu = true ∧ ∃ b, (w.machine.task t).fpuState = some b
  inj : ∀ t u b, w.machine.phase t = .alive ∨ w.machine.lastFpuTask = some t →
    w.machine.phase u = .alive → (w.machine.task t).fpuState = some b →
      (w.machine.task u).fpuState = some b → t = u
  /-- The registers of the last FPU task are in the FPU, others in their blocks. -/
  live : ∀ t, w.machine.lastFpuTask = some t → w.machine.phase t = .alive → w.own t = w.machine.regs
  saved : ∀ t b, w.machine.phase t = .alive → w.machine.lastFpuTask ≠ some t →
    (w.machine.task t).fpuState = some b →
    w.own t = if (w.machine.task t).hasUsedFpu then w.machine.mem b else .initial
  ts : w.machine.ts = false → w.machine.lastFpuTask = some w.machine.currentTask

variable {w w' : World}

/-- After saving, the block of the last FPU task agrees with its own registers. -/
lemma Inv.savePrevious (inv : Inv w) :
    ∃ mem, { w.machine with ts := false }.savePrevious =
        some { w.machine with ts := false, mem := mem } ∧
      ∀ t b, w.machine.phase t = .alive → (w.machine.task t).fpuState = some b →
        w.own t = if (w.machine.task t).hasUsedFpu then mem b else .initial := by
  unfold Machine.savePrevious
  cases last : w.machine.lastFpuTask with
  | none =>
    refine ⟨w.machine.mem, by simp only [last], fun t b alive state => ?_⟩
    exact inv.saved t b alive (by simp [last]) state
  | some u =>
    obtain ⟨-, used, c, block⟩ := inv.last u last
    refine ⟨update w.machine.mem c w.machine.regs, by simp only [block, last],
      fun t b alive state => ?_⟩
    by_cases own : t = u
    · subst own
      obtain rfl : b = c := some.inj (state.symm.trans block)
      rw [used, if_pos rfl, update_self]
      exact inv.live t last alive
    · have other : b ≠ c := by
        rintro rfl
        exact own (inv.inj u t b (.inr last) alive block state).symm
      have notLast : w.machine.lastFpuTask ≠ some t := by
        rw [last]
        exact fun eq => own (some.inj eq).symm
      rw [update_of_ne other]
      exact inv.saved t b alive notLast state

/-- The current task becomes the last FPU task. Only its fields and block change. -/
lemma Inv.load {b : Nat} {mem mem' : Nat → Registers} {task : Nat → TaskFields} {regs : Registers}
    (inv : Inv w) (alive : w.machine.phase w.machine.currentTask = .alive)
    (state : (w.machine.task w.machine.currentTask).fpuState = some b)
    (agree : ∀ t b, w.machine.phase t = .alive → (w.machine.task t).fpuState = some b →
      w.own t = if (w.machine.task t).hasUsedFpu then mem b else .initial)
    (others : ∀ t ≠ w.machine.currentTask, task t = w.machine.task t)
    (used : task w.machine.currentTask = ⟨some b, true⟩)
    (memOthers : ∀ c ≠ b, mem' c = mem c) (own : w.own w.machine.currentTask = regs) :
    Inv { w with machine := { w.machine with
      task := task, mem := mem', regs := regs, ts := false
      lastFpuTask := some w.machine.currentTask } } := by
  have states (t : Nat) : (task t).fpuState = (w.machine.task t).fpuState := by
    by_cases current : t = w.machine.currentTask
    · rw [current, used, state]
    · rw [others t current]
  constructor
  · intro t aliveT
    rw [states]
    exact inv.block t aliveT
  · intro t eq
    cases eq
    exact ⟨.inl alive, congrArg TaskFields.hasUsedFpu used, b, (states _).trans state⟩
  · intro t u c which aliveU stateT stateU
    rw [states] at stateT stateU
    have aliveT : w.machine.phase t = .alive := which.elim id fun eq => some.inj eq ▸ alive
    exact inv.inj t u c (.inl aliveT) aliveU stateT stateU
  · intro t eq _
    cases eq
    exact own
  · intro t c aliveT notLast stateT
    have other : t ≠ w.machine.currentTask := fun eq => notLast (congrArg some eq.symm)
    rw [states] at stateT
    have apart : c ≠ b := by
      rintro rfl
      exact other (inv.inj t _ c (.inl aliveT) alive stateT state)
    simp only [others t other, memOthers c apart]
    exact agree t c aliveT stateT
  · exact fun _ => rfl

/-- After the exception, the registers of the current task are in the FPU. -/
lemma Inv.beforeInstruction (inv : Inv w) (alive : w.machine.phase w.machine.currentTask = .alive)
    (cleared : w.cleared) :
    ∃ m, w.machine.beforeInstruction = some m ∧ Inv { w with machine := m } ∧
      m.lastFpuTask = some m.currentTask ∧ m.currentTask = w.machine.currentTask ∧
      m.phase = w.machine.phase := by
  cases ts : w.machine.ts with
  | false =>
    refine ⟨w.machine, ?_, inv, inv.ts ts, rfl, rfl⟩
    rw [Machine.beforeInstruction, ts]
    rfl
  | true =>
    obtain ⟨mem, save, agree⟩ := inv.savePrevious
    obtain ⟨b, state, -⟩ := inv.block _ alive
    have own := agree _ b alive state
    have unfolded : w.machine.beforeInstruction = (Machine.loadCurrent
        { w.machine with ts := false, mem := mem }).bind
          fun m => some { m with lastFpuTask := some m.currentTask } := by
      rw [Machine.beforeInstruction, ts, if_pos rfl, Machine.noFpuInterruptHandler, save]
      rfl
    rw [unfolded]
    unfold Machine.loadCurrent
    cases used : (w.machine.task w.machine.currentTask).hasUsedFpu with
    | true =>
      rw [used, if_pos rfl] at own
      simp only [state, if_true, bind_some]
      refine ⟨_, rfl, ?_, rfl, rfl, rfl⟩
      refine inv.load alive state agree (fun _ _ => rfl) ?_ (fun _ _ => rfl) own
      rw [← state, ← used]
    | false =>
      rw [used, if_neg Bool.false_ne_true] at own
      simp only [state, Bool.false_eq_true, if_false, bind_some]
      refine ⟨_, rfl, ?_, rfl, rfl, rfl⟩
      have first : Registers.initial = w.machine.regs.fninit := by
        rw [Registers.fninit, cleared used]
        rfl
      refine inv.load alive state agree (fun t other => update_of_ne other ..) ?_
        (fun c other => update_of_ne other ..) (own.trans first)
      rw [update_self]

/-! ## Every action keeps the invariant -/

lemma Inv.instruction {m : Machine} (inv : Inv { w with machine := m })
    (last : m.lastFpuTask = some m.currentTask) (f : Registers → Registers) :
    Inv ⟨{ m with regs := f m.regs }, update w.own m.currentTask (f (w.own m.currentTask))⟩ where
  block := inv.block
  last := inv.last
  inj := inv.inj
  live t eq alive := by
    obtain rfl : m.currentTask = t := some.inj (last.symm.trans eq)
    change update w.own m.currentTask _ m.currentTask = f m.regs
    rw [update_self]
    exact congrArg f (inv.live _ eq alive)
  saved t b alive notLast state := by
    have other : t ≠ m.currentTask := by
      rintro rfl
      exact notLast last
    change update w.own m.currentTask _ t = _
    rw [update_of_ne other]
    exact inv.saved t b alive notLast state
  ts := inv.ts

section

lemma alive_before {phase : Nat → Phase} {t u : Nat} {p : Phase} (other : p ≠ .alive)
    (after : update phase t p u = .alive) : u ≠ t ∧ phase u = .alive := by
  by_cases own : u = t
  · simp [own, other] at after
  · exact ⟨own, by rwa [update_of_ne own] at after⟩

variable (inv : Inv w)
include inv

lemma Inv.switchTask (t : Nat) : Inv { w with machine := w.machine.switchTask t } where
  block := inv.block
  last := inv.last
  inj := inv.inj
  live := inv.live
  saved := inv.saved
  ts clear := by
    have same : ¬ some t ≠ w.machine.lastFpuTask := of_decide_eq_false clear
    exact (not_not.mp same).symm

lemma Inv.addTask {t b : Nat} {used : Bool} {mem : Nat → Registers} {r : Registers}
    (absent : w.machine.phase t = .absent) (free : w.machine.block b = false)
    (fresh : ∀ u, w.machine.lastFpuTask = some u → (w.machine.task u).fpuState ≠ some b)
    (others : ∀ c ≠ b, mem c = w.machine.mem c) (own : r = if used then mem b else .initial) :
    Inv ⟨{ w.machine with mem := mem }.addTask t b used, update w.own t r⟩ := by
  have notLast : w.machine.lastFpuTask ≠ some t := by
    intro eq
    have phase := (inv.last t eq).1
    simp [absent] at phase
  have old (u : Nat) (alive : (update w.machine.phase t .alive) u = .alive) (ne : u ≠ t) :
      w.machine.phase u = .alive := by rwa [update_of_ne ne] at alive
  have blockNe (u c : Nat) (alive : w.machine.phase u = .alive)
      (state : (w.machine.task u).fpuState = some c) : c ≠ b := by
    rintro rfl
    obtain ⟨d, state', taken⟩ := inv.block u alive
    obtain rfl := some.inj (state.symm.trans state')
    rw [free] at taken
    cases taken
  constructor
  · intro u alive
    by_cases new : u = t
    · exact ⟨b, by simp [Machine.addTask, new], by simp [Machine.addTask]⟩
    · obtain ⟨c, state, taken⟩ := inv.block u (old u alive new)
      refine ⟨c, by simpa [Machine.addTask, new] using state, ?_⟩
      simp [Machine.addTask, update_apply, taken]
  · intro u eq
    have new : u ≠ t := fun same => notLast (same ▸ eq)
    simpa [Machine.addTask, new] using inv.last u eq
  · intro u v c which alive stateU stateV
    simp only [Machine.addTask] at which alive stateU stateV
    by_cases newV : v = t
    · by_cases newU : u = t
      · rw [newU, newV]
      · rw [newV, update_self] at stateV
        cases stateV
        rw [update_of_ne newU] at which stateU
        obtain aliveU | last := which
        · exact absurd rfl (blockNe u b aliveU stateU)
        · exact absurd stateU (fresh u last)
    · have aliveV := old v alive newV
      rw [update_of_ne newV] at stateV
      by_cases newU : u = t
      · rw [newU, update_self] at stateU
        exact absurd (some.inj stateU).symm (blockNe v c aliveV stateV)
      · rw [update_of_ne newU] at which stateU
        exact inv.inj u v c which aliveV stateU stateV
  · intro u eq alive
    have new : u ≠ t := fun same => notLast (same ▸ eq)
    change update w.own t r u = w.machine.regs
    rw [update_of_ne new]
    exact inv.live u eq (old u alive new)
  · intro u c alive last state
    simp only [Machine.addTask] at alive last state ⊢
    by_cases new : u = t
    · rw [new, update_self] at state
      cases state
      simpa [new] using own
    · rw [update_of_ne new] at state
      have aliveU := old u alive new
      simp only [update_of_ne new, others c (blockNe u c aliveU state)]
      exact inv.saved u c aliveU last state
  · exact inv.ts

lemma Inv.fork {t b : Nat} {m : Machine}
    (alive : w.machine.phase w.machine.currentTask = .alive)
    (absent : w.machine.phase t = .absent) (free : w.machine.block b = false)
    (ok : safe w (.fork t b)) (ran : w.machine.fork t b = some m) :
    Inv ⟨m, update w.own t (w.own w.machine.currentTask)⟩ := by
  obtain ⟨fresh, clean⟩ := ok
  obtain ⟨c, state, taken⟩ := inv.block _ alive
  simp only [Machine.fork, state, some.injEq] at ran
  subst ran
  refine inv.addTask absent free fresh (fun d other => update_of_ne other ..) ?_
  rw [update_self]
  by_cases last : w.machine.lastFpuTask = some w.machine.currentTask
  · rw [(inv.last _ last).2.1, if_pos rfl, clean last c state]
    exact inv.live _ last alive
  · exact inv.saved _ c alive last state

lemma Inv.destroyTask (t : Nat) (alive : w.machine.phase t = .alive) :
    Inv { w with machine := w.machine.destroyTask t } := by
  have old (u : Nat) : update w.machine.phase t .dead u = .alive → u ≠ t ∧
    w.machine.phase u = .alive :=
    alive_before nofun
  constructor
  · intro u after
    obtain ⟨other, aliveU⟩ := old u after
    obtain ⟨c, state, taken⟩ := inv.block u aliveU
    refine ⟨c, state, ?_⟩
    obtain ⟨b, stateT, -⟩ := inv.block t alive
    simp only [Machine.destroyTask, stateT]
    rw [update_of_ne, taken]
    rintro rfl
    exact other (inv.inj u t c (.inl aliveU) alive state stateT)
  · intro u eq
    obtain ⟨phase, rest⟩ := inv.last u eq
    refine ⟨?_, rest⟩
    simp only [Machine.destroyTask, update_apply]
    split_ifs
    · exact .inr rfl
    · exact phase
  · intro u v c which after
    obtain ⟨-, aliveV⟩ := old v after
    exact inv.inj u v c (which.imp_left fun before => (old u before).2) aliveV
  · exact fun u eq after => inv.live u eq (old u after).2
  · exact fun u c after => inv.saved u c (old u after).2
  · exact inv.ts

lemma Inv.release (t : Nat) (notLast : w.machine.lastFpuTask ≠ some t) :
    Inv { w with machine := w.machine.release t } := by
  have old (u : Nat) : update w.machine.phase t .absent u = .alive → u ≠ t ∧
    w.machine.phase u = .alive :=
    alive_before nofun
  have last (u : Nat) (eq : w.machine.lastFpuTask = some u) :
    u ≠ t := fun same => notLast (same ▸ eq)
  constructor
  · intro u after
    obtain ⟨other, alive⟩ := old u after
    simpa [Machine.release, other] using inv.block u alive
  · intro u eq
    simpa [Machine.release, last u eq] using inv.last u eq
  · intro u v c which after
    obtain ⟨other, aliveV⟩ := old v after
    have otherU : u ≠ t := which.elim (fun before => (old u before).1) (last u)
    simpa [Machine.release, other, otherU] using
      inv.inj u v c (which.imp_left fun before => (old u before).2) aliveV
  · exact fun u eq after => inv.live u eq (old u after).2
  · intro u c after notLastU
    obtain ⟨other, alive⟩ := old u after
    simpa [Machine.release, other] using inv.saved u c alive notLastU
  · exact inv.ts

lemma Inv.step {a : Action} (ok : safe w a) (h : step w a = some w') : Inv w' := by
  cases a with
  | create t b =>
    simp only [Fpu.step, bind_eq_bind, kassert_bind_eq_some, pure, some.injEq] at h
    obtain ⟨⟨absent, free⟩, rfl⟩ := h
    exact inv.addTask absent free ok (fun _ _ => rfl) rfl
  | fork t b =>
    simp only [Fpu.step, bind_eq_bind, bind_eq_some_iff, kassert_eq_some, exists_const,
      pure, some.injEq] at h
    obtain ⟨alive, ⟨absent, free⟩, m, ran, rfl⟩ := h
    exact inv.fork alive absent free ok ran
  | switch t =>
    simp only [Fpu.step, bind_eq_bind, kassert_bind_eq_some, pure, some.injEq] at h
    obtain ⟨-, rfl⟩ := h
    exact inv.switchTask t
  | instruction f =>
    simp only [Fpu.step, bind_eq_bind, bind_eq_some_iff, kassert_eq_some, exists_const,
      pure, some.injEq] at h
    obtain ⟨alive, m, before, rfl⟩ := h
    obtain ⟨m', before', inv', last, -⟩ := inv.beforeInstruction alive ok
    obtain rfl := some.inj (before.symm.trans before')
    exact inv'.instruction last f
  | destroy t =>
    simp only [Fpu.step, bind_eq_bind, kassert_bind_eq_some, pure, some.injEq] at h
    obtain ⟨⟨alive, -⟩, rfl⟩ := h
    exact inv.destroyTask t alive
  | release t =>
    simp only [Fpu.step, bind_eq_bind, kassert_bind_eq_some, pure, some.injEq] at h
    obtain ⟨-, rfl⟩ := h
    exact inv.release t ok

end

/-- After `fpu_init`, with the kernel task at address zero. -/
def boot (mem own : Nat → Registers) (regs : Registers) : World where
  machine :=
    { task := fun _ => ⟨none, false⟩, phase := fun t => if t = 0 then .kernel else .absent
      block := fun _ => false, mem := mem, regs := regs, ts := true, lastFpuTask :=
        none, currentTask := 0 }
  own := own

lemma Inv.boot (mem own : Nat → Registers) (regs : Registers) : Inv (boot mem own regs) := by
  have noTask (t : Nat) : (Fpu.boot mem own regs).machine.phase t ≠ .alive := by
    simp only [Fpu.boot]
    split_ifs <;> exact nofun
  constructor
  · exact fun t alive => absurd alive (noTask t)
  · exact nofun
  · exact fun t u b _ alive => absurd alive (noTask u)
  · exact nofun
  · exact fun t b alive => absurd alive (noTask t)
  · exact nofun

instance (w : World) : (a : Action) → Decidable (safe w a)
  | .create _ b =>
    decidable_of_iff (w.machine.lastFpuTask.all fun t => (w.machine.task t).fpuState ≠ some b)
      (by simp [safe, Option.all_eq_true])
  | .fork _ b =>
    decidable_of_iff ((w.machine.lastFpuTask.all fun t => (w.machine.task t).fpuState ≠ some b) ∧
      (w.machine.lastFpuTask = some w.machine.currentTask →
        (w.machine.task w.machine.currentTask).fpuState.all fun p =>
          w.machine.mem p = w.machine.regs))
      (by simp [safe, Option.all_eq_true])
  | .release t => inferInstanceAs (Decidable (w.machine.lastFpuTask ≠ some t))
  | .instruction _ =>
    inferInstanceAs (Decidable ((w.machine.task w.machine.currentTask).hasUsedFpu = false →
      w.machine.regs.data = Registers.initial.data))
  | .switch _ => .isTrue trivial
  | .destroy _ => .isTrue trivial

/-- A machine after a reset. -/
def sampleBoot : World := boot (fun _ => .initial) (fun _ => .initial) .initial

/-- An instruction that stores 5 in a data register. -/
def storeFive : Action := .instruction fun r => { r with data := 5 }

/-- An instruction that sets the control word of the x87. -/
def setControl : Action := .instruction fun r => { r with env := 5 }

/-- A task sets the control word, a second one uses the FPU, and the first forks. -/
def savedFork : List Action :=
  [.create 1 1, .create 2 2, .switch 1, setControl, .switch 2, .instruction id,
    .switch 1, .fork 3 3, .switch 3]

end ExscapeOS.Fpu
