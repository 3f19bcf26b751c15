import ExscapeOS.Kernel.Task.Family

/-!
# `wait` and the death of a child

`sys_wait` looks for a dead child with interrupts off, and stores `TASK_WAITING` after it has
enabled them again. `destroy_task` only wakes a parent that is already `TASK_WAITING`. If the reaper
destroys a child between the two, nobody wakes the parent. The condition `notified` excludes just
that.
-/
namespace ExscapeOS.Tasks

open Lib Kernel

variable {k k' : Kernel} {t p c : Pid} {a : Action}

/-- The parent of the task that the reaper is about to destroy. -/
def Kernel.bereaved (k : Kernel) : Option Pid :=
  if k.cpu = .reaperScan then
    k.reaperHit.bind fun t => if (k.task t).state = .exiting then (k.task t).parent else none
  else none

/-- The reaper does not destroy a child of a task between its scan and the store of `TASK_WAITING`.
-/
def notified (k : Kernel) : Action → Prop
  | .run => ∀ p ∈ k.bereaved, k.ctx p ≠ .waitStore
  | _ => True

instance (k : Kernel) (a : Action) : Decidable (notified k a) :=
  match a with
  | .run => inferInstanceAs (Decidable (∀ p ∈ k.bereaved, k.ctx p ≠ .waitStore))
  | .call _ | .tick | .net _ | .ata => isTrue trivial

/-- The task has decided to wait, and nobody has woken it since. -/
def Kernel.awaits (k : Kernel) (p : Pid) : Prop :=
  k.ctx p = .waitStore ∨
    (k.ctx p = .waitYield ∨ k.ctx p = .waitRescan) ∧ (k.task p).state = .waiting

def Kernel.noneDead (k : Kernel) (p : Pid) : Prop := ∀ c ∈ k.childrenOf p, (k.task c).state ≠ .dead

lemma Kernel.awaits.inWait (h : k.awaits p) : (k.ctx p).inWait = true := by
  rcases h with h | ⟨h | h, -⟩ <;> rw [h] <;> rfl

lemma Pc.ownedBy.waitYield {pc pc' : Pc} (owned : pc.ownedBy t) (yields : pc.yields = some pc')
    (inWait : pc'.inWait = true) : pc = .waitYield ∧ pc' = .waitRescan := by
  cases pc <;> simp only [Pc.yields, Option.some.injEq, reduceCtorEq] at yields
  case sleepYield ret =>
    subst yields
    rcases owned with rfl | ⟨rfl, -⟩ <;> cases inWait
  all_goals
    subst yields
    first | exact ⟨rfl, rfl⟩ | cases inWait

lemma Pc.inWait_of_inExecve {pc : Pc} (h : pc.inExecve = true) : pc.inWait = false := by
  cases pc <;> simp_all [Pc.inExecve, Pc.inWait]

lemma Places.loaded_inWait (places : Places k) (set : (k.task p).didExecve = true) :
    (k.task p).esp.inWait = false := by
  rcases places.loaded p set with entry | inside
  · rw [entry]
    rfl
  · exact Pc.inWait_of_inExecve inside

lemma Wakes.waiting {st st' : TaskState} (h : Wakes st st') (waiting : st' = .waiting) :
    st = .waiting := by
  cases h with
  | same => exact waiting
  | sleeping | running => cases waiting

lemma waiting_before (move : Move k a k')
    (waiting : (k'.task p).state = .waiting) : (k.task p).state = .waiting ∨
      p = k.current ∧ (k.cpu = .waitStore ∨ ∃ pid, k.cpu = .waitpidStore pid) := by
  cases move.alters p with
  | freed _ _ _ after | forked _ _ after | created _ _ after | dies _ _ _ after
  | woken _ _ _ after =>
    rw [waiting] at after
    cases after
  | next _ next =>
    generalize (k'.task p).state = st at next waiting
    cases next with
    | wakes wakes => exact .inl (wakes.waiting waiting)
    | wait own cpu => exact .inr ⟨own, cpu⟩
    | _ => cases waiting

/-- A task that waits was waiting before, or has just found no dead child. -/
lemma awaits_before (places : Places k) (move : Move k a k') (h : k'.awaits p) :
    k.awaits p ∨ p = k.current ∧ k.deadChild none = none := by
  have inWait := h.inWait
  have goes := move.goes p
  generalize pc_eq : k'.ctx p = pc at goes inWait
  cases goes with
  | stays =>
    rcases h with store | ⟨place, waiting⟩
    · exact .inl (.inl (pc_eq.symm.trans store))
    · rw [pc_eq] at place
      rcases waiting_before move waiting with before | ⟨rfl, cpu⟩
      · exact .inl (.inr ⟨place, before⟩)
      · rcases cpu with cpu | ⟨pid, cpu⟩ <;> simp [cpu] at place
  | freed | new => cases inWait
  | next own next =>
    subst own
    cases next with
    | jump jump =>
      cases jump with
      | waitStore _ none => exact .inr ⟨rfl, none⟩
      | _ => cases inWait
    | own own =>
      cases own with
      | waitStore cpu => exact .inl (.inl ((ctx_current k).trans cpu))
      | _ => cases inWait
    | yields yields =>
      have owned := places.owned k.current
      rw [ctx_current] at owned
      obtain ⟨cpu, rfl⟩ := owned.waitYield yields inWait
      rcases h with store | ⟨-, waiting⟩
      · rw [pc_eq] at store
        cases store
      · rcases waiting_before move waiting with before | ⟨-, store | ⟨pid, store⟩⟩
        · exact .inl (.inr ⟨.inl ((ctx_current k).trans cpu), before⟩)
        all_goals
          rw [cpu] at store
          cases store
    | _ => cases inWait
  | loads _ set =>
    rw [places.loaded_inWait set] at inWait
    cases inWait

/-! ## Dead children -/

lemma notify_waiting (parent : (k.task t).parent = some p) :
    ((k.notify t).task p).state ≠ .waiting := by
  generalize eq : k.notify t = k' at *
  cases notify_notified eq with
  | root root =>
    rw [parent] at root
    cases root
  | stop parent' dead =>
    obtain rfl := Option.some.inj (parent.symm.trans parent')
    intro waiting
    rw [show (k.task p).state = .waiting from waiting] at dead
    cases dead
  | wake parent' =>
    obtain rfl := Option.some.inj (parent.symm.trans parent')
    simp [setNextTask]
  | leave parent' _ awake =>
    obtain rfl := Option.some.inj (parent.symm.trans parent')
    exact awake

lemma doWaitOne_records (k : Kernel) (c : Pid) {u : Pid} (other : u ≠ p) :
    (k.doWaitOne p c).task u = k.task u ∨ (k.doWaitOne p c).task u = .free := by
  unfold Kernel.doWaitOne
  dsimp only
  split
  · exact .inl rfl
  · split
    all_goals
      by_cases h : u = c
      · exact .inr (by simp [release_task, h])
      · exact .inl (by simp [release_task, h, other])

lemma collect_ctx (k : Kernel) (c : Pid) : (k.collect c).ctx k.current = .user := by
  obtain ⟨_, _, _, eq⟩ := collect_eq k c
  rw [eq]
  exact if_pos rfl

/-- Dead children of a task that collects none of them are old. -/
lemma noneDead_doWaitOne {q : Pid} (dead : (k.task c).state = .dead) (other : p ≠ q)
    (before : k.noneDead p) : (k.doWaitOne q c).noneDead p := by
  intro d mem dead'
  have old : (k.task d).state = .dead := by
    rcases Fades.doWaitOne dead q d with ⟨-, same, -⟩ | ⟨-, -, idle, -⟩
    · exact same ▸ dead'
    · rw [idle] at dead'
      cases dead'
  refine before d ?_ old
  rw [childrenOf] at mem
  rcases doWaitOne_records k c other with same | free
  · rwa [same] at mem
  · rw [free] at mem
    cases mem

lemma noneDead_bury {cs : List Pid} (tree : Tree k) (some : (k.task t).children = some cs)
    (ne : t ≠ reaperTask) (high : numServices ≤ p) (before : k.noneDead p)
    (mem : c ∈ (k.bury t cs).childrenOf p) (dead : ((k.bury t cs).task c).state = .dead) :
    (k.task t).parent = .some p := by
  have child : c ∈ k.childrenOf p := by
    rw [childrenOf] at mem
    rcases tree.bury_cases some ne p with ⟨-, eq⟩ | ⟨-, -, eq⟩ | ⟨rfl, -⟩ | ⟨-, -, -, eq⟩
    · rw [eq] at mem
      cases mem
    · rw [eq, orphaned] at mem
      split_ifs at mem
      · cases mem
      · exact mem
    · exact absurd high (by decide)
    · rwa [eq] at mem
  rcases tree.bury_cases some ne c with ⟨rfl, -⟩ | ⟨-, -, eq⟩ | ⟨-, eq⟩ | ⟨-, -, -, eq⟩
  · exact (tree.forest.mem_iff p c).mp child
  · rw [eq, orphaned] at dead
    split_ifs at dead with h
    · cases dead
    · exact absurd dead h
  · rw [eq] at dead
    exact absurd dead (before c child)
  · rw [eq] at dead
    exact absurd dead (before c child)

/-- If a child of `p` dies, the reaper has destroyed it, and `p` does not wait. -/
lemma noneDead_step (tree : Tree k) (places : Places k) (move : Move k a k')
    (high : numServices ≤ p) (inWait : (k'.ctx p).inWait = true) (before : k.noneDead p) :
    k'.noneDead p ∨ a = .run ∧ k.bereaved = some p ∧ (k'.task p).state ≠ .waiting := by
  cases move.kin with
  | calm calm =>
    refine .inl fun c mem dead => ?_
    rw [childrenOf, (calm p).children] at mem
    exact before c mem ((calm c).dead dead)
  | create _ eq =>
    subst eq
    refine .inl fun c mem dead => ?_
    rw [childrenOf, createTask_task] at mem
    rw [createTask_task] at dead
    split_ifs at mem dead
    · cases mem
    · cases mem
    · cases dead
    · exact before c mem dead
  | fork _ _ eq =>
    subst eq
    have other : p ≠ k.current := by
      rintro rfl
      rw [show k.forkLink.ctx k.current = .forkEnqueue k.nextPid from ctx_current
        k.forkLink] at inWait
      cases inWait
    refine .inl fun c mem dead => ?_
    rw [childrenOf, forkLink_task places.current.ne, if_neg other] at mem
    rw [forkLink_task places.current.ne] at dead
    split_ifs at mem dead
    · cases mem
    · cases mem
    · cases mem
    · cases dead
    · exact before c mem dead
    · exact before c mem dead
  | @collect _ c _ found eq =>
    subst eq
    have other : p ≠ k.current := by
      rintro rfl
      rw [collect_ctx] at inWait
      cases inWait
    exact .inl (noneDead_doWaitOne
      (deadChild_spec found).2 other before)
  | reap run cpu eq =>
    have reaper := places.reaper cpu
    have other : p ≠ k.current := by
      rintro rfl
      rw [reaper] at high
      exact absurd high (by decide)
    cases reap_round eq with
    | idle | stop => exact .inl before
    | wait _ dead => exact .inl (noneDead_doWaitOne dead other before)
    | @destroy t cs hit exiting ne some =>
      have notReaper : t ≠ reaperTask := reaper ▸ ne
      refine or_iff_not_imp_left.mpr fun alive => ?_
      simp only [noneDead, not_forall, not_not] at alive
      obtain ⟨c, mem, dead⟩ := alive
      have mem' : c ∈ (k.bury t cs).childrenOf p := by
        rw [childrenOf] at mem
        rcases (notify_records (k.bury t cs) t p).2 with same | none
        · rwa [same] at mem
        · rw [none] at mem
          cases mem
      have parent := noneDead_bury tree some notReaper high before mem'
        ((notify_records (k.bury t cs) t c).1 dead)
      refine ⟨run, by simp [bereaved, cpu, hit, exiting, parent], notify_waiting ?_⟩
      rw [tree.bury_self some notReaper]
      exact parent

/-! ## Runs -/

/-- No task that has decided to wait has a dead child. -/
structure Attentive (k : Kernel) : Prop where
  places : Places k
  tree : k.panic = none → Tree k
  quiet : ∀ p, k.awaits p → k.noneDead p

lemma deadChild_none (h : k.deadChild none = none) : k.noneDead k.current := by
  intro c mem dead
  have := List.find?_eq_none.mp h c mem
  simp [dead] at this

/-- The parent of a task that is destroyed stays where it is. -/
lemma goes_bereaved (places : Places k) (bereaved : k.bereaved = some p) (high : numServices ≤ p)
    (move : Move k a k') (inWait : (k'.ctx p).inWait = true) : k'.ctx p = k.ctx p := by
  have cpu : k.cpu = .reaperScan := by
    by_contra other
    simp [Kernel.bereaved, other] at bereaved
  have other : p ≠ k.current := by
    rintro rfl
    rw [places.reaper cpu] at high
    exact absurd high (by decide)
  have goes := move.goes p
  generalize k'.ctx p = pc at goes inWait
  cases goes with
  | stays => rfl
  | freed | new => cases inWait
  | next own | loads own => exact absurd own other

lemma Attentive.step (inv : Attentive k) (ok : notified k a) (running : k.panic = none)
    (move : Move k a k') : Attentive k' where
  places := inv.places.step move
  tree still := (inv.tree running).step inv.places move (.inl still)
  quiet p awaits := by
    have before : k.noneDead p := by
      rcases awaits_before inv.places move awaits with before | ⟨rfl, none⟩
      · exact inv.quiet p before
      · exact deadChild_none none
    have high : numServices ≤ p := ((inv.places.step move).owned p).inWait awaits.inWait
    rcases noneDead_step (inv.tree running) inv.places move high awaits.inWait before with
      after | ⟨rfl, bereaved, awake⟩
    · exact after
    · -- the parent is in the gap before `TASK_WAITING`, which the condition excludes
      have store : k'.ctx p = .waitStore := awaits.resolve_right fun h => awake h.2
      refine absurd ?_ (ok p bereaved)
      rw [← store, goes_bereaved inv.places bereaved high move awaits.inWait]

lemma Attentive.boot : Attentive boot where
  places := .boot
  tree _ := tree_boot
  quiet p awaits := by
    have inWait := awaits.inWait
    rcases boot_ctx p with ctx | ctx | ⟨-, ctx⟩ <;> simp [ctx, Pc.inWait] at inWait

/-- Runs in which no child is destroyed between its parent's scan and `TASK_WAITING`. -/
abbrev NotifiedRun : Kernel → List Action → Kernel → Prop :=
  Run (Guarded notified fun k a k' => step k a = some k')

/-- `p` waits in `wait` and is not scheduled or about to be, and has a dead child. -/
def Kernel.lostWakeup (k : Kernel) (p : Pid) : Prop :=
  (k.ctx p = .waitYield ∨ k.ctx p = .waitRescan) ∧ (k.task p).state = .waiting ∧ p ≠ k.current ∧
    k.nextTask ≠ some p ∧ ∃ c ∈ k.childrenOf p, (k.task c).state = .dead

/-- In every such run, no wake-up is lost. -/
theorem no_lost_wakeup {acts : List Action} (run : NotifiedRun boot acts k) (p : Pid) :
    ¬ k.lostWakeup p := by
  have inv : Attentive k := by
    refine run.invariant .boot ?_
    rintro k a k' inv ⟨ok, moved⟩
    obtain ⟨running, move⟩ := step_moves moved
    exact inv.step ok running move
  rintro ⟨place, waiting, -, -, c, mem, dead⟩
  exact inv.quiet p (.inr ⟨place, waiting⟩) c mem dead

/-- A user task forks and waits; its child exits and is destroyed. -/
def waitedFor : List Action :=
  [.call (.create true), .tick, .call .fork, .run, .run, .call .wait, .run, .run, .run,
    .call (.exit 3), .run, .run, .run, .tick, .tick, .run]

theorem no_lost_wakeup_sample : ∃ k, NotifiedRun boot waitedFor k ∧ k.ctx 5 = .waitRescan ∧
    k.childrenOf 5 = [6] ∧ (k.task 6).state = .dead ∧ ¬ k.lostWakeup 5 := by
  obtain ⟨k, run, ctx, children, dead⟩ : ∃ k, NotifiedRun boot waitedFor k ∧ k.ctx 5 = .waitRescan ∧
      k.childrenOf 5 = [6] ∧ (k.task 6).state = .dead :=
        Run.exists_of_exec_guarded (by decide +kernel)
  exact ⟨k, run, ctx, children, dead, no_lost_wakeup run 5⟩

/-- A user task forks and calls `wait`. The timer interrupts it after its scan; its child exits and
is destroyed. Then the parent goes on. -/
def waitedLate : List Action :=
  [.call (.create true), .tick, .call .fork, .run, .run, .call .wait, .run, .tick,
    .call (.exit 3), .run, .run, .run, .tick, .tick, .run, .run, .tick, .run, .run]

/-- Without the condition, the parent sleeps although its child is dead. -/
theorem wakeup_lost : ∃ k, TaskRun boot waitedLate k ∧ k.panic = none ∧ k.lostWakeup 5 := by
  obtain ⟨k, run, running, ctx, rest⟩ : ∃ k, TaskRun boot waitedLate k ∧ k.panic = none ∧
      k.ctx 5 = .waitRescan ∧ (k.task 5).state = .waiting ∧ 5 ≠ k.current ∧ k.nextTask ≠ some 5 ∧
      6 ∈ k.childrenOf 5 ∧ (k.task 6).state = .dead := Run.exists_of_exec (by decide +kernel)
  obtain ⟨waiting, current, next, child, dead⟩ := rest
  exact ⟨k, run, running, .inr ctx, waiting, current, next, 6, child, dead⟩

end ExscapeOS.Tasks
