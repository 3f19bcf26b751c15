import ExscapeOS.Kernel.Task.Wait

/-!
# Exit codes are delivered once

A dead task stays on the ready queue and in its parent's list of children until the parent collects
it. The reaper looks for dead tasks on the same queue, and collects the first one with
`do_wait_one`, as if it were its own child. The condition `patient` says that the reaper finds no
dead task of another parent, and that `kill_pid` is not used on a dead task or on a child that
`fork` has not started. Under it every exit code reaches the parent, once.
-/
namespace ExscapeOS.Tasks

open Lib Kernel List Option

variable {k k' : Kernel} {t p c : Pid} {a : Action} {r : Report}

/-- The reaper's scan does not find a dead task of another parent, and `kill_pid` is not used on a
task that is dead or not started. -/
def patient (k : Kernel) : Action → Prop
  | .run => k.cpu = .reaperScan → ∀ t ∈ k.reaperHit, (k.task t).state = .dead →
      (k.task t).parent = some reaperTask
  | .call (.kill t) => (k.task t).state ≠ .dead ∧ (k.task t).state ≠ .idle
  | _ => True

instance (k : Kernel) (a : Action) : Decidable (patient k a) :=
  match a with
  | .run => inferInstanceAs (Decidable (k.cpu = .reaperScan → ∀ t ∈ k.reaperHit,
      (k.task t).state = .dead → (k.task t).parent = some reaperTask))
  | .call (.kill t) => inferInstanceAs
      (Decidable ((k.task t).state ≠ .dead ∧ (k.task t).state ≠ .idle))
  | .call (.sleep _) | .call (.nanosleep ..) | .call .io | .call .yield | .call (.exit _)
  | .call (.create _) | .call .fork
  | .call .wait | .call (.waitpid ..) | .call .execve | .tick | .net _ | .ata => isTrue trivial

lemma patient_idle (ok : patient k a) (t : Pid) (killed : a = .call (.kill t)) :
    (k.task t).state ≠ .idle := by
  subst killed
  exact ok.2

/-! ## The family under the condition -/

/-- A family whose dead members are collected by their parents only. -/
structure Household (k : Kernel) : Prop where
  places : Places k
  idling : Idling k
  tree : Tree k

namespace Household

variable (inv : Household k)

include inv

lemma collects (ok : patient k a) (t : Pid) (run : a = .run) (cpu : k.cpu = .reaperScan)
    (hit : k.reaperHit = some t) (dead : (k.task t).state = .dead) :
    t ∈ k.childrenOf k.current := by
  subst run
  rw [inv.places.reaper cpu]
  exact (inv.tree.forest.mem_iff reaperTask t).mpr (ok cpu t hit dead)

lemma step (ok : patient k a) (move : Move k a k') : Household k' := by
  have tree := inv.tree.step inv.places move (.inr (inv.collects ok))
  refine ⟨inv.places.step move, ?_, tree⟩
  refine inv.idling.step inv.places (patient_idle ok) (fun scan _ gone => ?_) move
  have allocated : (k'.task k.current).allocated = true := by
    cases move.kin with
    | calm calm =>
      rw [(calm _).allocated]
      exact inv.tree.current.1
    | create cpu | fork cpu => simp [cpu, Pc.isScan] at scan
    | @collect _ c _ _ eq =>
      have current := tree.current.1
      obtain ⟨_, _, _, state⟩ := collect_eq k c
      rwa [show k'.current = k.current by rw [eq, state]] at current
    | reap _ _ eq =>
      have current := tree.current.1
      rwa [show k'.current = k.current by rw [eq, (reap_reaping k).current]] at current
  rw [gone] at allocated
  cases allocated

lemma ne_current (dead : (k.task c).state = .dead) : c ≠ k.current := by
  rintro rfl
  exact inv.tree.current.2 (inv.tree.dead _ dead)

lemma high (parent : (k.task c).parent = some p) : numServices ≤ c := by
  by_contra low
  rw [inv.tree.services c (not_le.mp low)] at parent
  cases parent

lemma lt (parent : (k.task c).parent = some p) : c < k.nextPid := by
  by_contra new
  rw [(inv.tree.fresh c (not_lt.mp new)).1] at parent
  cases parent

lemma dead_of_next {st : TaskState} (ok : patient k a) (dead : (k.task c).state = .dead)
    (high : numServices ≤ c) (next : NextState k a k' c st) : st = .dead := by
  have other := inv.ne_current dead
  cases next with
  | wakes wakes => exact (wakes.eq_of_not (by rw [dead]; rfl) (by rw [dead]; nofun)).trans dead
  | sleep own | io own | exit own | wait own | execve own => exact absurd own other
  | kill killed =>
    subst killed
    exact absurd dead ok.1
  | forkRun cpu =>
    rw [inv.idling.forks k.current c (by rw [ctx_current, cpu]; rfl)] at dead
    cases dead
  | @net h _ own => exact absurd (own ▸ h.task_lt) high.not_gt

lemma dead_step (ok : patient k a) (move : Move k a k') (dead : (k.task c).state = .dead)
    (high : numServices ≤ c) : (k'.task c).state = .dead ∨
      (k'.task c).allocated = false ∧ (k'.task c).state = .idle := by
  cases move.alters c with
  | next _ next => exact .inl (inv.dead_of_next ok dead high next)
  | freed _ _ allocated idle => exact .inr ⟨allocated, idle⟩
  | dies _ _ _ after => exact .inl after
  | woken _ _ state =>
    rw [dead] at state
    cases state
  | created new | forked new =>
    rw [(inv.places.fresh c new.ge).1] at dead
    cases dead

end Household

/-! ## What becomes of a dead child -/

/-- What a step does to a dead child `c` of `p`. -/
inductive Zombie (k k' : Kernel) (p c : Pid) : Prop where
  | stays : (k'.task c).parent = some p → (k'.task c).state = .dead →
      (k'.task c).exitCode = (k.task c).exitCode → Zombie k k' p c
  /-- The parent has collected it. -/
  | collected : k'.task c = .free → k.current = p → k'.ctx p = .user →
      k'.delivered = k.delivered ++ [⟨p, c, (k.task c).exitCode⟩] → Zombie k k' p c
  /-- The parent has been destroyed. -/
  | orphaned : k'.task c = .free → k'.current = k.current → p ≠ k.current →
      (k'.task p).children = none → (k'.task p).state = .dead ∨ (k'.task p).esp = .halt →
      Zombie k k' p c
  /-- The parent is the reaper. -/
  | reaped : k'.task c = .free → p = reaperTask → Zombie k k' p c

lemma Zombie.of_eq (parent : (k.task c).parent = some p) (dead : (k.task c).state = .dead)
    (h : k'.task c = k.task c) : Zombie k k' p c := by
  refine .stays ?_ ?_ ?_ <;> rw [h]
  · exact parent
  · exact dead

/-- The end of `destroy_task` changes the task and a parent that waits. -/
lemma notify_task (other : c ≠ t)
    (awake : (k.task t).parent ≠ some c ∨ (k.task c).state ≠ .waiting) :
    (k.notify t).task c = k.task c := by
  generalize eq : k.notify t = k' at *
  cases notify_notified eq with
  | root => simp [release_task, other]
  | stop | leave => rfl
  | @wake p parent waiting =>
    have ne : c ≠ p := by
      rintro rfl
      rcases awake with awake | awake
      · exact awake parent
      · exact awake waiting
    simp [setNextTask, ne, report]

lemma notify_self (irrefl : (k.task t).parent ≠ some t) :
    (k.notify t).task t = k.task t ∨ (k.notify t).task t = .free := by
  generalize eq : k.notify t = k' at *
  cases notify_notified eq with
  | root => exact .inr (by simp [release_task])
  | stop | leave => exact .inl rfl
  | @wake p parent =>
    have ne : t ≠ p := by
      rintro rfl
      exact irrefl parent
    exact .inl (by simp [setNextTask, ne, report])

section

variable (inv : Household k)
include inv

lemma Household.zombie_step (ok : patient k a) (move : Move k a k')
    (parent : (k.task c).parent = some p) (dead : (k.task c).state = .dead) : Zombie k k' p c := by
  have other := inv.ne_current dead
  have old := inv.lt parent
  have tree := inv.tree
  cases move.kin with
  | calm calm =>
    refine .stays ?_ (inv.dead_of_next ok dead (inv.high parent) (calm c).state)
      ((calm c).exitCode other)
    rw [(calm c).parent]
    exact parent
  | create _ eq =>
    refine .of_eq parent dead ?_
    rw [eq, createTask_task, if_neg old.ne]
  | fork _ _ eq =>
    refine .of_eq parent dead ?_
    rw [eq, forkLink_task inv.places.current.ne, if_neg old.ne, if_neg other]
  | @collect _ d _ found eq =>
    obtain ⟨mem, -⟩ := deadChild_spec found
    have task := doWaitOne_task
      (k := { k with delivered := k.delivered ++ [⟨k.current, d, (k.task d).exitCode⟩] }) mem c
    by_cases same : c = d
    · subst same
      have own := (tree.forest.mem_iff k.current c).mp mem
      obtain rfl := some.inj (parent.symm.trans own)
      obtain ⟨_, _, _, state⟩ := collect_eq k c
      rw [if_pos rfl] at task
      exact .collected (eq ▸ task) rfl (eq ▸ collect_ctx k c) (by rw [eq, state])
    · rw [if_neg same, if_neg other] at task
      exact .of_eq parent dead (eq ▸ task)
  | reap run cpu eq =>
    have collects := inv.collects ok
    have reaper := inv.places.reaper cpu
    have same_current : k'.current = k.current := eq ▸ (reap_reaping k).current
    cases reap_round eq with
    | idle | stop => exact .of_eq parent dead rfl
    | @wait t hit dead' =>
      have mem := collects t run cpu hit dead'
      have task := doWaitOne_task mem c
      by_cases same : c = t
      · subst same
        have own := (tree.forest.mem_iff k.current c).mp mem
        rw [if_pos rfl] at task
        exact .reaped task (some.inj (parent.symm.trans own) ▸ reaper)
      · rw [if_neg same, if_neg other] at task
        exact .of_eq parent dead task
    | @destroy t cs hit exiting current some =>
      have notReaper : t ≠ reaperTask := reaper ▸ current
      have same : c ≠ t := by
        rintro rfl
        rw [dead] at exiting
        cases exiting
      rcases tree.bury_cases some notReaper c with ⟨eq, -⟩ | ⟨-, child, eq⟩ | ⟨rfl, -⟩ |
        ⟨-, -, -, eq⟩
      · exact absurd eq same
      · rw [Kernel.orphaned, if_pos dead] at eq
        have free := notify_task same (.inr (by rw [eq]; rintro ⟨⟩))
        obtain rfl := Option.some.inj (parent.symm.trans child)
        have self := tree.bury_self some notReaper
        refine .orphaned (free.trans eq) same_current current ?_ ?_
        · rcases (notify_records (k.bury p cs) p p).2 with children | children
          · rw [children, self]
          · exact children
        · have irrefl : ((k.bury p cs).task p).parent ≠ .some p := by
            rw [self]
            exact tree.forest.irrefl p
          rcases notify_self irrefl with same | free
          · rw [same, self]
            exact .inl rfl
          · rw [free]
            exact .inr rfl
      · rw [tree.reaper_root] at parent
        cases parent
      · refine .of_eq parent dead ?_
        rw [notify_task same (.inr (by rw [eq, dead]; rintro ⟨⟩)), eq]

lemma Household.torn_step (move : Move k a k') (old : t < k.nextPid)
    (torn : (k.task t).children = none) : (k'.task t).children = none := by
  have tree := inv.tree
  have other : t ≠ k.current := fun eq => tree.current.2 (eq ▸ torn)
  cases move.kin with
  | calm calm =>
    rw [(calm t).children]
    exact torn
  | create _ eq =>
    rw [eq, createTask_task, if_neg old.ne]
    exact torn
  | fork _ _ eq =>
    rw [eq, forkLink_task inv.places.current.ne, if_neg old.ne, if_neg other]
    exact torn
  | @collect _ c _ found eq =>
    have task := doWaitOne_records
      { k with delivered := k.delivered ++ [⟨k.current, c, (k.task c).exitCode⟩] } c other
    subst eq
    rcases task with same | free
    · exact (congrArg Task.children same).trans torn
    · exact congrArg Task.children free
  | reap run cpu eq =>
    have reaper := inv.places.reaper cpu
    cases reap_round eq with
    | idle | stop => exact torn
    | @wait c hit dead =>
      rcases doWaitOne_records k c other with same | free
      · exact (congrArg Task.children same).trans torn
      · exact congrArg Task.children free
    | @destroy d cs hit exiting current some =>
      have bury : ((k.bury d cs).task t).children = none := by
        rcases tree.bury_cases some (reaper ▸ current) t with ⟨-, eq⟩ | ⟨-, -, eq⟩ | ⟨-, eq⟩ |
          ⟨-, -, -, eq⟩
        · rw [eq]
        · rw [eq, orphaned]
          split_ifs
          · rfl
          · exact torn
        · simp [eq, torn]
        · rw [eq]
          exact torn
      rcases (notify_records (k.bury d cs) d t).2 with same | none
      · rw [same]
        exact bury
      · exact none

lemma Household.parent_alive (parent : (k.task c).parent = some p) : (k.task p).children ≠ none :=
  Tree.children_of_mem ((inv.tree.forest.mem_iff p c).mpr parent)

lemma Household.destroy_reports {cs : List Pid} (cpu : k.cpu = .reaperScan)
    (current : t ≠ k.current) (some : (k.task t).children = some cs)
    (parent : (k.task t).parent = .some p) :
    ((k.bury t cs).notify t).deaths = k.deaths ++ [⟨p, t, (k.task t).exitCode⟩] ∧
      ((k.bury t cs).notify t).task t = { k.task t with state := .dead, children := none } := by
  have ne : t ≠ reaperTask := inv.places.reaper cpu ▸ current
  have self := inv.tree.bury_self some ne
  obtain ⟨_, _, state⟩ := bury_eq t cs k
  have deaths : (k.bury t cs).deaths = k.deaths := by rw [state]
  have after : ((k.bury t cs).task t).parent = .some p := by
    rw [self]
    exact parent
  have other : p ≠ t := by
    rintro rfl
    exact inv.tree.forest.irrefl p parent
  generalize eq : (k.bury t cs).notify t = k' at *
  cases notify_notified eq with
  | root root =>
    rw [after] at root
    cases root
  | stop parent' dead =>
    obtain rfl := Option.some.inj (after.symm.trans parent')
    have alive := (inv.tree.bury_alive some ne other (inv.parent_alive parent)).2
    exact absurd ((inv.tree.bury some current ne).dead p dead) alive
  | wake parent' =>
    obtain rfl := Option.some.inj (after.symm.trans parent')
    constructor
    · simp [setNextTask, report, deaths, self]
    · simp [setNextTask, report, self, Ne.symm other]
  | leave parent' =>
    obtain rfl := Option.some.inj (after.symm.trans parent')
    constructor
    · simp [report, deaths, self]
    · exact self

lemma Household.destroy_root {cs : List Pid} (cpu : k.cpu = .reaperScan) (current : t ≠ k.current)
    (some : (k.task t).children = some cs) (root : (k.task t).parent = none) :
    ((k.bury t cs).notify t).deaths = k.deaths ∧ ((k.bury t cs).notify t).task t = .free := by
  have self := inv.tree.bury_self some (inv.places.reaper cpu ▸ current)
  obtain ⟨_, _, state⟩ := bury_eq t cs k
  have deaths : (k.bury t cs).deaths = k.deaths := by rw [state]
  have after : ((k.bury t cs).task t).parent = none := by
    rw [self]
    exact root
  generalize eq : (k.bury t cs).notify t = k' at *
  cases notify_notified eq with
  | root => exact ⟨deaths, by simp [release_task]⟩
  | stop parent | wake parent | leave parent =>
    rw [after] at parent
    cases parent

lemma Household.deaths_step (move : Move k a k') :
    k'.deaths = k.deaths ∨ ∃ p t, (k.task t).state = .exiting ∧ (k.task t).parent = some p ∧
      k'.deaths = k.deaths ++ [⟨p, t, (k.task t).exitCode⟩] ∧
      (∃ T, k'.task t = { k.task t with state := .dead, children := T }) := by
  cases move.kin with
  | calm _ deaths => exact .inl deaths
  | @create user _ eq =>
    obtain ⟨_, _, _, state⟩ := createTask_eq k user
    exact .inl (by rw [eq, state])
  | fork _ _ eq => exact .inl (by rw [eq]; rfl)
  | @collect _ c _ _ eq =>
    obtain ⟨_, _, _, state⟩ := collect_eq k c
    exact .inl (by rw [eq, state])
  | reap run cpu eq =>
    cases reap_round eq with
    | idle | stop => exact .inl rfl
    | @wait c =>
      obtain ⟨_, _, _, state⟩ := doWaitOne_eq k k.current c
      exact .inl (by rw [state]; rfl)
    | @destroy t cs hit exiting current some =>
      cases parent : (k.task t).parent with
      | none => exact .inl (inv.destroy_root cpu current some parent).1
      | some p =>
        obtain ⟨deaths, task⟩ := inv.destroy_reports cpu current some parent
        exact .inr ⟨p, t, exiting, parent, deaths, none, task⟩

lemma Household.new_dead (move : Move k a k') (alive : (k.task c).state ≠ .dead)
    (dead : (k'.task c).state = .dead) :
    ∃ p, (k'.task c).parent = some p ∧ ⟨p, c, (k'.task c).exitCode⟩ ∈ k'.deaths := by
  have fades (h : Fades (k.task c) (k'.task c)) : False := by
    rcases h with ⟨-, same, -⟩ | ⟨-, -, idle, -⟩
    · exact alive (same ▸ dead)
    · rw [idle] at dead
      cases dead
  cases move.kin with
  | calm calm => exact absurd ((calm c).dead dead) alive
  | create _ eq =>
    rw [eq, createTask_task] at dead
    split_ifs at dead
    · cases dead
    · exact absurd dead alive
  | fork _ _ eq =>
    rw [eq, forkLink_task inv.places.current.ne] at dead
    split_ifs at dead
    · cases dead
    · exact absurd dead alive
    · exact absurd dead alive
  | collect _ found eq => exact absurd (eq ▸ collect_fades (deadChild_spec found).2 c) fades
  | reap run cpu eq =>
    cases reap_round eq with
    | idle | stop => exact absurd dead alive
    | wait _ dead' => exact absurd (Fades.doWaitOne dead' k.current c) fades
    | @destroy t cs hit exiting current some =>
      have before := (notify_records (k.bury t cs) t c).1 dead
      rcases inv.tree.bury_cases some (inv.places.reaper cpu ▸ current) c with ⟨rfl, -⟩ |
        ⟨-, -, eq⟩ | ⟨-, eq⟩ | ⟨-, -, -, eq⟩
      · cases parent : (k.task c).parent with
        | none =>
          rw [(inv.destroy_root cpu current some parent).2] at dead
          cases dead
        | some p =>
          obtain ⟨deaths, task⟩ := inv.destroy_reports cpu current some parent
          refine ⟨p, by rw [task]; exact parent, ?_⟩
          rw [deaths, task]
          exact mem_append_right _ (mem_singleton_self _)
      · rw [eq, orphaned] at before
        split_ifs at before with h
        · cases before
        · exact absurd before alive
      · rw [eq] at before
        exact absurd before alive
      · rw [eq] at before
        exact absurd before alive

end

/-! ## The reports -/

/-- What a report of a death says about the present. -/
structure Logged (k : Kernel) (r : Report) : Prop where
  high : numServices ≤ r.child
  old : r.child < k.nextPid
  parentOld : r.parent < k.nextPid
  gone : (k.task r.child).state = .dead ∨
    (k.task r.child).allocated = false ∧ (k.task r.child).state = .idle
  kept : r.parent = reaperTask ∨ (k.task r.parent).children = none ∨
    ((k.task r.child).parent = some r.parent ∧ (k.task r.child).state = .dead ∧
      (k.task r.child).exitCode = r.status) ∨ r ∈ k.delivered

/-- The reports agree with the tasks. -/
structure Ledger (k : Kernel) : Prop where
  home : Household k
  zombies : ∀ c, (k.task c).state = .dead →
    ∃ p, (k.task c).parent = some p ∧ ⟨p, c, (k.task c).exitCode⟩ ∈ k.deaths
  deaths : ∀ r ∈ k.deaths, Logged k r
  delivered : ∀ r ∈ k.delivered, r ∈ k.deaths ∧
    (k.task r.child).allocated = false ∧ (k.task r.child).state = .idle
  once : (k.delivered.map Report.child).Nodup

lemma Household.delivered_step (inv : Household k) (move : Move k a k') :
    k'.delivered = k.delivered ∨ ∃ c, (k.task c).state = .dead ∧
      (k.task c).parent = some k.current ∧ k'.task c = .free ∧
      k'.delivered = k.delivered ++ [⟨k.current, c, (k.task c).exitCode⟩] := by
  cases move.kin with
  | calm _ _ delivered => exact .inl delivered
  | @create user _ eq =>
    obtain ⟨_, _, _, state⟩ := createTask_eq k user
    exact .inl (by rw [eq, state])
  | fork _ _ eq => exact .inl (by rw [eq]; rfl)
  | @collect _ c _ found eq =>
    obtain ⟨mem, dead⟩ := deadChild_spec found
    obtain ⟨_, _, _, state⟩ := collect_eq k c
    have task := doWaitOne_task
      (k := { k with delivered := k.delivered ++ [⟨k.current, c, (k.task c).exitCode⟩] }) mem c
    rw [if_pos rfl] at task
    exact .inr ⟨c, dead, (inv.tree.forest.mem_iff k.current c).mp mem, eq ▸ task, by rw [eq, state]⟩
  | reap _ _ eq =>
    refine .inl ?_
    cases reap_round eq with
    | idle | stop => rfl
    | @wait c =>
      obtain ⟨_, _, _, state⟩ := doWaitOne_eq k k.current c
      rw [state]
      rfl
    | @destroy t cs =>
      obtain ⟨_, _, state⟩ := bury_eq t cs k
      have delivered : (k.bury t cs).delivered = k.delivered := by rw [state]
      generalize notified : (k.bury t cs).notify t = k' at *
      cases notify_notified notified <;> exact delivered

namespace Ledger

variable (inv : Ledger k) (ok : patient k a) (move : Move k a k')

include inv move

lemma deaths_subset : k.deaths ⊆ k'.deaths := by
  rcases inv.home.deaths_step move with same | ⟨_, _, _, _, added, _⟩
  · rw [same]
    exact List.Subset.refl _
  · rw [added]
    exact subset_append_left _ _

lemma delivered_subset : k.delivered ⊆ k'.delivered := by
  rcases inv.home.delivered_step move with same | ⟨_, _, _, _, added⟩
  · rw [same]
    exact List.Subset.refl _
  · rw [added]
    exact subset_append_left _ _

include ok

lemma logged_step (h : Logged k r) : Logged k' r where
  high := h.high
  old := h.old.trans_le move.nextPid_le
  parentOld := h.parentOld.trans_le move.nextPid_le
  gone := by
    rcases h.gone with dead | free
    · exact inv.home.dead_step ok move dead h.high
    · exact .inr (inv.home.idling.free_step (patient_idle ok) move h.old free)
  kept := by
    rcases h.kept with reaper | torn | ⟨parent, dead, status⟩ | delivered
    · exact .inl reaper
    · exact .inr (.inl (inv.home.torn_step move h.parentOld torn))
    · cases inv.home.zombie_step ok move parent dead with
      | stays parent' dead' status' =>
        exact .inr (.inr (.inl ⟨parent', dead', status'.trans status⟩))
      | collected _ _ _ delivered =>
        refine .inr (.inr (.inr ?_))
        rw [delivered, status]
        exact mem_append_right _ (mem_singleton_self _)
      | orphaned _ _ _ torn => exact .inr (.inl torn)
      | reaped _ reaper => exact .inl reaper
    · exact .inr (.inr (.inr (inv.delivered_subset move delivered)))

lemma deaths_step (r : Report) (mem : r ∈ k'.deaths) : Logged k' r := by
  rcases inv.home.deaths_step move with same | ⟨p, t, exiting, parent, added, children, task⟩
  · exact inv.logged_step ok move (inv.deaths r (same ▸ mem))
  · rw [added, mem_append, mem_singleton] at mem
    rcases mem with old | rfl
    · exact inv.logged_step ok move (inv.deaths r old)
    · have alive := inv.home.tree.lt_of_children (inv.home.parent_alive parent)
      refine ⟨inv.home.high parent, (inv.home.lt parent).trans_le move.nextPid_le,
        alive.trans_le move.nextPid_le, .inl (by rw [task]), .inr (.inr (.inl ?_))⟩
      rw [task]
      exact ⟨parent, rfl, rfl⟩

lemma zombies_step (c : Pid) (dead : (k'.task c).state = .dead) :
    ∃ p, (k'.task c).parent = some p ∧ ⟨p, c, (k'.task c).exitCode⟩ ∈ k'.deaths := by
  by_cases before : (k.task c).state = .dead
  · obtain ⟨p, parent, mem⟩ := inv.zombies c before
    cases inv.home.zombie_step ok move parent before with
    | stays parent' _ status => exact ⟨p, parent', status ▸ inv.deaths_subset move mem⟩
    | collected free | orphaned free | reaped free =>
      rw [free] at dead
      cases dead
  · exact inv.home.new_dead move before dead

lemma delivered_step (r : Report) (mem : r ∈ k'.delivered) : r ∈ k'.deaths ∧
    (k'.task r.child).allocated = false ∧ (k'.task r.child).state = .idle := by
  have old (mem : r ∈ k.delivered) : r ∈ k'.deaths ∧
      (k'.task r.child).allocated = false ∧ (k'.task r.child).state = .idle := by
    obtain ⟨death, free⟩ := inv.delivered r mem
    exact ⟨inv.deaths_subset move death, inv.home.idling.free_step (patient_idle ok) move
      (inv.deaths r death).old free⟩
  rcases inv.home.delivered_step move with same | ⟨c, dead, parent, free, added⟩
  · exact old (same ▸ mem)
  · rw [added, mem_append, mem_singleton] at mem
    rcases mem with mem | rfl
    · exact old mem
    · obtain ⟨p, parent', death⟩ := inv.zombies c dead
      obtain rfl := some.inj (parent.symm.trans parent')
      refine ⟨inv.deaths_subset move death, ?_⟩
      rw [free]
      exact ⟨rfl, rfl⟩

omit ok in
lemma once_step : (k'.delivered.map Report.child).Nodup := by
  rcases inv.home.delivered_step move with same | ⟨c, dead, -, -, added⟩
  · rw [same]
    exact inv.once
  · rw [added, map_append]
    refine inv.once.append (nodup_singleton c) ?_
    simp only [List.map_cons, List.map_nil, List.disjoint_singleton, List.mem_map,
      not_exists, not_and]
    rintro r mem rfl
    rw [(inv.delivered r mem).2.2] at dead
    cases dead

lemma step : Ledger k' where
  home := inv.home.step ok move
  zombies := inv.zombies_step ok move
  deaths := inv.deaths_step ok move
  delivered := inv.delivered_step ok move
  once := inv.once_step move

end Ledger

/-! ## `wait` finds a dead child -/

/-- The task has a dead child. -/
def Kernel.hasDead (k : Kernel) (p : Pid) : Prop :=
  ∃ c, (k.task c).parent = some p ∧ (k.task c).state = .dead

/-- A task that sleeps in `wait`: it has not been woken, never runs again, or has a dead child. -/
def Kernel.sleepsInWait (k : Kernel) (p : Pid) : Prop :=
  (k.task p).state = .waiting ∧ ¬ (p = k.current ∧ k.ctx p = .waitRescan) ∨
    (k.task p).state.finished = true ∧ p ≠ k.current ∨ k.hasDead p

structure Attended (k : Kernel) : Prop where
  ledger : Ledger k
  next : ∀ t, k.nextTask = some t → numServices ≤ t → (k.task t).state = .running
  waits : k.panic = none → ∀ p, k.ctx p = .waitYield ∨ k.ctx p = .waitRescan → k.sleepsInWait p
  panic : k.panic ≠ some .waitNoDeadChild

lemma Household.woken_hasDead (inv : Household k) (move : Move k a k') (cpu : k.cpu = .reaperScan)
    (high : numServices ≤ p) (before : (k.task p).state = .waiting)
    (after : (k'.task p).state = .running) : k'.hasDead p := by
  have changed : (k'.task p).state ≠ (k.task p).state := by
    rw [before, after]
    rintro ⟨⟩
  have fades (h : Fades (k.task p) (k'.task p)) : False := by
    rcases h with ⟨-, same, -⟩ | ⟨-, -, idle, -⟩
    · exact changed same
    · rw [after] at idle
      cases idle
  cases move.kin with
  | calm calm =>
    have next := (calm p).state
    generalize (k'.task p).state = st at *
    cases next with
    | wakes wakes =>
      exact absurd (wakes.eq_of_not (by rw [before]; rfl) (by rw [before]; rintro ⟨⟩)) changed
    | execve _ user =>
      rw [cpu] at user
      cases user
    | forkRun fork =>
      rw [cpu] at fork
      cases fork
    | @net h _ own => exact absurd (own ▸ h.task_lt) high.not_gt
    | _ => cases after
  | create user | fork user =>
    rw [cpu] at user
    cases user
  | collect scan =>
    rw [cpu] at scan
    cases scan
  | reap run cpu eq =>
    cases reap_round eq with
    | idle | stop => exact absurd rfl changed
    | wait _ dead => exact absurd (Fades.doWaitOne dead k.current p) fades
    | @destroy t cs hit exiting current some =>
      by_cases parent : (k.task t).parent = .some p
      · obtain ⟨-, task⟩ := inv.destroy_reports cpu current some parent
        refine ⟨t, ?_, ?_⟩ <;> rw [task]
        exact parent
      · -- the task that dies is no child of `p`, so `p` is as it was
        have ne : t ≠ reaperTask := inv.places.reaper cpu ▸ current
        have other : p ≠ t := by
          rintro rfl
          rw [before] at exiting
          cases exiting
        have parent' : ((k.bury t cs).task t).parent ≠ .some p := by
          rw [inv.tree.bury_self some ne]
          exact parent
        refine absurd ?_ changed
        rw [notify_task other (.inl parent')]
        rcases inv.tree.bury_cases some ne p with ⟨eq, -⟩ | ⟨-, -, eq⟩ | ⟨-, eq⟩ | ⟨-, -, -, eq⟩
        · exact absurd eq other
        · rw [eq, orphaned, if_neg (by rw [before]; rintro ⟨⟩)]
        · rw [eq]
        · rw [eq]

namespace Attended

variable (inv : Attended k) (ok : patient k a) (move : Move k a k')

include inv move

lemma next_step (t : Pid) (next : k'.nextTask = some t) (high : numServices ≤ t) :
    (k'.task t).state = .running := by
  have places := inv.ledger.home.places
  cases move.nextTask with
  | none none =>
    rw [none] at next
    cases next
  | @net h _ eq =>
    obtain rfl : h.task = t := by simpa [eq] using next
    exact absurd h.task_lt high.not_gt
  | @reap p eq _ running =>
    obtain rfl : p = t := by simpa [eq] using next
    exact running
  | same eq =>
    rw [eq] at next
    have running := inv.next t next high
    obtain ⟨lt, low | cpu⟩ := places.next t next
    · exact absurd low high.not_gt
    · cases move.alters t with
      | freed scan => simp [cpu, Pc.isScan] at scan
      | created new | forked new => exact absurd new lt.ne
      | dies scan | woken scan =>
        rw [cpu] at scan
        cases scan
      | next _ next =>
        generalize (k'.task t).state = st at next
        cases next with
        | wakes wakes =>
          exact (wakes.eq_of_not (by rw [running]; rfl) (by rw [running]; rintro ⟨⟩)).trans running
        | sleep _ cpu' | io _ cpu' | exit _ cpu' | execve _ cpu' | forkRun cpu' | kill _ cpu' =>
          exact absurd (cpu.symm.trans cpu') (by rintro ⟨⟩)
        | wait _ cpu' => simp [cpu] at cpu'
        | net => rfl

lemma not_chosen (high : numServices ≤ p) (asleep : (k.task p).state ≠ .running)
    (asleep' : (k'.task p).state.isRunning = false) (ne : p ≠ k.current) : p ≠ k'.current := by
  intro current
  obtain ⟨-, -, -, next | running | idle⟩ := move.chosen (current ▸ ne)
  · exact asleep (inv.next p (current ▸ next) high)
  · rw [← current, asleep'] at running
    cases running
  · rw [current, idle] at high
    exact absurd high (by decide)

/-- A finished task that is not scheduled is never scheduled again. -/
lemma finished_stays (high : numServices ≤ p) (alive : k'.ctx p ≠ .halt)
    (finished : (k.task p).state.finished = true) (other : p ≠ k.current) :
    (k'.task p).state.finished = true ∧ p ≠ k'.current := by
  have home := inv.ledger.home
  have finished' : (k'.task p).state.finished = true := by
    cases move.alters p with
    | freed _ _ allocated _ halt =>
      by_cases current : p = k'.current
      · obtain ⟨-, allocated', -⟩ := move.chosen (current ▸ other)
        rw [← current, allocated] at allocated'
        cases allocated'
      · exact absurd ((ctx_of_ne current).trans halt) alive
    | dies _ _ _ after =>
      rw [after]
      rfl
    | woken _ _ state =>
      rw [state] at finished
      cases finished
    | created new | forked new =>
      rw [(home.places.fresh p new.ge).1] at finished
      cases finished
    | next _ next =>
      generalize (k'.task p).state = st at next
      cases next with
      | wakes wakes => exact wakes.finished_iff.mpr finished
      | sleep own | io own | exit own | execve own | wait own => exact absurd own other
      | kill => rfl
      | forkRun cpu =>
        rw [home.idling.forks k.current p (by rw [ctx_current, cpu]; rfl)] at finished
        cases finished
      | @net h _ own => exact absurd (own ▸ h.task_lt) high.not_gt
  refine ⟨finished', inv.not_chosen move high (fun state => ?_) ?_ other⟩
  · rw [state] at finished
    cases finished
  · generalize (k'.task p).state = st at finished'
    cases st <;> simp_all [TaskState.finished, TaskState.isRunning]

include ok

lemma hasDead_step (high : numServices ≤ p) (place : k'.ctx p ≠ .user) (alive : k'.ctx p ≠ .halt)
    (h : k.hasDead p) : k'.hasDead p ∨ (k'.task p).state = .dead ∧ p ≠ k'.current := by
  obtain ⟨c, parent, dead⟩ := h
  cases inv.ledger.home.zombie_step ok move parent dead with
  | stays parent' dead' => exact .inl ⟨c, parent', dead'⟩
  | collected _ _ user => exact absurd user place
  | orphaned _ current other _ state =>
    have other' : p ≠ k'.current := current ▸ other
    rcases state with dead | halt
    · exact .inr ⟨dead, other'⟩
    · exact absurd ((ctx_of_ne other').trans halt) alive
  | reaped _ reaper =>
    rw [reaper] at high
    exact absurd high (by decide)

lemma sleeps_stays (high : numServices ≤ p) (running : k.panic = none)
    (stays : k'.ctx p = k.ctx p) (place : k.ctx p = .waitYield ∨ k.ctx p = .waitRescan) :
    k'.sleepsInWait p := by
  have home := inv.ledger.home
  have notUser : k.ctx p ≠ .user := by rcases place with h | h <;> rw [h] <;> nofun
  have notHalt : k.ctx p ≠ .halt := by rcases place with h | h <;> rw [h] <;> nofun
  have busy (own : p = k.current) : k.cpu = .waitYield ∨ k.cpu = .waitRescan := by
    rwa [own, ctx_current] at place
  rcases inv.waits running p place with ⟨waiting, notRescan⟩ | ⟨finished, other⟩ | dead
  · have awake : (k.task p).state ≠ .running := by
      rw [waiting]
      nofun
    cases move.alters p with
    | freed _ finished =>
      rw [waiting] at finished
      cases finished
    | dies _ _ state =>
      rw [waiting] at state
      cases state
    | created new | forked new =>
      rw [(home.places.fresh p new.ge).1] at waiting
      cases waiting
    | woken cpu _ _ after => exact .inr (.inr (home.woken_hasDead move cpu high waiting after))
    | next _ next =>
      generalize state : (k'.task p).state = st at next
      cases next with
      | wakes wakes =>
        have waiting' := (wakes.eq_of_not (by rw [waiting]; rfl) (by rw [waiting]; nofun)).trans
          waiting
        rw [waiting'] at state
        refine .inl ⟨state, ?_⟩
        rintro ⟨current, rescan⟩
        by_cases own : p = k.current
        · exact notRescan ⟨own, stays ▸ rescan⟩
        · exact inv.not_chosen move high awake (by rw [state]; rfl) own current
      | sleep own cpu | io own cpu | exit own cpu | execve own cpu =>
        have := busy own
        simp [cpu] at this
      | wait own cpu =>
        have := busy own
        rcases cpu with cpu | ⟨_, cpu⟩ <;> simp [cpu] at this
      | kill _ cpu =>
        have own : p ≠ k.current := by
          rintro rfl
          exact notUser ((ctx_current k).trans cpu)
        exact .inr (.inl ⟨by rw [state]; rfl,
          inv.not_chosen move high awake (by rw [state]; rfl) own⟩)
      | forkRun cpu =>
        rw [home.idling.forks k.current p (by rw [ctx_current, cpu]; rfl)] at waiting
        cases waiting
      | @net h _ own => exact absurd (own ▸ h.task_lt) high.not_gt
  · exact .inr (.inl (inv.finished_stays move high (stays ▸ notHalt) finished other))
  · rcases inv.hasDead_step ok move high (stays ▸ notUser) (stays ▸ notHalt) dead with
      dead | ⟨gone, other⟩
    · exact .inr (.inr dead)
    · exact .inr (.inl ⟨by rw [gone]; rfl, other⟩)

end Attended

/-- The panics a function may end in, but for those of `wait` and `execve`. -/
def Kernel.Checked (k k' : Kernel) : Prop :=
  k'.panic = k.panic ∨ k'.panic = some .fault ∨ k'.panic = some .assertion

lemma enqueue_checked (k : Kernel) (t : Pid) : k.Checked (k.enqueue t) := by
  unfold enqueue
  split
  · exact .inl rfl
  · exact .inr (.inr rfl)

lemma doWaitOne_checked (k : Kernel) (p c : Pid) : k.Checked (k.doWaitOne p c) := by
  unfold doWaitOne
  dsimp only
  split
  · exact .inr (.inr rfl)
  · split
    · exact .inl rfl
    · exact .inr (.inr rfl)

lemma notify_checked (k : Kernel) (t : Pid) : k.Checked (k.notify t) := by
  unfold notify
  split
  · exact .inl rfl
  · split
    · exact .inr (.inr rfl)
    · dsimp only
      split <;> exact .inl rfl

lemma reap_checked (k : Kernel) : k.Checked k.reap := by
  unfold reap
  split
  · exact .inl rfl
  · case h_2 t _ =>
    split
    · unfold destroyTask
      split
      · exact .inr (.inr rfl)
      · split
        · exact .inr (.inl rfl)
        · case h_2 cs _ =>
          have checked := notify_checked (k.bury t cs) t
          obtain ⟨task, queue, eq⟩ := bury_eq t cs k
          rw [eq] at checked ⊢
          exact checked
    · exact doWaitOne_checked k k.current t

lemma Move.waitNoDeadChild (move : Move k a k') (running : k.panic = none)
    (stopped : k'.panic = some .waitNoDeadChild) :
    k.cpu = .waitRescan ∧ k.deadChild none = none := by
  have unchecked (checked : k.Checked k') : False := by
    unfold Checked at checked
    grind
  cases move with
  | stop wait _ => exact wait (some.inj stopped)
  | create => exact (unchecked (enqueue_checked _ _)).elim
  | enqueue => exact (unchecked (enqueue_checked _ _)).elim
  | collect => exact (unchecked (doWaitOne_checked _ _ _)).elim
  | reap => exact (unchecked (reap_checked k)).elim
  | @yield pc => exact (unchecked (schedulerTaskSwitch_switched (k.jump pc)).panic).elim
  | tick => exact (unchecked (schedulerTaskSwitch_switched k).panic).elim
  | ata => exact (unchecked (schedulerWakeIowait_switched k).panic).elim
  | _ => exact (unchecked (.inl rfl)).elim

namespace Attended

variable (inv : Attended k) (ok : patient k a) (move : Move k a k')

include inv ok move

lemma sleeps_yield (high : numServices ≤ k.current) (running : k.panic = none)
    (running' : k'.panic = none) (cpu : k.cpu = .waitYield)
    (switched : Switched (k.jump .waitRescan) k') (rescan : k'.ctx k.current = .waitRescan) :
    k'.sleepsInWait k.current := by
  rcases inv.waits running k.current (.inl ((ctx_current k).trans cpu)) with ⟨waiting, -⟩ |
    ⟨-, other⟩ | dead
  · have waiting' : (k'.task k.current).state = .waiting :=
      ((switched.wakes k.current).eq_of_not (by rw [jump_task, waiting]; rfl)
        (by rw [jump_task, waiting]; nofun)).trans waiting
    refine .inl ⟨waiting', fun ⟨current, _⟩ => ?_⟩
    -- the scheduler does not go back to a task that waits
    rcases switched.stays current.symm running' with awake | next | execve | kernel | idle
    · rw [jump_current, waiting'] at awake
      cases awake
    · rcases (inv.ledger.home.places.next _ next).2 with low | yield
      · exact absurd low high.not_gt
      · rw [cpu] at yield
        cases yield
    · have inside := inv.ledger.home.places.execve k.current execve
      rw [ctx_current, cpu] at inside
      cases inside
    · rw [show k.current = kernelTask from kernel.1] at high
      exact absurd high (by decide)
    · rw [show k.current = idleTask from idle] at high
      exact absurd high (by decide)
  · exact absurd rfl other
  · have notUser : k'.ctx k.current ≠ .user := by
      rw [rescan]
      nofun
    have notHalt : k'.ctx k.current ≠ .halt := by
      rw [rescan]
      nofun
    rcases inv.hasDead_step ok move high notUser notHalt dead with dead | ⟨gone, other⟩
    · exact .inr (.inr dead)
    · exact .inr (.inl ⟨by rw [gone]; rfl, other⟩)

lemma waits_step (running : k.panic = none) (running' : k'.panic = none) (p : Pid)
    (place : k'.ctx p = .waitYield ∨ k'.ctx p = .waitRescan) : k'.sleepsInWait p := by
  have places := inv.ledger.home.places
  have inWait : (k'.ctx p).inWait = true := by rcases place with h | h <;> rw [h] <;> rfl
  have high := ((places.step move).owned p).inWait inWait
  have goes := move.goes p
  generalize pc_eq : k'.ctx p = pc at goes
  rw [pc_eq] at place inWait
  cases goes with
  | stays => exact inv.sleeps_stays ok move high running pc_eq place
  | freed | new => cases inWait
  | next own next =>
    subst own
    cases next with
    | jump jump => cases jump <;> simp at place
    | own own task =>
      cases own with
      | waitStore =>
        refine .inl ⟨by rw [task], ?_⟩
        rintro ⟨-, rescan⟩
        rw [pc_eq] at rescan
        cases rescan
      | _ => simp at place
    | yields yields switched =>
      have owned := places.owned k.current
      rw [ctx_current] at owned
      obtain ⟨cpu, rfl⟩ := owned.waitYield yields inWait
      exact inv.sleeps_yield ok move high running running' cpu switched pc_eq
    | _ => cases inWait
  | loads _ set =>
    rw [places.loaded_inWait set] at inWait
    cases inWait

omit ok in
/-- When `wait` scans again it finds a child. -/
lemma panic_step (running : k.panic = none) : k'.panic ≠ some .waitNoDeadChild := by
  intro stopped
  obtain ⟨cpu, none⟩ := move.waitNoDeadChild running stopped
  have ctx : k.ctx k.current = .waitRescan := (ctx_current k).trans cpu
  rcases inv.waits running k.current (.inr ctx) with ⟨-, elsewhere⟩ | ⟨-, other⟩ |
    ⟨c, parent, dead⟩
  · exact elsewhere ⟨rfl, ctx⟩
  · exact other rfl
  · have mem := (inv.ledger.home.tree.forest.mem_iff k.current c).mpr parent
    exact deadChild_none none c mem dead

lemma step (running : k.panic = none) : Attended k' where
  ledger := inv.ledger.step ok move
  next := inv.next_step move
  waits := inv.waits_step ok move running
  panic := inv.panic_step move running

end Attended

lemma Attended.boot : Attended boot where
  ledger :=
    { home := { places := .boot, idling := .boot, tree := tree_boot }
      zombies := fun c dead => absurd dead (boot_alive c)
      deaths := nofun
      delivered := nofun
      once := nodup_nil }
  next := nofun
  waits _ p place := by
    rcases boot_ctx p with ctx | ctx | ⟨-, ctx⟩ <;> simp [ctx] at place
  panic := nofun

/-- Runs in which the reaper finds no dead task of another parent, and no task is killed that is
dead or not started. -/
abbrev PatientRun : Kernel → List Action → Kernel → Prop :=
  Run (Guarded patient fun k a k' => step k a = some k')

/-- The dead child is still on its parent's list, with its exit code. -/
def Kernel.uncollected (k : Kernel) (r : Report) : Prop :=
  r.child ∈ k.childrenOf r.parent ∧ (k.task r.child).state = .dead ∧
    (k.task r.child).exitCode = r.status

/-- How often `wait` and `waitpid` have returned the child. -/
def Kernel.returned (k : Kernel) (c : Pid) : Nat := (k.delivered.map Report.child).count c

/-- In every such run, as long as the parent has not been destroyed, a child that died is on its
list and has not been returned by `wait` or `waitpid`, or it has been returned once, with the exit
code it died with; and `sys_wait` does not panic. -/
theorem exit_codes_delivered {acts : List Action} (run : PatientRun boot acts k) :
    (∀ r ∈ k.deaths, r.parent ≠ reaperTask → (k.task r.parent).children ≠ none →
      k.uncollected r ∧ k.returned r.child = 0 ∨ r ∈ k.delivered ∧ k.returned r.child = 1) ∧
    (∀ r ∈ k.delivered, r ∈ k.deaths) ∧ (∀ c, k.returned c ≤ 1) ∧
    k.panic ≠ some .waitNoDeadChild := by
  have inv : Attended k := by
    refine run.invariant .boot ?_
    rintro k a k' inv ⟨ok, moved⟩
    obtain ⟨running, move⟩ := step_moves moved
    exact inv.step ok move running
  have once := nodup_iff_count_le_one.mp inv.ledger.once
  refine ⟨fun r death adopted alive => ?_, fun r mem => (inv.ledger.delivered r mem).1, once,
    inv.panic⟩
  rcases (inv.ledger.deaths r death).kept with reaper | torn | ⟨parent, dead, status⟩ | mem
  · exact absurd reaper adopted
  · exact absurd torn alive
  · have listed := (inv.ledger.home.tree.forest.mem_iff r.parent r.child).mpr parent
    refine .inl ⟨⟨listed, dead, status⟩, count_eq_zero.mpr fun mem => ?_⟩
    obtain ⟨r', mem', same⟩ := mem_map.mp mem
    rw [← same, (inv.ledger.delivered r' mem').2.2] at dead
    cases dead
  · exact .inr ⟨mem, count_eq_one_of_mem inv.ledger.once (mem_map_of_mem mem)⟩

/-- A user task forks and waits; its child exits, the reaper destroys it, `wait` returns. -/
def waitedOnce : List Action :=
  [.call (.create true), .tick, .call .fork, .run, .run, .call .wait, .run, .run, .run,
    .call (.exit 3), .run, .run, .run, .tick, .tick, .run, .run, .run]

theorem exit_codes_delivered_sample : ∃ k, PatientRun boot waitedOnce k ∧
    k.deaths = [⟨5, 6, 3 * 256⟩] ∧ k.delivered = [⟨5, 6, 3 * 256⟩] ∧ k.returned 6 = 1 := by
  obtain ⟨k, run, deaths, delivered, children, freed⟩ : ∃ k, PatientRun boot waitedOnce k ∧
      k.deaths = [⟨5, 6, 3 * 256⟩] ∧ k.delivered = [⟨5, 6, 3 * 256⟩] ∧
        (k.task 5).children = some [] ∧ (k.task 6).state = .idle :=
          Run.exists_of_exec_guarded (by decide +kernel)
  refine ⟨k, run, deaths, delivered, ?_⟩
  have death : (⟨5, 6, 3 * 256⟩ : Report) ∈ k.deaths := deaths ▸ mem_singleton_self _
  rcases (exit_codes_delivered run).1 _ death (by decide) (by rw [children]; nofun) with
    ⟨⟨-, dead, -⟩, -⟩ | ⟨-, once⟩
  · rw [freed] at dead
    cases dead
  · exact once

/-- Task 5 forks 6, which forks 7 and exits; the reaper destroys it and adopts 7. Task 5 does not
wait, and the reaper scans again. -/
def reapedEarly : List Action :=
  [.call (.create true), .tick, .call .fork, .run, .run, .tick, .call .fork, .run, .run,
    .call (.exit 3), .run, .run, .run, .tick, .tick, .tick, .run, .run, .tick, .tick, .tick, .tick,
    .tick, .run, .run, .run, .run, .run, .tick, .tick, .tick, .tick, .tick, .run]

/-- A dead child is freed while it is on the list of its parent, who runs and has not collected it.
-/
theorem exit_code_lost : ∃ k, TaskRun boot reapedEarly k ∧ ⟨5, 6, 3 * 256⟩ ∈ k.deaths ∧
    (k.task 5).state = .running ∧ k.childrenOf 5 = [6] ∧ (k.task 6).allocated = false ∧
    k.returned 6 = 0 :=
  Run.exists_of_exec (by decide +kernel)

end ExscapeOS.Tasks
