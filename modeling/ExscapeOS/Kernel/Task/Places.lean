import ExscapeOS.Kernel.Task.Effects

/-!
# Where tasks can be

Facts about every run: the reaper's code is only executed by the reaper, system calls only by tasks
that are no services, a task between `execve` and its new context is nowhere else, and only tasks
that exist are scheduled, queued or asked for. `Idling` adds what holds as long as no task in
`TASK_IDLE` is killed.
-/
namespace ExscapeOS.Tasks

open Kernel

variable {k k' : Kernel} {t : Pid} {a : Action}

/-- The child that `fork` has set up but not started. -/
def Pc.forks : Pc → Option Pid
  | .forkEnqueue c | .forkRun c => some c
  | _ => none

/-- At the end of `execve`; a task that was freed there has no place. -/
def Pc.inExecve : Pc → Bool
  | .execveYield | .execveReturned | .halt => true
  | _ => false

/-- In `wait`, between the decision to wait and the second look. -/
def Pc.inWait : Pc → Bool
  | .waitStore | .waitYield | .waitRescan => true
  | _ => false

/-- Only the reaper is in its code, and no service is in `_exit` or `wait`. -/
def Pc.ownedBy (t : Pid) : Pc → Prop
  | .exitKill _ | .waitScan | .waitStore | .waitYield | .waitRescan => numServices ≤ t
  | .waitpidScan .. | .waitpidStore _ | .waitpidYield _ | .waitpidRescan _ => numServices ≤ t
  | .reaperScan | .reaperYield | .reaperResume => t = reaperTask
  | .sleepRead _ ret | .sleepState _ ret | .sleepTime _ ret | .sleepYield ret =>
    ret = .user ∨ ret = .reaperScan ∧ t = reaperTask
  | _ => True

namespace Pc

variable {pc pc' : Pc}

namespace ownedBy

lemma yields (owned : pc.ownedBy t) (h : pc.yields = some pc') : pc'.ownedBy t := by
  cases pc <;> simp only [Pc.yields, Option.some.injEq, reduceCtorEq] at h
  case sleepYield ret =>
    subst h
    rcases owned with rfl | ⟨rfl, own⟩
    · trivial
    · exact own
  all_goals
    subst h
    exact owned

lemma forks_of_yields (owned : pc.ownedBy t) (h : pc.yields = some pc') : pc'.forks = none := by
  cases pc <;> simp only [Pc.yields, Option.some.injEq, reduceCtorEq] at h
  case sleepYield ret =>
    subst h
    rcases owned with rfl | ⟨rfl, -⟩ <;> rfl
  all_goals
    subst h
    rfl

lemma inExecve (h : pc.inExecve = true) : pc.ownedBy t := by
  cases pc <;> first | contradiction | trivial

lemma inWait (owned : pc.ownedBy t) (h : pc.inWait = true) : numServices ≤ t := by
  cases pc <;> first | exact owned | cases h

end ownedBy

lemma forks_of_inExecve (h : pc.inExecve = true) : pc.forks = none := by
  cases pc <;> simp_all [inExecve, forks]

lemma isScan_of_inExecve (h : pc.inExecve = true) : pc.isScan = false := by
  cases pc <;> simp_all [inExecve, isScan]

lemma inExecve_of_yields (h : pc.inExecve = true) (yields : pc.yields = some pc') :
    pc'.inExecve = true := by
  cases pc <;> simp_all [inExecve, Pc.yields]
  subst yields
  rfl

end Pc

lemma NetHandler.task_lt (h : NetHandler) : h.task < numServices := by
  cases h <;> decide

structure Places (k : Kernel) : Prop where
  low : numServices ≤ k.nextPid
  fresh : ∀ t, k.nextPid ≤ t → (k.task t).state = .idle ∧ (k.task t).didExecve = false
  current : k.current < k.nextPid
  next : ∀ t, k.nextTask = some t → t < k.nextPid ∧ (t < numServices ∨ k.cpu = .reaperYield)
  queue : ∀ t ∈ k.readyQueue, t < k.nextPid
  owned : ∀ t, (k.ctx t).ownedBy t
  execve : ∀ t, (k.task t).didExecve = true → (k.ctx t).inExecve = true
  loaded : ∀ t, (k.task t).didExecve = true → (k.task t).esp = .entry ∨
    (k.task t).esp.inExecve = true
  forks : ∀ p c, (k.ctx p).forks = some c → numServices ≤ c ∧ c < k.nextPid
  forksOnce : ∀ p q c, (k.ctx p).forks = some c → (k.ctx q).forks = some c → p = q

/-! ## The ready queue -/

lemma orphans_queue (cs : List Pid) (k : Kernel) :
    (cs.foldl Kernel.orphan k).readyQueue ⊆ k.readyQueue := by
  induction cs generalizing k with
  | nil => exact List.Subset.refl _
  | cons c cs ih =>
    refine List.Subset.trans (ih (k.orphan c)) ?_
    unfold Kernel.orphan
    split
    · exact List.erase_subset
    · exact List.Subset.refl _

lemma doWaitOne_queue (k : Kernel) (parent child : Pid) :
    (k.doWaitOne parent child).readyQueue ⊆ k.readyQueue := by
  unfold Kernel.doWaitOne
  dsimp only
  split
  · exact List.erase_subset
  · split <;> exact List.erase_subset

lemma collect_queue (k : Kernel) (c : Pid) : (k.collect c).readyQueue ⊆ k.readyQueue :=
  doWaitOne_queue { k with delivered := k.delivered ++ [_] } k.current c

lemma notify_queue (k : Kernel) (t : Pid) : (k.notify t).readyQueue ⊆ k.readyQueue := by
  unfold Kernel.notify
  split
  · exact List.erase_subset
  · split
    · exact List.Subset.refl _
    · dsimp only
      split <;> exact List.Subset.refl _

lemma reap_queue (k : Kernel) : k.reap.readyQueue ⊆ k.readyQueue := by
  unfold Kernel.reap
  split
  · exact List.Subset.refl _
  · split
    · unfold Kernel.destroyTask
      split
      · exact List.Subset.refl _
      · split
        · exact List.Subset.refl _
        · exact List.Subset.trans (notify_queue _ _) (orphans_queue _ _)
    · exact doWaitOne_queue _ _ _

lemma enqueue_queue {k : Kernel} {t u : Pid} (mem : u ∈ (k.enqueue t).readyQueue) :
    u ∈ k.readyQueue ∨ u = t := by
  unfold Kernel.enqueue at mem
  split at mem
  · case isTrue queued =>
    simp only [List.mem_append, List.mem_cons] at mem
    rcases mem with before | rfl | rfl | behind
    · exact .inl ((List.takeWhile_subset _) before)
    · exact .inl queued
    · exact .inr rfl
    · exact .inl ((List.dropWhile_sublist _).subset (List.mem_of_mem_tail behind))
  · exact .inl mem

lemma Move.queue (move : Move k a k') (mem : t ∈ k'.readyQueue) : t ∈ k.readyQueue ∨
    t = k.nextPid ∧ k'.nextPid = k.nextPid + 1 ∨ k.cpu = .forkEnqueue t := by
  cases move with
  | create =>
    rw [createTask] at mem ⊢
    rcases enqueue_queue mem with old | rfl
    · exact .inl old
    · refine .inr (.inl ⟨rfl, ?_⟩)
      unfold Kernel.enqueue
      split <;> rfl
  | enqueue cpu =>
    rcases enqueue_queue mem with old | rfl
    · exact .inl old
    · exact .inr (.inr cpu)
  | collect => exact .inl (collect_queue k _ mem)
  | reap => exact .inl (reap_queue k mem)
  | @yield pc => exact .inl ((schedulerTaskSwitch_switched (k.jump pc)).readyQueue ▸ mem)
  | tick => exact .inl ((schedulerTaskSwitch_switched k).readyQueue ▸ mem)
  | ata => exact .inl ((schedulerWakeIowait_switched k).readyQueue ▸ mem)
  | _ => exact .inl mem

/-! ## Steps -/

lemma Wakes.finished_iff {st st' : TaskState} (h : Wakes st st') :
    st'.finished = true ↔ st.finished = true := by
  cases h with
  | same => rfl
  | sleeping => decide
  | @running st h => cases st <;> simp_all [TaskState.finished, TaskState.isSleeping]

lemma Wakes.idle_iff {st st' : TaskState} (h : Wakes st st') : st' = .idle ↔ st = .idle := by
  cases h with
  | same => rfl
  | sleeping => decide
  | @running st h => cases st <;> simp_all [TaskState.isSleeping]

namespace Places

variable (inv : Places k)

include inv

variable (move : Move k a k')
include move

lemma fresh_step (t : Pid) (new : k'.nextPid ≤ t) :
    (k'.task t).state = .idle ∧ (k'.task t).didExecve = false := by
  have before : k.nextPid ≤ t := move.nextPid_le.trans new
  obtain ⟨idle, execve⟩ := inv.fresh t before
  have other : t ≠ k.current := fun h => absurd inv.current (h ▸ before).not_gt
  constructor
  · cases move.alters t with
    | freed _ _ _ state => exact state
    | forked _ _ state => exact state
    | created eq next => exact absurd (eq ▸ next ▸ new) (Nat.not_succ_le_self _)
    | next _ next =>
      generalize (k'.task t).state = st at next
      cases next with
      | wakes wakes => exact wakes.idle_iff.mpr idle
      | sleep own | io own | exit own | execve own | wait own => exact absurd own other
      | kill _ _ _ mem => exact absurd (inv.queue t mem) before.not_gt
      | forkRun cpu =>
        exact absurd (inv.forks k.current t (by rw [ctx_current, cpu]; rfl)).2 before.not_gt
      | @net h _ own => exact absurd (own ▸ h.task_lt) (inv.low.trans before).not_gt
    | dies _ _ state | woken _ _ state =>
      rw [idle] at state
      cases state
  · by_contra set
    rcases move.didExecve (by simpa using set) with old | ⟨own, -⟩
    · rw [execve] at old
      cases old
    · exact other own

lemma current_step : k'.current < k'.nextPid := by
  by_cases same : k'.current = k.current
  · rw [same]
    exact inv.current.trans_le move.nextPid_le
  · obtain ⟨-, -, -, next | running | idle⟩ := move.chosen same
    · exact (inv.next _ next).1.trans_le move.nextPid_le
    · by_contra new
      rw [(inv.fresh_step move k'.current (not_lt.mp new)).1] at running
      cases running
    · rw [idle]
      exact lt_of_lt_of_le (by decide) (inv.low.trans move.nextPid_le)

lemma next_step (t : Pid) (next : k'.nextTask = some t) :
    t < k'.nextPid ∧ (t < numServices ∨ k'.cpu = .reaperYield) := by
  rcases move.asked next with ⟨running, place⟩ | ⟨before, place⟩
  · refine ⟨?_, place.imp (fun ⟨h, _, eq⟩ => eq ▸ h.task_lt) And.left⟩
    by_contra new
    rw [(inv.fresh_step move t (not_lt.mp new)).1] at running
    cases running
  · obtain ⟨lt, low⟩ := inv.next t before
    refine ⟨lt.trans_le move.nextPid_le, low.imp_right fun cpu => ?_⟩
    have reaper := inv.owned k.current
    rw [ctx_current, cpu] at reaper
    rcases place with other | same | idle
    · exact absurd cpu other
    · exact same
    · exact absurd (idle.symm.trans reaper) (by decide)

lemma queue_step (t : Pid) (mem : t ∈ k'.readyQueue) : t < k'.nextPid := by
  rcases move.queue mem with old | ⟨rfl, next⟩ | cpu
  · exact (inv.queue t old).trans_le move.nextPid_le
  · rw [next]
    exact Nat.lt_succ_self _
  · exact (inv.forks k.current t (by rw [ctx_current, cpu]; rfl)).2.trans_le move.nextPid_le

lemma owned_step (t : Pid) : (k'.ctx t).ownedBy t := by
  have owned := inv.owned t
  have := move.goes t
  generalize k'.ctx t = pc at this
  cases this with
  | stays => exact owned
  | freed => trivial
  | new => trivial
  | next own next =>
    rw [own, ctx_current] at owned
    cases next with
    | jump h => cases h <;> simp_all [Pc.ownedBy]
    | own h => cases h <;> simp_all [Pc.ownedBy]
    | scanned scan => trivial
    | yields h => exact own ▸ owned.yields h
    | _ => simp_all [Pc.ownedBy]
  | loads _ set =>
    rcases inv.loaded t set with entry | inside
    · rw [entry]
      trivial
    · exact .inExecve inside

lemma execve_step (t : Pid) (execve : (k'.task t).didExecve = true) :
    (k'.ctx t).inExecve = true := by
  rcases move.didExecve execve with before | ⟨rfl, -, rfl⟩
  · have inside := inv.execve t before
    have := move.goes t
    generalize k'.ctx t = pc at this
    cases this with
    | stays => exact inside
    | freed => rfl
    | new new =>
      rw [(inv.fresh t new.ge).2] at before
      cases before
    | next own next =>
      rw [own, ctx_current] at inside
      cases next with
      | jump h => cases h <;> simp_all [Pc.inExecve]
      | own h => cases h <;> simp_all [Pc.inExecve]
      | scanned h => simp [Pc.isScan_of_inExecve inside] at h
      | yields h => exact Pc.inExecve_of_yields inside h
      | _ => simp_all [Pc.inExecve]
    | loads _ _ cleared =>
      rw [execve] at cleared
      cases cleared
  · exact congrArg Pc.inExecve (ctx_current k.execveDone)

lemma loaded_step (t : Pid) (execve : (k'.task t).didExecve = true) :
    (k'.task t).esp = .entry ∨ (k'.task t).esp.inExecve = true := by
  by_cases ht : t = k'.current
  · rcases move.didExecve execve with before | ⟨rfl, -, rfl⟩
    · subst ht
      rcases move.esp_current with same | ⟨current, halt | entry | new⟩
      · rw [same]
        by_cases hc : k'.current = k.current
        · exact inv.loaded _ before
        · rw [← ctx_of_ne hc]
          exact .inr (inv.execve _ before)
      · rw [current, halt]
        exact .inr rfl
      · exact .inl (current ▸ entry)
      · exact absurd new inv.current.ne
    · exact .inl (by simp [execveDone])
  · rw [← ctx_of_ne ht]
    exact .inr (inv.execve_step move t execve)

/-- A fork in progress was so before, or has just been called. -/
lemma forks_before {p c : Pid} (fork : (k'.ctx p).forks = some c) :
    (k.ctx p).forks = some c ∨
      p = k.current ∧ c = k.nextPid ∧ k'.nextPid = k.nextPid + 1 := by
  have owned := inv.owned p
  have := move.goes p
  generalize k'.ctx p = pc at *
  cases this with
  | stays => exact .inl fork
  | freed | new => simp [Pc.forks] at fork
  | next own next =>
    subst own
    rw [ctx_current] at owned ⊢
    cases next with
    | jump h => cases h <;> simp [Pc.forks] at fork
    | own h => cases h <;> simp [Pc.forks] at fork
    | fork _ _ new => exact .inr ⟨rfl, by simpa [Pc.forks] using fork.symm, new⟩
    | enqueue cpu =>
      rw [cpu]
      exact .inl fork
    | yields h =>
      rw [owned.forks_of_yields h] at fork
      cases fork
    | _ => simp [Pc.forks] at fork
  | loads _ set =>
    rcases inv.loaded p set with entry | inside
    · simp [entry, Pc.forks] at fork
    · rw [Pc.forks_of_inExecve inside] at fork
      cases fork

lemma forks_step (p c : Pid) (fork : (k'.ctx p).forks = some c) :
    numServices ≤ c ∧ c < k'.nextPid := by
  rcases inv.forks_before move fork with before | ⟨-, rfl, new⟩
  · obtain ⟨high, lt⟩ := inv.forks p c before
    exact ⟨high, lt.trans_le move.nextPid_le⟩
  · exact ⟨inv.low, new ▸ Nat.lt_succ_self _⟩

lemma forksOnce_step (p q c : Pid) (hp : (k'.ctx p).forks = some c)
    (hq : (k'.ctx q).forks = some c) :
    p = q := by
  rcases inv.forks_before move hp with before | ⟨rfl, rfl, -⟩
  · rcases inv.forks_before move hq with before' | ⟨rfl, rfl, -⟩
    · exact inv.forksOnce p q c before before'
    · exact absurd (inv.forks _ _ before).2 (lt_irrefl _)
  · rcases inv.forks_before move hq with before | ⟨rfl, -⟩
    · exact absurd (inv.forks _ _ before).2 (lt_irrefl _)
    · rfl

lemma step : Places k' where
  low := inv.low.trans move.nextPid_le
  fresh := inv.fresh_step move
  current := inv.current_step move
  next := inv.next_step move
  queue := inv.queue_step move
  owned := inv.owned_step move
  execve := inv.execve_step move
  loaded := inv.loaded_step move
  forks := inv.forks_step move
  forksOnce := inv.forksOnce_step move

end Places

lemma boot_ctx (t : Pid) :
    boot.ctx t = .user ∨ boot.ctx t = .halt ∨ t = reaperTask ∧ boot.ctx t = .reaperScan := by
  simp only [Kernel.ctx, boot]
  split_ifs <;> simp_all [service, Task.free]

lemma boot_didExecve (t : Pid) : (boot.task t).didExecve = false := by
  simp only [boot]
  split_ifs <;> rfl

lemma boot_fresh (t : Pid) (new : numServices ≤ t) : boot.task t = .free := by
  have high : ∀ s < numServices, t ≠ s := fun s lt eq => absurd (eq ▸ new) lt.not_ge
  simp only [boot]
  rw [if_neg (high _ (by decide)), if_neg (high _ (by decide)), if_neg (high _ (by decide)),
    if_neg new.not_gt]

lemma Places.boot : Places boot where
  low := le_rfl
  fresh t new := ⟨by rw [boot_fresh t new]; rfl, boot_didExecve t⟩
  current := by decide
  next t next := by cases next
  queue := by decide
  owned t := by
    rcases boot_ctx t with ctx | ctx | ⟨rfl, ctx⟩
    · rw [ctx]; trivial
    · rw [ctx]; trivial
    · rw [ctx]; rfl
  execve t set := by
    rw [boot_didExecve] at set
    cases set
  loaded t set := by
    rw [boot_didExecve] at set
    cases set
  forks p c fork := by
    rcases boot_ctx p with ctx | ctx | ⟨-, ctx⟩ <;> simp [ctx, Pc.forks] at fork
  forksOnce p q c fork := by
    rcases boot_ctx p with ctx | ctx | ⟨-, ctx⟩ <;> simp [ctx, Pc.forks] at fork

/-! ## Idle tasks -/

/-- `TASK_IDLE` is the state of the idle task, of a child until `fork` starts it, and of free
memory. If such tasks are not killed, only the idle task is ever scheduled. -/
structure Idling (k : Kernel) : Prop where
  idle : (k.task idleTask).state = .idle ∧ (k.task idleTask).allocated = true ∧
    (k.task idleTask).didExecve = false
  halted : k.ctx idleTask = .halt
  current : (k.task k.current).state = .idle → k.current = idleTask
  next : ∀ t, k.nextTask = some t → (k.task t).allocated = true → (k.task t).state ≠ .idle
  forks : ∀ p c, (k.ctx p).forks = some c → (k.task c).state = .idle

/-- A task in `TASK_IDLE` that nobody kills or starts stays there. -/
lemma idle_step (move : Move k a k') (idle : (k.task t).state = .idle)
    (spared : a ≠ .call (.kill t)) (halted : t = k.current → k.cpu = .halt)
    (handler : ∀ h : NetHandler, t ≠ h.task)
    (created : t = k.nextPid → k'.ctx k.current ≠ .user)
    (started : k.cpu = .forkRun t → k'.ctx k.current ≠ .user) : (k'.task t).state = .idle := by
  cases move.alters t with
  | freed _ _ _ state => exact state
  | forked _ _ state => exact state
  | created new _ _ user => exact absurd user (created new)
  | next _ next =>
    generalize (k'.task t).state = st at next
    cases next with
    | wakes wakes => exact wakes.idle_iff.mpr idle
    | sleep own cpu | io own cpu | exit own cpu | execve own cpu =>
      rw [halted own] at cpu
      cases cpu
    | wait own cpu => simp [halted own] at cpu
    | kill killed => exact absurd killed spared
    | forkRun cpu _ user => exact absurd user (started cpu)
    | net _ own => exact absurd own (handler _)
  | dies _ _ state | woken _ _ state =>
    rw [idle] at state
    cases state

/-- The current task is not the child of an unfinished `fork`. -/
lemma Idling.ne_current (inv : Idling k) {c : Pid} (idle : (k.task c).state = .idle)
    (high : numServices ≤ c) :
    c ≠ k.current := by
  rintro rfl
  rw [inv.current idle] at high
  exact absurd high (by decide)

lemma halted_step (places : Places k) (move : Move k a k') (halted : k.ctx idleTask = .halt)
    (plain : (k.task idleTask).didExecve = false) : k'.ctx idleTask = .halt := by
  have := move.goes idleTask
  generalize k'.ctx idleTask = pc at this
  cases this with
  | stays => exact halted
  | freed => rfl
  | new new => exact absurd (new ▸ places.low) (by decide)
  | next own next =>
    rw [own, ctx_current] at halted
    cases next with
    | jump h => cases h <;> simp_all
    | own h => cases h <;> simp_all
    | scanned scan => simp [halted, Pc.isScan] at scan
    | yields h => simp [halted, Pc.yields] at h
    | _ => simp_all
  | loads _ set =>
    rw [plain] at set
    cases set

lemma plain_step (move : Move k a k') (low : t < numServices)
    (plain : (k.task t).didExecve = false) : (k'.task t).didExecve = false := by
  by_contra set
  rcases move.didExecve (by simpa using set) with before | ⟨own, high, -⟩
  · rw [plain] at before
    cases before
  · exact absurd (own ▸ high) low.not_ge

namespace Idling

variable (inv : Idling k) (places : Places k)

include inv places

lemma idle_step (spared : a ≠ .call (.kill idleTask)) (move : Move k a k') :
    (k'.task idleTask).state = .idle ∧ (k'.task idleTask).allocated = true ∧
      (k'.task idleTask).didExecve = false := by
  obtain ⟨idle, allocated, execve⟩ := inv.idle
  have low : ¬ numServices ≤ idleTask := by decide
  have old : idleTask ≠ k.nextPid := fun new => low (new ▸ places.low)
  refine ⟨?_, ?_, ?_⟩
  · refine Tasks.idle_step move idle spared ?_ (fun h => ?_) (absurd · old) ?_
    · intro current
      have := inv.halted
      rwa [current, ctx_current] at this
    · cases h <;> decide
    · intro fork
      exact absurd (places.forks k.current _ (by rw [ctx_current, fork]; rfl)).1 low
  · cases move.alters idleTask with
    | next same | dies _ same | woken _ same => rwa [same]
    | freed _ finished =>
      rw [idle] at finished
      cases finished
    | created new | forked new => exact absurd new old
  · exact plain_step move (by decide) execve

lemma halted_step (move : Move k a k') : k'.ctx idleTask = .halt :=
  Tasks.halted_step places move inv.halted inv.idle.2.2

lemma next_step (move : Move k a k') (t : Pid) (next : k'.nextTask = some t)
    (allocated : (k'.task t).allocated = true) : (k'.task t).state ≠ .idle := by
  rcases move.asked next with ⟨running, -⟩ | ⟨before, -⟩
  · rw [running]
    nofun
  · cases move.alters t with
    | freed _ _ gone =>
      rw [gone] at allocated
      cases allocated
    | created new | forked new => exact absurd new (places.next t before).1.ne
    | next same state =>
      have busy := inv.next t before (same ▸ allocated)
      generalize (k'.task t).state = st at state
      cases state with
      | wakes wakes => exact wakes.idle_iff.not.mpr busy
      | _ => nofun
    | dies _ _ _ after | woken _ _ _ after =>
      rw [after]
      nofun

lemma current_step (kept : k.cpu.isScan = true ∨ k.cpu = .reaperScan →
      (k.task k.current).state.finished = true → (k'.task k.current).allocated ≠ false)
    (move : Move k a k') (idle : (k'.task k'.current).state = .idle) : k'.current = idleTask := by
  by_cases same : k'.current = k.current
  · rw [same] at idle ⊢
    cases move.alters k.current with
    | freed scan finished gone => exact absurd gone (kept scan finished)
    | created new | forked new => exact absurd new places.current.ne
    | next _ next =>
      rw [idle] at next
      generalize st : TaskState.idle = s at next
      cases next with
      | wakes wakes => exact inv.current (wakes.idle_iff.mp st.symm)
      | _ => cases st
    | dies _ _ _ after | woken _ _ _ after =>
      rw [idle] at after
      cases after
  · obtain ⟨wakes, allocated, -, next | running | idleTask⟩ := move.chosen same
    · refine absurd ((wakes _).idle_iff.mp idle) (inv.next _ next ?_)
      cases move.alters k'.current with
      | next eq | dies _ eq | woken _ eq => exact eq ▸ allocated
      | freed _ _ gone =>
        rw [gone] at allocated
        cases allocated
      | created new | forked new => exact absurd new (places.next _ next).1.ne
    · rw [idle] at running
      cases running
    · exact idleTask

lemma forks_step (spared : ∀ t, a = .call (.kill t) → (k.task t).state ≠ .idle)
    (move : Move k a k') (p c : Pid) (fork : (k'.ctx p).forks = some c) :
    (k'.task c).state = .idle := by
  have busy : k'.ctx p ≠ .user := fun user => by simp [user, Pc.forks] at fork
  have handler (high : numServices ≤ c) (h : NetHandler) : c ≠ h.task := by
    rintro rfl
    exact absurd h.task_lt high.not_gt
  rcases places.forks_before move fork with before | ⟨rfl, rfl, -⟩
  · obtain ⟨high, lt⟩ := places.forks p c before
    have idle := inv.forks p c before
    refine Tasks.idle_step move idle (fun killed => spared c killed idle)
      (absurd · (inv.ne_current idle high)) (handler high) (absurd · lt.ne) ?_
    intro cpu
    rwa [places.forksOnce k.current p c (by rw [ctx_current, cpu]; rfl) before]
  · have idle := (places.fresh _ le_rfl).1
    exact Tasks.idle_step move idle (fun killed => spared _ killed idle)
      (absurd · places.current.ne') (handler places.low) (fun _ => busy) (fun _ => busy)

lemma step (spared : ∀ t, a = .call (.kill t) → (k.task t).state ≠ .idle)
    (kept : k.cpu.isScan = true ∨ k.cpu = .reaperScan →
      (k.task k.current).state.finished = true → (k'.task k.current).allocated ≠ false)
    (move : Move k a k') : Idling k' where
  idle := inv.idle_step places (fun killed => spared _ killed inv.idle.1) move
  halted := inv.halted_step places move
  current := inv.current_step places kept move
  next := inv.next_step places move
  forks := inv.forks_step places spared move

end Idling

/-- Freed memory is not used again. -/
lemma Idling.free_step (inv : Idling k)
    (spared : ∀ t, a = .call (.kill t) → (k.task t).state ≠ .idle) (move : Move k a k')
    (old : t < k.nextPid) (free : (k.task t).allocated = false ∧ (k.task t).state = .idle) :
    (k'.task t).allocated = false ∧ (k'.task t).state = .idle := by
  obtain ⟨free, idle⟩ := free
  have other : t ≠ k.current := by
    rintro rfl
    rw [inv.current idle, inv.idle.2.1] at free
    cases free
  cases move.alters t with
  | freed _ _ allocated idle => exact ⟨allocated, idle⟩
  | created new | forked new => exact absurd new old.ne
  | dies _ _ state | woken _ _ state =>
    rw [idle] at state
    cases state
  | next allocated next =>
    rw [allocated]
    generalize (k'.task t).state = st at next
    cases next with
    | wakes wakes => exact ⟨free, wakes.idle_iff.mpr idle⟩
    | sleep own | io own | exit own | wait own | execve own => exact absurd own other
    | kill killed => exact absurd idle (spared t killed)
    | forkRun _ allocated | net _ _ allocated =>
      rw [free] at allocated
      cases allocated

lemma Idling.boot : Idling boot where
  idle := by decide
  halted := by decide
  current := by decide
  next t next := by cases next
  forks p c fork := by
    rcases boot_ctx p with ctx | ctx | ⟨-, ctx⟩ <;> simp [ctx, Pc.forks] at fork

end ExscapeOS.Tasks
