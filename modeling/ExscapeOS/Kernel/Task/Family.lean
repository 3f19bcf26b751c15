import ExscapeOS.Kernel.Task.Places
import ExscapeOS.Lib.Forest

/-!
# Parents and children

The `parent` pointers and the `children` lists form a forest, in every state in which the machine
has not stopped. `fork` adds a child, `do_wait_one` takes one out, and `destroy_task` gives the
children of a task to the reaper.
-/
namespace ExscapeOS.Tasks

open Lib Kernel

variable {k k' : Kernel} {t : Pid} {a : Action}

/-- The list of a task's children; empty if the task's resources are gone. -/
def Kernel.childrenOf (k : Kernel) (p : Pid) : List Pid := (k.task p).children.getD []

/-! ## Exact records -/

lemma forkLink_task (old : k.current ≠ k.nextPid) (u : Pid) :
    k.forkLink.task u =
      if u = k.nextPid then newTask .idle true (some k.current)
      else if u = k.current then
        { k.task u with children := (k.task u).children.map (· ++ [k.nextPid]) }
      else k.task u := by
  split_ifs with new own
  · subst new
    simp [forkLink, Ne.symm old]
  · subst own
    simp [forkLink, old]
  · simp [forkLink, new, own]

lemma release_task (k : Kernel) (t u : Pid) :
    (k.release t).task u = if u = t then .free else k.task u := by
  split_ifs with h
  · subst h
    simp [Kernel.release]
  · simp [Kernel.release, h]

variable {p c : Pid}

lemma doWaitOne_task (mem : c ∈ k.childrenOf p) (u : Pid) :
    (k.doWaitOne p c).task u =
      if u = c then .free
      else if u = p then { k.task u with children := some ((k.childrenOf p).erase c) }
      else k.task u := by
  have some : k.childrenOf p ≠ [] := List.ne_nil_of_mem mem
  unfold childrenOf at mem some ⊢
  simp only [doWaitOne, some, mem, if_true, if_false]
  rw [release_task]
  split_ifs with child parent
  · rfl
  · subst parent
    simp
  · simp [parent]

lemma doWaitOne_panic (running : (k.doWaitOne p c).panic = none) :
    c ∈ k.childrenOf p := by
  unfold doWaitOne at running
  dsimp only at running
  split at running
  · cases running
  · split at running
    · assumption
    · cases running

/-- What becomes of a child whose parent is destroyed. -/
def Kernel.orphaned (T : Task) : Task :=
  if T.state = .dead then .free else { T with parent := some reaperTask }

lemma orphan_task (other : c ≠ reaperTask) (u : Pid) :
    (k.orphan c).task u =
      if u = c then orphaned (k.task u)
      else if u = reaperTask ∧ (k.task c).state ≠ .dead then
        { k.task u with children := (k.task u).children.map (· ++ [c]) }
      else k.task u := by
  unfold Kernel.orphan orphaned
  split_ifs with dead child gone reaper
  all_goals simp_all [release_task]

/-- The live ones among some tasks. -/
def Kernel.live (k : Kernel) (cs : List Pid) : List Pid := cs.filter fun c =>
    (k.task c).state ≠ .dead

variable {cs : List Pid}

lemma orphans_task (nodup : cs.Nodup) (other : reaperTask ∉ cs) (k : Kernel)
    (u : Pid) : (cs.foldl Kernel.orphan k).task u =
      if u ∈ cs then orphaned (k.task u)
      else if u = reaperTask then
        { k.task u with children := (k.task u).children.map (· ++ k.live cs) }
      else k.task u := by
  induction cs generalizing k with
  | nil =>
    simp [live]
  | cons c cs ih =>
    obtain ⟨new, nodup⟩ := List.nodup_cons.mp nodup
    have ne : c ≠ reaperTask := fun eq => other (eq ▸ List.mem_cons_self)
    have rest : reaperTask ∉ cs := fun mem => other (List.mem_cons_of_mem c mem)
    have same (v : Pid) (mem : v ∈ cs) : (k.orphan c).task v = k.task v := by
      have child : v ≠ c := fun eq => new (eq ▸ mem)
      have reaper : v ≠ reaperTask := fun eq => rest (eq ▸ mem)
      simp [orphan_task ne, child, reaper]
    have live : (k.orphan c).live cs = k.live cs :=
      List.filter_congr fun v mem => by rw [same v mem]
    rw [List.foldl_cons, ih nodup rest, live]
    by_cases mem : u ∈ cs
    · simp [mem, same u mem]
    · by_cases child : u = c
      · subst child
        simp [mem, ne, orphan_task ne]
      · by_cases reaper : u = reaperTask
        · subst reaper
          by_cases dead : (k.task c).state = .dead
          · simp [mem, child, dead, orphan_task ne, Kernel.live]
          · simp [mem, child, dead, orphan_task ne, Kernel.live, Function.comp_def]
        · simp [mem, child, reaper, orphan_task ne]

lemma bury_task (nodup : cs.Nodup) (other : reaperTask ∉ cs) (self : t ∉ cs)
    (ne : t ≠ reaperTask) (u : Pid) : (k.bury t cs).task u =
      if u = t then { k.task u with state := .dead, children := none }
      else if u ∈ cs then orphaned (k.task u)
      else if u = reaperTask then
        { k.task u with children := (k.task u).children.map (· ++ k.live cs) }
      else k.task u := by
  have same (v : Pid) (hv : v ≠ t) : (k.setState t .dead).task v = k.task v := by
    simp [setState, hv]
  have live : (k.setState t .dead).live cs = k.live cs :=
    List.filter_congr fun v mem => by rw [same v fun eq => self (eq ▸ mem)]
  unfold Kernel.bury
  by_cases own : u = t
  · subst own
    rw [upd_task_self, orphans_task nodup other, if_neg self, if_neg ne, if_pos rfl]
    simp [setState]
  · rw [upd_task_of_ne _ _ _ _ own, orphans_task nodup other, live, same u own, if_neg own]

/-- The report of a death is written. -/
def Kernel.report (p t : Pid) (k : Kernel) : Kernel :=
  { k with deaths := k.deaths ++ [⟨p, t, (k.task t).exitCode⟩] }

/-- The ways in which `destroy_task` ends. -/
inductive Notified (k : Kernel) (t : Pid) : Kernel → Prop where
  | root : (k.task t).parent = none →
      Notified k t ((k.release t).jump (.sleepRead 2 .reaperScan))
  | stop {p : Pid} : (k.task t).parent = some p → (k.task p).state = .dead →
      Notified k t (k.stop .assertion)
  | wake {p : Pid} : (k.task t).parent = some p → (k.task p).state = .waiting →
      Notified k t (((k.report p t).setNextTask p).jump .reaperYield)
  | leave {p : Pid} : (k.task t).parent = some p → (k.task p).state ≠ .dead →
      (k.task p).state ≠ .waiting → Notified k t ((k.report p t).jump .reaperYield)

lemma notify_notified (eq : k.notify t = k') : Notified k t k' := by
  subst eq
  unfold Kernel.notify
  split
  · case h_1 root => exact .root root
  · case h_2 p parent =>
    split
    · case isTrue dead => exact .stop parent dead
    · case isFalse alive =>
      dsimp only
      split
      · case isTrue waiting => exact .wake parent waiting
      · case isFalse awake => exact .leave parent alive awake

lemma notify_records (k : Kernel) (t u : Pid) :
    (((k.notify t).task u).state = .dead → (k.task u).state = .dead) ∧
      (((k.notify t).task u).children = (k.task u).children ∨
        ((k.notify t).task u).children = none) := by
  generalize eq : k.notify t = k' at *
  cases notify_notified eq with
  | root =>
    rw [jump_task, release_task]
    split_ifs
    · exact ⟨nofun, .inr rfl⟩
    · exact ⟨id, .inl rfl⟩
  | stop | leave => exact ⟨id, .inl rfl⟩
  | @wake p =>
    have children := upd_part (k := k) (t := p)
      (f := fun T => { T with state := .running, wakeupTime := 0 }) Task.children rfl u
    refine ⟨fun dead => ?_, .inl children⟩
    by_cases hu : u = p
    · subst hu
      simp [setNextTask] at dead
    · simpa [setNextTask, report, hu] using dead

/-! ## The forest -/

/-- The family, while the machine runs. -/
structure Tree (k : Kernel) : Prop where
  forest : Forest (fun t => (k.task t).parent) k.childrenOf
  current : (k.task k.current).allocated = true ∧ (k.task k.current).children ≠ none
  services : ∀ t < numServices, (k.task t).parent = none
  reaper : (k.task reaperTask).children ≠ none
  fresh : ∀ t, k.nextPid ≤ t → (k.task t).parent = none ∧ (k.task t).children = none
  dead : ∀ t, (k.task t).state = .dead → (k.task t).children = none

namespace Tree

lemma childrenOf_none (h : (k.task p).children = none) : k.childrenOf p = [] := by
  simp [childrenOf, h]

lemma children_of_mem (mem : c ∈ k.childrenOf p) : (k.task p).children ≠ none := by
  intro none
  rw [childrenOf_none none] at mem
  cases mem

variable (tree : Tree k)

include tree

lemma reaper_root : (k.task reaperTask).parent = none := tree.services _ (by decide)

lemma same (parent : ∀ u, (k'.task u).parent = (k.task u).parent)
    (children : ∀ u, (k'.task u).children = (k.task u).children)
    (dead : ∀ u, (k'.task u).state = .dead → (k.task u).state = .dead)
    (next : k.nextPid ≤ k'.nextPid)
    (current : (k'.task k'.current).allocated = true ∧ (k'.task k'.current).children ≠ none) :
    Tree k' where
  forest := tree.forest.congr parent fun t => by rw [childrenOf, children, childrenOf]
  current := current
  services t lt := by
    rw [parent]
    exact tree.services t lt
  reaper := by
    rw [children]
    exact tree.reaper
  fresh t new := by
    rw [parent, children]
    exact tree.fresh t (next.trans new)
  dead t now := by
    rw [children]
    exact tree.dead t (dead t now)

lemma congr (task : k'.task = k.task) (current : k'.current = k.current)
    (next : k'.nextPid = k.nextPid) : Tree k' := by
  refine tree.same (fun u => by rw [task]) (fun u => by rw [task]) (fun u => by rw [task]; exact id)
    next.ge ?_
  rw [task, current]
  exact tree.current

lemma lt_of_children (some : (k.task t).children ≠ none) : t < k.nextPid := by
  by_contra new
  exact some (tree.fresh t (not_lt.mp new)).2

lemma replace {new : Task} (root : (k.task t).parent = none) (none : (k.task t).children = none)
    (task : ∀ u, k'.task u = if u = t then new else k.task u) (parent : new.parent = Option.none)
    (children : new.children.getD [] = []) (current : k'.current = k.current)
    (fresh : ∀ u, k'.nextPid ≤ u → (k'.task u).parent = Option.none ∧
      (k'.task u).children = Option.none)
    (dead : new.state = .dead → new.children = Option.none) : Tree k' := by
  have old (u : Pid) (some : (k.task u).children ≠ Option.none) : k'.task u = k.task u := by
    rw [task, if_neg fun eq : u = t => some (eq ▸ none)]
  have same (u : Pid) : (k'.task u).parent = (k.task u).parent := by
    rw [task]
    split_ifs with h
    · rw [h, root, parent]
    · rfl
  refine ⟨tree.forest.congr same (fun u => ?_), ?_, fun u low => ?_, ?_, fresh, fun u dead' => ?_⟩
  · rw [childrenOf, task]
    split_ifs with h
    · rw [h, childrenOf_none none, children]
    · rfl
  · rw [current, old _ tree.current.2]
    exact tree.current
  · rw [same]
    exact tree.services u low
  · rw [old _ tree.reaper]
    exact tree.reaper
  · rw [task] at dead' ⊢
    split_ifs at dead' ⊢ with h
    · exact dead dead'
    · exact tree.dead u dead'

lemma create (user : Bool) : Tree (k.createTask user) := by
  have task := createTask_task k user
  obtain ⟨queue, panic, eq⟩ := enqueue_eq
    { k.upd k.nextPid fun _ => newTask .running user none with nextPid := k.nextPid + 1 } k.nextPid
  have current : (k.createTask user).current = k.current := by
    rw [createTask, eq]
    rfl
  have nextPid : (k.createTask user).nextPid = k.nextPid + 1 := by rw [createTask, eq]
  obtain ⟨root, none⟩ := tree.fresh k.nextPid le_rfl
  refine tree.replace root none task rfl rfl current (fun u new => ?_) (by rintro ⟨⟩)
  rw [nextPid] at new
  rw [task, if_neg (Nat.lt_of_succ_le new).ne']
  exact tree.fresh u (Nat.le_of_succ_le new)

lemma fork (low : numServices ≤ k.nextPid) : Tree k.forkLink := by
  have old := tree.lt_of_children tree.current.2
  have task := forkLink_task old.ne
  obtain ⟨root, none⟩ := tree.fresh k.nextPid le_rfl
  have some : (k.task k.current).children.map (· ++ [k.nextPid]) ≠ Option.none := by
    simpa using tree.current.2
  refine ⟨tree.forest.add root old.ne' (fun u => ?_) (fun u => ?_), ?_, fun u lt => ?_, ?_,
    fun u new => ?_, fun u dead => ?_⟩
  · rw [task]
    split_ifs <;> rfl
  · rw [childrenOf, task]
    split_ifs with h h' h'
    · exact absurd (h'.symm.trans h) old.ne
    · rw [h, childrenOf_none none]
      rfl
    · subst h'
      obtain ⟨cs, eq⟩ := Option.ne_none_iff_exists'.mp tree.current.2
      simp [childrenOf, eq]
    · rfl
  · rw [show k.forkLink.current = k.current from rfl, task, if_neg old.ne, if_pos rfl]
    exact ⟨tree.current.1, some⟩
  · rw [task, if_neg (lt.trans_le low).ne]
    split_ifs <;> exact tree.services u lt
  · rw [task, if_neg (tree.lt_of_children tree.reaper).ne]
    split_ifs with h
    · rw [h]
      exact some
    · exact tree.reaper
  · have new : k.nextPid < u := new
    rw [task, if_neg new.ne', if_neg (old.trans new).ne']
    exact tree.fresh u new.le
  · rw [task] at dead ⊢
    split_ifs at dead ⊢ with h h'
    · cases dead
    · exact absurd (h' ▸ tree.dead u dead) tree.current.2
    · exact tree.dead u dead

lemma doWaitOne (mem : c ∈ k.childrenOf p) (dead : (k.task c).state = .dead) :
    Tree (k.doWaitOne p c) := by
  have task := doWaitOne_task mem
  have none : (k.task c).children = none := tree.dead c dead
  obtain ⟨_, _, _, eq⟩ := doWaitOne_eq k p c
  have alive (u : Pid) (some : (k.task u).children ≠ Option.none) :
      ((k.doWaitOne p c).task u).allocated = (k.task u).allocated ∧
        ((k.doWaitOne p c).task u).children ≠ Option.none := by
    rw [task, if_neg fun eq : u = c => some (eq ▸ none)]
    split_ifs
    · exact ⟨rfl, nofun⟩
    · exact ⟨rfl, some⟩
  refine ⟨tree.forest.remove mem (fun u => ?_) (fun u => ?_), ?_, fun u low => ?_,
    (alive _ tree.reaper).2, fun u new => ?_, fun u dead => ?_⟩
  · rw [task]
    split_ifs <;> rfl
  · rw [childrenOf, task]
    split_ifs with h h'
    · rw [← h', h] at mem
      exact absurd mem (by rw [childrenOf_none none]; exact List.not_mem_nil)
    · rw [h, childrenOf_none none]
      rfl
    · rfl
    · rfl
  · rw [show (k.doWaitOne p c).current = k.current by rw [eq], (alive _ tree.current.2).1]
    exact ⟨tree.current.1, (alive _ tree.current.2).2⟩
  · rw [task]
    split_ifs
    · rfl
    · exact tree.services u low
    · exact tree.services u low
  · rw [show (k.doWaitOne p c).nextPid = k.nextPid by rw [eq]] at new
    rw [task]
    split_ifs with h h'
    · exact ⟨rfl, rfl⟩
    · exact absurd (h' ▸ (tree.fresh u new).2) (children_of_mem mem)
    · exact tree.fresh u new
  · rw [task] at dead ⊢
    split_ifs at dead ⊢ with h h'
    · rfl
    · exact absurd (h' ▸ tree.dead u dead) (children_of_mem mem)
    · exact tree.dead u dead

lemma release (root : (k.task t).parent = none) (none : (k.task t).children = none) :
    Tree (k.release t) := by
  have task := release_task k t
  refine tree.replace root none task rfl rfl rfl (fun u new => ?_) fun _ => rfl
  rw [task]
  split_ifs with h
  · exact ⟨rfl, rfl⟩
  · exact tree.fresh u new

lemma children_facts (some : (k.task t).children = some cs) :
    cs.Nodup ∧ reaperTask ∉ cs ∧ t ∉ cs ∧ ∀ c, c ∈ cs ↔ (k.task c).parent = .some t := by
  have eq : k.childrenOf t = cs := by simp [childrenOf, some]
  have mem := tree.forest.mem_iff t
  rw [eq] at mem
  refine ⟨eq ▸ tree.forest.nodup t, fun h => ?_, fun h => ?_, mem⟩
  · have := (mem _).mp h
    rw [tree.reaper_root] at this
    cases this
  · exact tree.forest.irrefl t ((mem t).mp h)

lemma bury_cases (some : (k.task t).children = some cs) (ne : t ≠ reaperTask)
    (u : Pid) :
    (u = t ∧ (k.bury t cs).task u = { k.task u with state := .dead, children := none }) ∨
    (u ≠ t ∧ (k.task u).parent = .some t ∧ (k.bury t cs).task u = orphaned (k.task u)) ∨
    (u = reaperTask ∧ (k.bury t cs).task u =
      { k.task u with children := (k.task u).children.map (· ++ k.live cs) }) ∨
    (u ≠ t ∧ u ≠ reaperTask ∧ (k.task u).parent ≠ .some t ∧ (k.bury t cs).task u = k.task u) := by
  obtain ⟨nodup, noReaper, self, mem⟩ := tree.children_facts some
  rw [bury_task nodup noReaper self ne]
  by_cases own : u = t
  · exact .inl ⟨own, by rw [if_pos own]⟩
  · rw [if_neg own]
    by_cases child : u ∈ cs
    · exact .inr (.inl ⟨own, (mem u).mp child, by rw [if_pos child]⟩)
    · rw [if_neg child]
      by_cases reaper : u = reaperTask
      · exact .inr (.inr (.inl ⟨reaper, by rw [if_pos reaper]⟩))
      · exact .inr (.inr (.inr ⟨own, reaper, (mem u).not.mp child, by rw [if_neg reaper]⟩))

lemma bury_forest (some : (k.task t).children = some cs) (ne : t ≠ reaperTask) :
    Forest (fun u => ((k.bury t cs).task u).parent) (k.bury t cs).childrenOf := by
  have root := tree.reaper_root
  refine tree.forest.adopt (fun c => (k.task c).state ≠ .dead) root (Ne.symm ne)
    (fun u => ?_) (fun u => ?_)
  · rcases tree.bury_cases some ne u with ⟨rfl, eq⟩ | ⟨-, child, eq⟩ | ⟨rfl, eq⟩ | ⟨-, -, no, eq⟩
    · simp [eq, tree.forest.irrefl u]
    · by_cases dead : (k.task u).state = .dead <;> simp [eq, child, dead, orphaned, Task.free]
    · simp [eq, root]
    · simp [eq, no]
  · rw [childrenOf]
    rcases tree.bury_cases some ne u with ⟨rfl, eq⟩ | ⟨own, child, eq⟩ | ⟨rfl, eq⟩ |
      ⟨own, reaper, -, eq⟩
    · simp [eq]
    · have reaper : u ≠ reaperTask := fun h => by
        rw [h, root] at child
        cases child
      by_cases dead : (k.task u).state = .dead
      · simp [eq, own, reaper, orphaned, dead, childrenOf, tree.dead u dead, Task.free]
      · simp [eq, own, reaper, orphaned, dead, childrenOf]
    · obtain ⟨rs, rs_eq⟩ := Option.ne_none_iff_exists'.mp tree.reaper
      simp [eq, Ne.symm ne, rs_eq, childrenOf, some, live]
    · simp [eq, own, reaper, childrenOf]

lemma bury_self (some : (k.task t).children = some cs) (ne : t ≠ reaperTask) :
    (k.bury t cs).task t = { k.task t with state := .dead, children := none } := by
  rcases tree.bury_cases some ne t with ⟨-, eq⟩ | ⟨other, -⟩ | ⟨eq, -⟩ | ⟨other, -⟩
  · exact eq
  · exact absurd rfl other
  · exact absurd eq ne
  · exact absurd rfl other

lemma bury_alive (some : (k.task t).children = some cs) (ne : t ≠ reaperTask)
    {u : Pid} (hu : u ≠ t) (alive : (k.task u).children ≠ none) :
    ((k.bury t cs).task u).allocated = (k.task u).allocated ∧
      ((k.bury t cs).task u).children ≠ none := by
  rcases tree.bury_cases some ne u with ⟨rfl, eq⟩ | ⟨-, -, eq⟩ | ⟨-, eq⟩ | ⟨-, -, -, eq⟩
  · exact absurd rfl hu
  · have live : (k.task u).state ≠ .dead := fun dead => alive (tree.dead u dead)
    simpa [eq, orphaned, live] using alive
  · simpa [eq] using alive
  · rw [eq]
    exact ⟨rfl, alive⟩

lemma bury (some : (k.task t).children = some cs) (other : t ≠ k.current)
    (ne : t ≠ reaperTask) : Tree (k.bury t cs) := by
  obtain ⟨_, _, state⟩ := bury_eq t cs k
  refine ⟨tree.bury_forest some ne, ?_, fun u low => ?_,
    (tree.bury_alive some ne (Ne.symm ne) tree.reaper).2, fun u new => ?_, fun u dead => ?_⟩
  · obtain ⟨allocated, alive⟩ := tree.bury_alive some ne (Ne.symm other) tree.current.2
    rw [show (k.bury t cs).current = k.current by rw [state], allocated]
    exact ⟨tree.current.1, alive⟩
  · have root := tree.services u low
    rcases tree.bury_cases some ne u with ⟨-, eq⟩ | ⟨-, child, -⟩ | ⟨-, eq⟩ | ⟨-, -, -, eq⟩
    · rw [eq]
      exact root
    · rw [root] at child
      cases child
    · rw [eq]
      exact root
    · rw [eq]
      exact root
  · rw [show (k.bury t cs).nextPid = k.nextPid by rw [state]] at new
    obtain ⟨root, none⟩ := tree.fresh u new
    rcases tree.bury_cases some ne u with ⟨rfl, eq⟩ | ⟨-, child, -⟩ | ⟨-, eq⟩ | ⟨-, -, -, eq⟩
    · rw [some] at none
      cases none
    · rw [root] at child
      cases child
    · simp [eq, root, none]
    · rw [eq]
      exact ⟨root, none⟩
  · rcases tree.bury_cases some ne u with ⟨rfl, eq⟩ | ⟨-, -, eq⟩ | ⟨-, eq⟩ | ⟨-, -, -, eq⟩
    · rw [eq]
    · unfold orphaned at eq
      split_ifs at eq with h
      · rw [eq]
        rfl
      · rw [eq] at dead
        exact absurd dead h
    · rw [eq] at dead ⊢
      simp [tree.dead u dead]
    · rw [eq] at dead ⊢
      exact tree.dead u dead

lemma notify (torn : (k.task t).children = none) : Tree (k.notify t) := by
  have dead (u : Pid) := (notify_records k t u).1
  generalize eq : k.notify t = k' at *
  cases notify_notified eq with
  | root root => exact (tree.release root torn).congr rfl rfl rfl
  | stop | leave => exact tree.congr rfl rfl rfl
  | @wake p =>
    have allocated (u : Pid) := upd_part (k := k) (t := p)
      (f := fun T => { T with state := .running, wakeupTime := 0 }) Task.allocated rfl u
    have parent (u : Pid) := upd_part (k := k) (t := p)
      (f := fun T => { T with state := .running, wakeupTime := 0 }) Task.parent rfl u
    have children (u : Pid) := upd_part (k := k) (t := p)
      (f := fun T => { T with state := .running, wakeupTime := 0 }) Task.children rfl u
    refine tree.same parent children dead le_rfl ⟨?_, ?_⟩
    · exact (allocated k.current).trans tree.current.1
    · exact fun none => tree.current.2 ((children k.current).symm.trans none)

end Tree

/-- The rounds of the reaper. -/
inductive Round (k : Kernel) : Kernel → Prop where
  | idle : k.reaperHit = none → Round k (k.jump (.sleepRead 2 .reaperScan))
  | stop {p : Panic} : Round k (k.stop p)
  | wait {t : Pid} : k.reaperHit = some t → (k.task t).state = .dead →
      Round k ((k.doWaitOne k.current t).jump (.sleepRead 2 .reaperScan))
  | destroy {t : Pid} {cs : List Pid} : k.reaperHit = some t → (k.task t).state = .exiting →
      t ≠ k.current → (k.task t).children = some cs → Round k ((k.bury t cs).notify t)

lemma reap_round (eq : k' = k.reap) : Round k k' := by
  subst eq
  unfold Kernel.reap
  split
  · case h_1 none => exact .idle none
  · case h_2 t hit =>
    split
    · case isTrue exiting =>
      unfold Kernel.destroyTask
      split
      · exact .stop
      · case isFalse other =>
        split
        · exact .stop
        · case h_2 cs some => exact .destroy hit exiting (fun eq => other (.inr eq)) some
    · case isFalse notExiting =>
      have dead : (k.task t).state = .dead := by simpa [notExiting] using List.find?_some hit
      exact .wait hit dead

lemma Places.reaper (places : Places k) (cpu : k.cpu = .reaperScan) : k.current = reaperTask := by
  have := places.owned k.current
  rwa [ctx_current, cpu] at this

lemma Wakes.dead {st st' : TaskState} (h : Wakes st st') (dead : st' = .dead) : st = .dead := by
  cases h with
  | same => exact dead
  | sleeping | running => cases dead

lemma Calm.dead (h : Calm k a k' t) (dead : (k'.task t).state = .dead) :
    (k.task t).state = .dead := by
  have next := h.state
  generalize (k'.task t).state = st at next dead
  cases next with
  | wakes wakes => exact wakes.dead dead
  | _ => cases dead

/-- The family after a step. The reaper may only collect its own dead children; otherwise the
machine has stopped. -/
lemma Tree.step (tree : Tree k) (places : Places k) (move : Move k a k')
    (collects : k'.panic = none ∨ ∀ t, a = .run → k.cpu = .reaperScan → k.reaperHit = some t →
      (k.task t).state = .dead → t ∈ k.childrenOf k.current) : Tree k' := by
  cases move.kin with
  | calm calm =>
    refine tree.same (fun u => (calm u).parent) (fun u => (calm u).children)
      (fun u => (calm u).dead) move.nextPid_le ?_
    by_cases same : k'.current = k.current
    · rw [same, (calm _).children, (calm _).allocated]
      exact tree.current
    · obtain ⟨-, allocated, alive, -⟩ := move.chosen same
      exact ⟨allocated, alive⟩
  | create _ eq => exact eq ▸ tree.create _
  | fork _ _ eq => exact eq ▸ tree.fork places.low
  | @collect pid c _ found eq =>
    obtain ⟨mem, dead⟩ := deadChild_spec found
    subst eq
    have before : Tree { k with delivered := k.delivered ++ [⟨k.current, c,
      (k.task c).exitCode⟩] } :=
      tree.congr rfl rfl rfl
    exact (before.doWaitOne mem dead).congr rfl rfl rfl
  | reap run cpu eq =>
    cases reap_round eq with
    | idle | stop => exact tree.congr rfl rfl rfl
    | @wait t hit dead =>
      have mem : t ∈ k.childrenOf k.current := by
        rcases collects with running | collects
        · exact doWaitOne_panic running
        · exact collects t run cpu hit dead
      exact (tree.doWaitOne mem dead).congr rfl rfl rfl
    | destroy hit exiting other some =>
      have ne : _ ≠ reaperTask := places.reaper cpu ▸ other
      exact (tree.bury some other ne).notify (by rw [tree.bury_self some ne])

lemma boot_alive (t : Pid) : (boot.task t).state ≠ .dead := by
  simp only [boot]
  split_ifs <;> rintro ⟨⟩

lemma tree_boot : Tree boot := by
  have parent (t : Pid) : (boot.task t).parent = none := by
    simp only [boot]
    split_ifs <;> rfl
  have children (t : Pid) : boot.childrenOf t = [] := by
    simp only [childrenOf, boot]
    split_ifs <;> rfl
  refine ⟨⟨fun p c => ?_, fun p => ?_, fun t => ?_⟩, by decide, fun t _ => parent t, by decide,
    fun t new => ?_, ?_⟩
  · simp [parent, children]
  · simp [children]
  · simp [parent]
  · rw [boot_fresh t new]
    exact ⟨rfl, rfl⟩
  · exact fun t dead => absurd dead (boot_alive t)

/-- What is true of the family at every instant. -/
structure Family (k : Kernel) : Prop where
  listed : ∀ p c, (k.task c).parent = some p → c ∈ k.childrenOf p
  unique : ∀ p q c, c ∈ k.childrenOf p → c ∈ k.childrenOf q → p = q
  nodup : ∀ p, (k.childrenOf p).Nodup
  irrefl : ∀ t, (k.task t).parent ≠ some t
  current : (k.task k.current).allocated = true
  services : ∀ t < numServices, (k.task t).parent = none
  fresh : ∀ t, k.nextPid ≤ t → (k.task t).parent = none ∧ (k.task t).children = none
  dead : ∀ t, (k.task t).state = .dead → (k.task t).children = none

/-- The records while `fork` has not yet set the parent pointers of these children, which are on the
lists already. -/
def Kernel.unlinked (k : Kernel) (unset : Pid → Bool) : Kernel :=
  { k with task := fun t =>
      { k.task t with parent := if unset t then none else (k.task t).parent } }

lemma Family.unlinked (family : Family k) (unset : Pid → Bool) : Family (k.unlinked unset) := by
  have parent (t p : Pid) (eq : ((k.unlinked unset).task t).parent = some p) :
      (k.task t).parent = some p :=
    (Option.ite_none_left_eq_some.mp eq).2
  have root (t : Pid) (none_left : (k.task t).parent = none) :
      ((k.unlinked unset).task t).parent = none := by
    simp [Kernel.unlinked, none_left]
  exact ⟨fun p c eq => family.listed p c (parent c p eq), family.unique, family.nodup,
    fun t eq => family.irrefl t (parent t t eq), family.current,
    fun t low => root t (family.services t low),
    fun t new => ⟨root t (family.fresh t new).1, (family.fresh t new).2⟩, family.dead⟩

/-- In every run, as long as the kernel has not panicked, every task but the roots is on the list of
its parent and on no other one, and a dead task has no children. This is so also between the two
stores with which a `fork` links its child. -/
theorem family_intact {acts : List Action} (run : TaskRun boot acts k) (running : k.panic = none) :
    Family k ∧ ∀ unset : Pid → Bool, (∀ c, unset c = true → ∃ p, k.ctx p = .forkEnqueue c) →
      Family (k.unlinked unset) := by
  have tree : Tree k := by
    refine (run.invariant (P := fun k => Places k ∧ (k.panic = none → Tree k))
      ⟨.boot, fun _ => tree_boot⟩ ?_).2 running
    rintro k a k' ⟨places, tree⟩ moved
    obtain ⟨running, move⟩ := step_moves moved
    exact ⟨places.step move, fun still => (tree running).step places move (.inl still)⟩
  have mem_iff := tree.forest.mem_iff
  have family : Family k := ⟨fun p c => (mem_iff p c).mpr,
    fun p q c hp hq => Option.some.inj (((mem_iff p c).mp hp).symm.trans ((mem_iff q c).mp hq)),
    tree.forest.nodup, tree.forest.irrefl, tree.current.1, tree.services, tree.fresh, tree.dead⟩
  exact ⟨family, fun unset _ => family.unlinked unset⟩

theorem family_intact_fork : ∃ k, TaskRun boot [.call (.create true), .tick, .call .fork] k ∧
    k.childrenOf 5 = [6] ∧ (k.task 6).parent = some 5 ∧ Family k ∧ Family (k.unlinked (· = 6)) := by
  obtain ⟨k, run, ⟨child, parent, cpu⟩, running⟩ : ∃ k,
      TaskRun boot [.call (.create true), .tick, .call .fork] k ∧ (k.childrenOf 5 = [6] ∧
        (k.task 6).parent = some 5 ∧ k.cpu = .forkEnqueue 6) ∧ k.panic = none :=
    Lib.Run.exists_of_exec (by decide +kernel)
  obtain ⟨family, linking⟩ := family_intact run running
  refine ⟨k, run, child, parent, family, linking _ fun c unset => ⟨k.current, ?_⟩⟩
  rw [ctx_current, cpu, of_decide_eq_true unset]

end ExscapeOS.Tasks
