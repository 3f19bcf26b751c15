import ExscapeOS.Kernel.Files.Basic

/-!
# The counts of open files

The count of an open file is the number of slots that point to it, over all tasks, and an
`open_file` is allocated exactly while that is not 0. Every call keeps this, except that `fork`
copies the slot `MAX_OPEN_FILES` without counting it, and `destroy_task` drops it without closing
it.
-/
namespace ExscapeOS.Files

open Lib Function Tables List Option

variable {s s' s'' : Tables} {t child : Pid} {i : Slot} {f g : Filp}

/-! ## Counted tables -/

/-- The number of pairs of a task and a slot that point to `f`. -/
def Tables.refs (s : Tables) (f : Filp) : Nat := Lib.refs s.tasks s.fdtable f

/-- The `count` of a file with `n` references; without any, it is not allocated. -/
def live (n : Nat) : Option Nat := if n = 0 then none else some n

@[simp] lemma live_zero : live 0 = none := rfl

@[simp] lemma live_succ (n : Nat) : live (n + 1) = some (n + 1) := rfl

lemma live_eq_none {n : Nat} : live n = none ↔ n = 0 := by
  cases n <;> simp

lemma live_of_pos {n : Nat} (h : 0 < n) : live n = some n := if_neg h.ne'

/-- Every file has its count. -/
def Counted (s : Tables) : Prop := ∀ f, s.count f = live (s.refs f)

@[simp, grind =] lemma setSlot_count (v : Option Filp) : (s.setSlot t i v).count f =
    s.count f := rfl

@[simp, grind =] lemma setCount_fdtable (c : Option Nat) (u : Pid) (j : Slot) :
    (s.setCount f c).fdtable u j = s.fdtable u j := rfl

@[simp] lemma setCount_refs (c : Option Nat) : (s.setCount f c).refs g = s.refs g := rfl

@[grind =] lemma setSlot_fdtable (v : Option Filp) (u : Pid) (j : Slot) :
    (s.setSlot t i v).fdtable u j = if u = t ∧ j = i then v else s.fdtable u j := by
  by_cases hu : u = t
  · subst hu
    simp [setSlot, update_apply]
  · simp [setSlot, hu]

@[grind =] lemma setCount_count (c : Option Nat) :
    (s.setCount f c).count g = if g = f then c else s.count g := by
  simp [setCount, update_apply]

lemma tables_ext (tasks : s.tasks = s'.tasks) (fdtable : ∀ u j, s.fdtable u j = s'.fdtable u j)
    (count : ∀ g, s.count g = s'.count g) : s = s' := by
  obtain ⟨_, _, _⟩ := s
  obtain ⟨_, _, _⟩ := s'
  simp_all [funext_iff]

lemma refs_setSlot (mem : t ∈ s.tasks) (v : Option Filp) :
    (s.setSlot t i v).refs f + points (s.fdtable t i) f = s.refs f + points v f := by
  have row := refs_update s.fdtable (f := f) mem (update (s.fdtable t) i v)
  have slot := occurrences_update (f := f) (s.fdtable t) i v
  simp only [Tables.refs, setSlot]
  omega

section

variable (counted : Counted s) (mem : t ∈ s.tasks)
include counted mem

lemma Counted.attach (empty : s.fdtable t i = none) :
    Counted ((s.setSlot t i (some f)).setCount f (some (s.refs f + 1))) := by
  intro g
  have refs := refs_setSlot (f := g) (i := i) mem (some f)
  rw [empty, points_none, Nat.add_zero] at refs
  rw [setCount_count, setCount_refs, refs]
  split_ifs with own
  · subst own
    simp
  · rw [points_of_ne (by simpa using Ne.symm own), Nat.add_zero]
    exact counted g

lemma Counted.detach (slot : s.fdtable t i = some f) :
    Counted ((s.setSlot t i none).setCount f (live (s.refs f - 1))) := by
  intro g
  have refs := refs_setSlot (f := g) (i := i) mem none
  rw [slot, points_none, Nat.add_zero] at refs
  rw [setCount_count, setCount_refs]
  split_ifs with own
  · subst own
    simp [← refs]
  · rw [points_of_ne (by simpa using Ne.symm own), Nat.add_zero] at refs
    rw [refs]
    exact counted g

lemma Counted.count_of_slot (slot : s.fdtable t i = some f) :
    0 < s.refs f ∧ s.count f = some (s.refs f) := by
  have row : occurrences (s.fdtable t) f ≤ s.refs f := occurrences_le_refs mem
  have one := points_le_occurrences (f := f) (s.fdtable t) i
  rw [slot, points_self] at one
  have pos := one.trans row
  exact ⟨pos, (counted f).trans (live_of_pos pos)⟩

end

lemma Counted.refs_of_free (counted : Counted s) (free : s.count f = none) : s.refs f = 0 :=
  live_eq_none.mp ((counted f).symm.trans free)

/-! ## The calls on one table -/

/-- A call that gives a free slot of `t` a new file, or does nothing. -/
inductive Opens (s : Tables) (t : Pid) : Tables → Prop where
  | nothing : Opens s t s
  | file {i : Slot} {f : Filp} : s.fdtable t i = none → s.count f = none →
      Opens s t ((s.setSlot t i (some f)).setCount f (some 1))

lemma newFilp_spec (h : s.newFilp f t = some (i, s')) :
    s.count f = none ∧ s.fdtable t i = none ∧
      s' = (s.setSlot t i (some f)).setCount f (some 0) := by
  simp only [newFilp, bind, bind_eq_some_iff, kassert_eq_some, exists_const, pure,
    some.injEq, Prod.mk.injEq] at h
  obtain ⟨free, _, found, rfl, rfl⟩ := h
  exact ⟨free, by simpa using find?_some found, rfl⟩

lemma destroyFilp_spec (h : s.destroyFilp i t = some s') :
    ∃ f, s.fdtable t i = some f ∧ s' = (s.setSlot t i none).setCount f none := by
  simp only [destroyFilp, bind, bind_eq_some_iff, kassert_eq_some, exists_const, pure,
    some.injEq] at h
  obtain ⟨-, f, slot, rfl⟩ := h
  exact ⟨f, slot, rfl⟩

/-- Opening a file inside the `open` of another, and dropping the outer one. -/
lemma Opens.drop (outer : s.fdtable t i = none) (free : s.count f = none)
    (inner : Opens ((s.setSlot t i (some f)).setCount f (some 0)) t s')
    (h : s'.destroyFilp i t = some s'') : Opens s t s'' := by
  obtain ⟨f', slot, rfl⟩ := destroyFilp_spec h
  cases inner with
  | nothing =>
    convert Opens.nothing using 1
    exact tables_ext rfl (by grind) (by grind)
  | @file j g empty fresh =>
    -- the inner file has another slot and another address
    have ne : j ≠ i := by
      rintro rfl
      simp [setSlot_fdtable] at empty
    have ne' : g ≠ f := by
      rintro rfl
      simp [setCount_count] at fresh
    have empty' : s.fdtable t j = none := by simpa [setSlot_fdtable, ne] using empty
    have fresh' : s.count g = none := by simpa [setCount_count, ne'] using fresh
    convert Opens.file empty' fresh' using 1
    exact tables_ext rfl (by grind) (by grind)

lemma fsOpen_opens (lookup : Lookup) (h : s.fsOpen t lookup = some s') : Opens s t s' := by
  induction lookup generalizing s s' with
  | found f =>
    simp only [fsOpen, bind, bind_eq_some_iff] at h
    obtain ⟨⟨i, s₁⟩, new, added⟩ := h
    obtain ⟨free, empty, rfl⟩ := newFilp_spec new
    simp only [addRef, setCount_count, if_true, map_some, some.injEq] at added
    subst added
    convert Opens.file empty free using 1
    exact tables_ext rfl (fun _ _ => rfl) (by grind)
  | missing f =>
    simp only [fsOpen, bind, bind_eq_some_iff] at h
    obtain ⟨⟨i, s₁⟩, new, dropped⟩ := h
    obtain ⟨free, empty, rfl⟩ := newFilp_spec new
    exact .drop empty free .nothing dropped
  | link f target ih =>
    simp only [fsOpen, bind, bind_eq_some_iff] at h
    obtain ⟨⟨i, s₁⟩, new, s₂, opened, dropped⟩ := h
    obtain ⟨free, empty, rfl⟩ := newFilp_spec new
    exact .drop empty free (ih opened) dropped

lemma Counted.opens (counted : Counted s) (mem : t ∈ s.tasks) (opens : Opens s t s') :
    Counted s' ∧ s'.tasks = s.tasks := by
  cases opens with
  | nothing => exact ⟨counted, rfl⟩
  | @file i f empty free =>
    have attached := counted.attach (f := f) mem empty
    rw [counted.refs_of_free free] at attached
    exact ⟨attached, rfl⟩

lemma pipe_spec {rd wr : Filp} (h : s.pipe rd wr t = some s') : rd ≠ wr ∧ ∃ i j s₁,
    s.fdtable t i = none ∧ s.count rd = none ∧ s₁ = (s.setSlot t i (some rd)).setCount rd (some 1) ∧
    s₁.fdtable t j = none ∧ s₁.count wr = none ∧
    s' = (s₁.setSlot t j (some wr)).setCount wr (some 1) := by
  simp only [Tables.pipe, bind, bind_eq_some_iff] at h
  obtain ⟨⟨i, s₁⟩, first, ⟨j, s₂⟩, second, s₃, read, write⟩ := h
  obtain ⟨free, empty, rfl⟩ := newFilp_spec first
  obtain ⟨free', empty', rfl⟩ := newFilp_spec second
  have ne : wr ≠ rd := by
    rintro rfl
    simp [setCount_count] at free'
  refine ⟨ne.symm, i, j, _, empty, free, rfl, empty', ?_, ?_⟩
  · simpa [setCount_count, ne] using free'
  · simp only [addRef, setCount_count, if_neg ne.symm, if_true, map_some, some.injEq,
      setSlot_count] at read
    subst read
    simp only [addRef, setCount_count, if_neg ne, if_true, map_some, some.injEq,
      setSlot_count] at write
    subst write
    exact tables_ext rfl (fun _ _ => rfl) (by grind)

section

variable (counted : Counted s) (mem : t ∈ s.tasks)
include counted mem

lemma Counted.pipe {rd wr : Filp} (h : s.pipe rd wr t = some s') : Counted s' := by
  obtain ⟨-, i, j, s₁, empty, free, rfl, empty', free', rfl⟩ := pipe_spec h
  obtain ⟨counted₁, tasks⟩ := counted.opens mem (.file empty free)
  exact (counted₁.opens (tasks ▸ mem) (.file empty' free')).1

lemma Counted.doClose (slot : s.fdtable t i = some f) :
    s.doClose i t = some (0, (s.setSlot t i none).setCount f (live (s.refs f - 1))) := by
  obtain ⟨pos, count⟩ := counted.count_of_slot mem slot
  simp only [Tables.doClose, slot, count, bind, bind_some, if_neg (Nat.not_lt.mpr pos),
    live, pure]
  split_ifs <;> rfl

lemma Counted.close {fd : Int} (h : s.close fd t = some s') : Counted s' := by
  unfold Tables.close at h
  split at h
  · cases h
    exact counted
  · case h_2 i _ =>
    cases slot : s.fdtable t i with
    | none =>
      simp only [Tables.doClose, slot, map_some, some.injEq] at h
      exact h ▸ counted
    | some f =>
      rw [counted.doClose mem slot, map_some, some.injEq] at h
      exact h ▸ counted.detach mem slot

/-- A free slot is set to a file that another slot points to. -/
lemma Counted.share {j : Slot} (slot : s.fdtable t j = some f) (empty : s.fdtable t i = none)
    (h : (s.setSlot t i (some f)).addRef f = some s') : Counted s' := by
  rw [addRef, setSlot_count, (counted.count_of_slot mem slot).2, map_some,
    some.injEq] at h
  exact h ▸ counted.attach mem empty

end

lemma doGetFilp_slot {fd : Int} (h : s.doGetFilp fd t = some f) :
    ∃ j, slotOf fd = some j ∧ s.fdtable t j = some f :=
  bind_eq_some_iff.mp h

lemma Counted.dup {fd : Int} (counted : Counted s) (mem : t ∈ s.tasks)
    (h : s.dup fd t = some s') : Counted s' := by
  unfold Tables.dup at h
  split at h
  · cases h
    exact counted
  · case h_2 f got =>
    obtain ⟨j, -, slot⟩ := doGetFilp_slot got
    split at h
    · cases h
      exact counted
    · case h_2 i found =>
      exact counted.share mem slot (by simpa using find?_some found) h

lemma slotOf_inj {fd fd2 : Int} {j : Slot} (h : slotOf fd = some j) (h2 : slotOf fd2 = some j) :
    fd = fd2 := by
  unfold slotOf at h h2
  split_ifs at h h2
  have first := congrArg Fin.val (some.inj h)
  have second := congrArg Fin.val (some.inj h2)
  dsimp only at first second
  omega

lemma Counted.dup2 {fd fd2 : Int} (counted : Counted s) (mem : t ∈ s.tasks) (ne : fd ≠ fd2)
    (h : s.dup2 fd fd2 t = some s') : Counted s' := by
  unfold Tables.dup2 at h
  split_ifs at h
  · cases h
    exact counted
  split at h
  · case h_1 f i got slot2 =>
    obtain ⟨j, slot1, slot⟩ := doGetFilp_slot got
    have ne' : j ≠ i := by
      rintro rfl
      exact ne (slotOf_inj slot1 slot2)
    split_ifs at h with free
    · simp only [bind, bind_some, bind_eq_some_iff, kassert_eq_some, exists_const] at h
      exact counted.share mem slot h.1 h.2
    · -- the file that was in the slot is closed first
      obtain ⟨g, used⟩ := ne_none_iff_exists'.mp free
      simp only [Tables.close, slot2, counted.doClose mem used, map_some, bind,
        bind_some, bind_eq_some_iff, kassert_eq_some, exists_const] at h
      refine (counted.detach mem used).share (j := j) mem ?_ h.1 h.2
      simp [setSlot_fdtable, ne', slot]
  · cases h
    exact counted

/-! ## Tasks -/

lemma Counted.join (counted : Counted s) (new : t ∉ s.tasks) :
    Counted { s with tasks := insert t s.tasks, fdtable := update s.fdtable t fun _ => none } := by
  intro f
  rw [Tables.refs, refs_insert new, occurrences_empty fun _ => rfl]
  exact counted f

lemma Counted.createTask {user : Option (Filp × Filp × Filp)} (counted : Counted s)
    (h : s.createTask t user = some s') : Counted s' := by
  simp only [Tables.createTask, bind, bind_eq_some_iff, kassert_eq_some, exists_const] at h
  obtain ⟨new, h⟩ := h
  have joined := counted.join new
  split at h
  · cases h
    exact joined
  · case h_2 stdin stdout stderr =>
    simp only [bind_eq_some_iff, kassert_eq_some, exists_const, pure, some.injEq,
      nodup_cons, mem_cons, not_mem_nil, not_or] at h
    obtain ⟨⟨⟨⟨ne₁, ne₂, -⟩, ⟨ne₃, -⟩, -⟩, free⟩, rfl⟩ := h
    -- the three files are opened one after the other
    have mem : t ∈ insert t s.tasks := Finset.mem_insert_self t s.tasks
    have first := joined.opens mem (.file (i := 0) (by simp) (free _ (.inl rfl)))
    have second := first.1.opens (t := t) (first.2 ▸ mem)
      (.file (i := 1) (f := stdout) (by simp [setSlot_fdtable, maxOpenFiles]) (by grind))
    have third := second.1.opens (t := t) (second.2 ▸ first.2 ▸ mem)
      (.file (i := 2) (f := stderr) (by simp [setSlot_fdtable]) (by grind))
    convert third.1 using 1
    refine tables_ext rfl (fun u j => ?_) fun g => ?_
    · simp only [stdio, setCount_fdtable, setSlot_fdtable, update_apply]
      grind
    · simp only [setCount_count, setSlot_count, update_apply]

lemma addRefs_spec {table : Slot → Option Filp} {is : List Slot}
    (h : addRefs table is s = some s') : s'.tasks = s.tasks ∧ s'.fdtable = s.fdtable ∧
      ∀ f, s'.count f = (s.count f).map (· + (is.map fun i => points (table i) f).sum) := by
  induction is generalizing s with
  | nil =>
    cases h
    exact ⟨rfl, rfl, by simp⟩
  | cons i is ih =>
    unfold addRefs at h
    split at h
    · case h_1 empty =>
      obtain ⟨tasks, fdtable, count⟩ := ih h
      exact ⟨tasks, fdtable, by simpa [empty] using count⟩
    · case h_2 g slot =>
      simp only [bind, bind_eq_some_iff, kassert_eq_some, exists_const] at h
      obtain ⟨c, counted, -, rest⟩ := h
      obtain ⟨tasks, fdtable, count⟩ := ih rest
      refine ⟨tasks, fdtable, fun f => ?_⟩
      rw [count f, setCount_count]
      split_ifs with own
      · subst own
        simp [slot, counted, Nat.add_assoc]
      · simp [slot, points_of_ne (show some g ≠ some f by simpa using Ne.symm own)]

/-- The loops of `fork` and `destroy_task` see a table whose last slot is free. -/
lemma lowSlots_sum {table : Slot → Option Filp} (top : table (Fin.last _) = none) :
    (lowSlots.map fun i => points (table i) f).sum = occurrences table f := by
  rw [occurrences, Fin.sum_univ_castSucc, top, points_none, Nat.add_zero,
    Fin.sum_univ_def, lowSlots, List.map_map]
  rfl

section

variable (counted : Counted s) (mem : t ∈ s.tasks)
include counted mem

lemma Counted.fork (top : s.fdtable t (Fin.last _) = none) (h : s.fork t child = some s') :
    Counted s' := by
  simp only [Tables.fork, bind, bind_eq_some_iff, kassert_eq_some, exists_const] at h
  obtain ⟨new, h⟩ := h
  obtain ⟨tasks, fdtable, count⟩ := addRefs_spec h
  intro f
  have row : occurrences (s.fdtable t) f ≤ s.refs f := occurrences_le_refs mem
  have refs : s'.refs f = s.refs f + occurrences (s.fdtable t) f := by
    rw [Tables.refs, tasks, fdtable, refs_insert new]
    rfl
  rw [count f, refs, lowSlots_sum top, counted f]
  by_cases zero : s.refs f = 0
  · have none : occurrences (s.fdtable t) f = 0 := by omega
    simp [zero, none]
  · rw [live_of_pos (by omega), live_of_pos (by omega), map_some]

lemma Counted.closeAll {is : List Slot} (h : closeAll t is s = some s') :
    Counted s' ∧ s'.tasks = s.tasks ∧
      ∀ j, s.fdtable t j = none ∨ j ∈ is → s'.fdtable t j = none := by
  induction is generalizing s with
  | nil =>
    cases h
    exact ⟨counted, rfl, by simp⟩
  | cons i is ih =>
    unfold Tables.closeAll at h
    split_ifs at h with empty
    · obtain ⟨counted', tasks, free⟩ := ih counted mem h
      exact ⟨counted', tasks, fun j hj => free j (by grind)⟩
    · obtain ⟨f, slot⟩ := ne_none_iff_exists'.mp empty
      simp only [counted.doClose mem slot, bind, bind_some, bind_eq_some_iff,
        kassert_eq_some, exists_const] at h
      obtain ⟨-, -, rest⟩ := h
      obtain ⟨counted', tasks, free⟩ := ih (counted.detach mem slot) mem rest
      exact ⟨counted', tasks, fun j hj => free j (by grind)⟩

lemma Counted.destroyTask (top : s.fdtable t (Fin.last _) = none) (h : s.destroyTask t = some s') :
    Counted s' := by
  simp only [Tables.destroyTask, bind, bind_eq_some_iff, pure, some.injEq] at h
  obtain ⟨s₁, closed, rfl⟩ := h
  obtain ⟨counted₁, tasks, free⟩ := counted.closeAll mem closed
  have empty (i : Slot) : s₁.fdtable t i = none := by
    refine free i ?_
    rcases i.eq_castSucc_or_eq_last with ⟨j, rfl⟩ | rfl
    · exact .inr (mem_map_of_mem (mem_finRange j))
    · exact .inl top
  have same : update s₁.fdtable t (fun _ => none) = s₁.fdtable :=
    update_eq_self_iff.mpr (funext fun i => (empty i).symm)
  intro f
  have row := refs_erase s₁.fdtable (f := f) (tasks ▸ mem)
  rw [occurrences_empty empty, Nat.add_zero] at row
  rw [Tables.refs, same, row]
  exact counted₁ f

end

/-! ## Runs -/

/-- `dup2` is called with two different descriptors. -/
def distinct : Action → Prop
  | .dup2 _ fd fd2 => fd ≠ fd2
  | _ => True

/-- A task that forks or is destroyed does not use its last slot. -/
def sparesLast (s : Tables) : Action → Prop
  | .fork t _ | .destroy t => s.fdtable t (Fin.last _) = none
  | _ => True

lemma Counted.step {a : Action} (counted : Counted s) (ok : distinct a) (spares : sparesLast s a)
    (h : step s a = some s') : Counted s' := by
  unfold Files.step at h
  split_ifs at h with acts
  cases a with
  | create t user => exact counted.createTask h
  | openFile t lookup => exact (counted.opens (acts t rfl) (fsOpen_opens lookup h)).1
  | pipe t rd wr => exact counted.pipe (acts t rfl) h
  | dup t fd => exact counted.dup (acts t rfl) h
  | dup2 t fd fd2 => exact counted.dup2 (acts t rfl) ok h
  | close t fd => exact counted.close (acts t rfl) h
  | fork t child => exact counted.fork (acts t rfl) spares h
  | destroy t => exact counted.destroyTask (acts t rfl) spares h

/-- Sequences of calls of any tasks. -/
abbrev FilesRun : Tables → List Action → Tables → Prop :=
  Run (Guarded (fun _ a => distinct a) fun s a s' => step s a = some s')

/-- Calls in which no task forks or is destroyed while its last slot is in use. -/
abbrev SparingRun : Tables → List Action → Tables → Prop :=
  Run (Guarded (fun s a => distinct a ∧ sparesLast s a) fun s a s' => step s a = some s')

/-- In every such run the count of a file is the number of slots that point to it, and a file is
freed exactly when that becomes 0. -/
theorem counts_are_references {acts : List Action} (run : SparingRun boot acts s) (f : Filp) :
    (∀ n, s.count f = some n → n = s.refs f) ∧ (s.count f = none ↔ s.refs f = 0) := by
  have counted : Counted s := by
    refine run.invariant (fun f => ?_) ?_
    · simp [boot, Tables.refs, Lib.refs, holders]
    · rintro s a s' counted ⟨⟨ok, spares⟩, moved⟩
      exact counted.step ok spares moved
  rw [counted f]
  refine ⟨fun n h => ?_, live_eq_none⟩
  unfold live at h
  split_ifs at h
  exact (some.inj h).symm

instance (a : Action) : Decidable (distinct a) :=
  match a with
  | .dup2 _ fd fd2 => inferInstanceAs (Decidable (fd ≠ fd2))
  | .create .. | .openFile .. | .pipe .. | .dup .. | .close .. | .fork .. | .destroy _ =>
      isTrue trivial

instance (s : Tables) (a : Action) : Decidable (sparesLast s a) :=
  match a with
  | .fork t _ | .destroy t => inferInstanceAs (Decidable (s.fdtable t (Fin.last _) = none))
  | .create .. | .openFile .. | .pipe .. | .dup .. | .dup2 .. | .close .. => isTrue trivial

/-- A user task forks, and the child closes its standard output. -/
def forkAndClose : List Action := [.create 0 (some (0, 1, 2)), .fork 0 1, .close 1 1]

theorem counts_are_references_sample : ∃ s, SparingRun boot forkAndClose s ∧ s.refs 0 = 2 ∧
    s.refs 1 = 1 := by
  obtain ⟨s, run, two, one⟩ : ∃ s, SparingRun boot forkAndClose s ∧ s.count 0 = some 2 ∧
    s.count 1 = some 1 :=
    Run.exists_of_exec_guarded (by decide +kernel)
  exact ⟨s, run, ((counts_are_references run 0).1 2 two).symm,
    ((counts_are_references run 1).1 1 one).symm⟩

/-- Task 0 with its first `n` slots in use. -/
def filled (n : Nat) : Tables where
  tasks := {0}
  fdtable t i := if t = 0 ∧ i.val < n then some i.val else none
  count f := if f < n then some 1 else none

lemma create_filled : step boot (.create 0 (some (0, 1, 2))) = some (filled 3) := by
  refine congrArg some (tables_ext rfl (fun u j => ?_) fun g => ?_)
  · by_cases own : u = 0
    · subst own
      revert j
      decide +kernel
    · simp [boot, filled, own]
  · simp only [boot, filled, update_apply]
    grind

lemma open_filled {n : Nat} (room : n ≤ maxOpenFiles) :
    step (filled n) (.openFile 0 (.found n)) = some (filled (n + 1)) := by
  have first : (List.finRange (maxOpenFiles + 1)).find? (fun i => (filled n).fdtable 0 i = none) =
      some ⟨n, Nat.lt_succ_of_le room⟩ := by
    have bound : n < (List.finRange (maxOpenFiles + 1)).length := by
      simpa using Nat.lt_succ_of_le room
    refine find?_eq_some_iff_getElem.mpr ⟨by simp [filled], n, bound, ?_, ?_⟩
    · exact Fin.ext (by simp)
    · intro j below
      simp [filled, below]
  simp only [Files.step, Action.task, filled, fsOpen, newFilp, bind, kassert, pure] at first ⊢
  rw [first]
  simp only [mem_def, some.injEq, forall_eq', Finset.mem_singleton, if_true,
    lt_irrefl, if_false, bind_some, addRef, setCount_count, map_some]
  refine tables_ext rfl (fun u j => ?_) fun g => ?_
  · simp only [setCount_fdtable, setSlot_fdtable, Fin.ext_iff]
    grind
  · simp only [setCount_count, setSlot_count]
    grind

lemma fill {n : Nat} (room : 3 + n ≤ maxOpenFiles + 1) :
    FilesRun (filled 3) ((List.range n).map fun k => .openFile 0 (.found (3 + k)))
      (filled (3 + n)) := by
  induction n with
  | zero => exact .nil _
  | succ n ih =>
    rw [range_succ, map_append]
    exact .snoc (ih (by omega)) ⟨trivial, open_filled (by omega)⟩

/-- A user task opens 126 files besides its three, and forks. -/
def fillAndFork : List Action :=
  .create 0 (some (0, 1, 2)) :: ((List.range 126).map fun k => .openFile 0 (.found (3 + k))) ++
    [.fork 0 1]

/-- Without the condition, the file in the last slot has two references and the count 1. -/
theorem last_slot_not_counted : ∃ s, FilesRun boot fillAndFork s ∧ s.count 128 = some 1 ∧
    s.refs 128 = 2 := by
  obtain ⟨s, moved, counted⟩ : ∃ s ∈ step (filled (3 + 126)) (.fork 0 1),
      s.count 128 = some 1 ∧ s.refs 128 = 2 := by decide +kernel
  have full := fill (n := 126) (by decide)
  have create : distinct (.create 0 (some (0, 1, 2))) := trivial
  have fork : distinct (.fork 0 1) := trivial
  exact ⟨s, .snoc (.cons ⟨create, create_filled⟩ full) ⟨fork, moved⟩, counted⟩

end ExscapeOS.Files
