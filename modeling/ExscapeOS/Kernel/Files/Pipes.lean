import ExscapeOS.Kernel.Files.Counts
import ExscapeOS.Kernel.Pipe.Basic

/-!
# The ends of a pipe

`struct pipe` points to the `open_file` of each of its ends. `pipe_close` clears the pointer when
the count of that file is 1, before `do_close` takes it down, and frees the pipe when both are
clear. So where the counts are the numbers of references, an end is open exactly while a descriptor
refers to it.

A pipe is named by the number of pipes made before it, so that each name is used once.
-/
namespace ExscapeOS.Files

open Lib Function List Option
open Pipes (PipeEnd)

/-- The pointers of `struct pipe`. -/
structure Ends where
  reader : Option Filp
  writer : Option Filp

namespace Ends

def get (ends : Ends) : PipeEnd → Option Filp
  | .reader => ends.reader
  | .writer => ends.writer

def clear (ends : Ends) : PipeEnd → Ends
  | .reader => { ends with reader := none }
  | .writer => { ends with writer := none }

end Ends

/-- The open files, and the pipes behind them. -/
structure PipeTables where
  files : Tables
  /-- The pipe in the field `data` of an end, and which end it is. -/
  data : Filp → Option (Nat × PipeEnd)
  /-- The pipes that are allocated. -/
  pipes : Nat → Option Ends
  /-- The number of pipes made so far. -/
  made : Nat
  /-- The pipes freed so far. -/
  freed : List Nat

namespace PipeTables

/-- The open files change; a file that is freed is cleared. -/
def setFiles (s : PipeTables) (files : Tables) : PipeTables :=
  { s with files := files, data := fun f => if files.count f = none then none else s.data f }

def pipe (rd wr : Filp) (t : Pid) (s : PipeTables) : Option PipeTables := do
  let files ← s.files.pipe rd wr t
  return { s with
    files := files
    data := update (update s.data rd (some (s.made, .reader))) wr (some (s.made, .writer))
    pipes := update s.pipes s.made (some ⟨some rd, some wr⟩)
    made := s.made + 1 }

/-- The pointers of a pipe change; without ends, it is freed with its buffer and mutex. -/
def setEnds (p : Nat) (ends : Ends) (s : PipeTables) : PipeTables :=
  if ends.reader = none ∧ ends.writer = none then
    { s with pipes := update s.pipes p none, freed := p :: s.freed }
  else { s with pipes := update s.pipes p (some ends) }

/-- `pipe_close`, for the end `f` of the pipe `p`. -/
def pipeClose (f : Filp) (p : Nat) (s : PipeTables) : Option PipeTables := do
  let ends ← s.pipes p
  kassert (ends.reader = some f ∨ ends.writer = some f)
  let c ← s.files.count f
  return s.setEnds p (
    if ends.reader = some f then if c = 1 then ends.clear .reader else ends
    else if c = 1 then ends.clear .writer else ends)

/-- `file->fops.close`. -/
def fopsClose (f : Filp) (s : PipeTables) : Option PipeTables :=
  match s.data f with
  | none => some s
  | some (p, _) => s.pipeClose f p

def doClose (i : Slot) (t : Pid) (s : PipeTables) : Option (Int × PipeTables) :=
  match s.files.fdtable t i with
  | none => some (-ebadf, s)
  | some f => do
    let c ← s.files.count f
    if c < 1 then return (-ebadf, s)
    let s ← s.fopsClose f
    let (ret, files) ← s.files.doClose i t
    return (ret, s.setFiles files)

def close (fd : Int) (t : Pid) (s : PipeTables) : Option PipeTables :=
  match Tables.slotOf fd with
  | none => some s
  | some i => (s.doClose i t).map Prod.snd

def dup2 (fd fd2 : Int) (t : Pid) (s : PipeTables) : Option PipeTables :=
  if fd2 < 0 ∨ fd2 ≥ maxOpenFiles then some s
  else
    match s.files.doGetFilp fd t, Tables.slotOf fd2 with
    | some f, some i => do
      let s ← (if s.files.fdtable t i = none then some s else s.close fd2 t)
      kassert (s.files.fdtable t i = none)
      ((s.files.setSlot t i (some f)).addRef f).map s.setFiles
    | _, _ => some s

/-- The loop of `destroy_task` over the table. -/
def closeAll (t : Pid) : List Slot → PipeTables → Option PipeTables
  | [], s => some s
  | i :: is, s =>
    if s.files.fdtable t i = none then closeAll t is s
    else do
      let (ret, s) ← s.doClose i t
      kassert (ret = 0)
      kassert (s.files.fdtable t i = none)
      closeAll t is s

/-- The part of `destroy_task` that closes the files and frees the table. -/
def destroyTask (t : Pid) (s : PipeTables) : Option PipeTables := do
  let s ← closeAll t Tables.lowSlots s
  return s.setFiles { s.files with
    tasks := s.files.tasks.erase t, fdtable := update s.files.fdtable t fun _ => none }

/-- One call; `none` if the kernel stops in it. -/
def step (s : PipeTables) (a : Action) : Option PipeTables :=
  if ∀ t ∈ a.task, t ∈ s.files.tasks then
    match a with
    | .create t user => (s.files.createTask t user).map s.setFiles
    | .openFile t lookup => (s.files.fsOpen t lookup).map s.setFiles
    | .pipe t rd wr => s.pipe rd wr t
    | .dup t fd => (s.files.dup fd t).map s.setFiles
    | .dup2 t fd fd2 => s.dup2 fd fd2 t
    | .close t fd => s.close fd t
    | .fork t child => (s.files.fork t child).map s.setFiles
    | .destroy t => s.destroyTask t
  else none

/-- No task, no open file and no pipe. -/
def boot : PipeTables :=
  { files := Files.boot, data := fun _ => none, pipes := fun _ => none, made := 0, freed := [] }

/-! ## The open files take the same steps -/

variable {s s' : PipeTables} {t : Pid} {i : Slot} {f : Filp} {p : Nat} {e : PipeEnd}

@[simp] lemma setFiles_files (files : Tables) : (s.setFiles files).files = files := rfl

lemma setEnds_files (ends : Ends) : (s.setEnds p ends).files = s.files := by
  unfold setEnds
  split_ifs <;> rfl

lemma pipeClose_files (h : s.pipeClose f p = some s') : s'.files = s.files := by
  simp only [pipeClose, bind, bind_eq_some_iff, kassert_eq_some, exists_const, pure,
    some.injEq] at h
  obtain ⟨ends, -, -, c, -, rfl⟩ := h
  exact setEnds_files _

lemma fopsClose_files (h : s.fopsClose f = some s') : s'.files = s.files := by
  unfold fopsClose at h
  split at h
  · exact some.inj h ▸ rfl
  · exact pipeClose_files h

lemma doClose_files {ret : Int} (h : s.doClose i t = some (ret, s')) :
    s.files.doClose i t = some (ret, s'.files) := by
  unfold doClose at h
  split at h
  · case h_1 empty =>
    simp only [some.injEq, Prod.mk.injEq] at h
    simp [Tables.doClose, empty, h.1, ← h.2]
  · case h_2 f slot =>
    simp only [bind, bind_eq_some_iff] at h
    obtain ⟨c, count, h⟩ := h
    split_ifs at h with small
    · simp only [pure, some.injEq, Prod.mk.injEq] at h
      simp [Tables.doClose, slot, count, Nat.lt_one_iff.mp small, h.1, ← h.2]
    · simp only [pure, bind_eq_some_iff, some.injEq, Prod.mk.injEq] at h
      obtain ⟨s₁, closed, ⟨r, files⟩, ran, rfl, rfl⟩ := h
      rw [← fopsClose_files closed, ran]
      rfl

variable {fd : Int}

lemma close_files (h : s.close fd t = some s') :
    s.files.close fd t = some s'.files := by
  unfold close at h
  unfold Tables.close
  cases slot : Tables.slotOf fd with
  | none =>
    simp only [slot, some.injEq] at h
    rw [h]
  | some i =>
    simp only [slot, map_eq_some_iff] at h
    obtain ⟨⟨ret, s₁⟩, closed, rfl⟩ := h
    simp [doClose_files closed]

lemma dup2_files {fd2 : Int} (h : s.dup2 fd fd2 t = some s') :
    s.files.dup2 fd fd2 t = some s'.files := by
  unfold dup2 at h
  unfold Tables.dup2
  split_ifs at h ⊢
  · rw [some.inj h]
  cases got : s.files.doGetFilp fd t with
  | none =>
    simp only [got, some.injEq] at h ⊢
    rw [h]
  | some f =>
    cases slot : Tables.slotOf fd2 with
    | none =>
      simp only [got, slot, some.injEq] at h ⊢
      rw [h]
    | some i =>
      simp only [got, slot, bind, bind_eq_some_iff, kassert_eq_some, exists_const,
        map_eq_some_iff] at h
      obtain ⟨s₁, first, empty, files, added, rfl⟩ := h
      dsimp only
      split_ifs at first ⊢
      · cases first
        simpa [kassert, empty] using added
      · simpa [close_files first, kassert, empty] using added

lemma closeAll_files {is : List Slot} (h : closeAll t is s = some s') :
    Tables.closeAll t is s.files = some s'.files := by
  induction is generalizing s with
  | nil =>
    rw [some.inj h]
    rfl
  | cons i is ih =>
    unfold closeAll at h
    unfold Tables.closeAll
    split_ifs at h ⊢ with empty
    · exact ih h
    · simp only [bind, bind_eq_some_iff, kassert_eq_some, exists_const] at h
      obtain ⟨⟨ret, s₁⟩, closed, ok, gone, rest⟩ := h
      dsimp only at ok gone rest
      simp only [doClose_files closed, bind, bind_some, kassert, ok, gone, if_true]
      exact ih rest

lemma step_files {a : Action} (h : s.step a = some s') :
    Files.step s.files a = some s'.files := by
  unfold step at h
  unfold Files.step
  split_ifs at h ⊢ with acts
  cases a with
  | create | openFile | dup | fork =>
    obtain ⟨files, ran, rfl⟩ := map_eq_some_iff.mp h
    exact ran
  | pipe t rd wr =>
    obtain ⟨files, ran, eq⟩ := bind_eq_some_iff.mp h
    exact some.inj eq ▸ ran
  | dup2 => exact dup2_files h
  | close => exact close_files h
  | destroy t =>
    obtain ⟨s₁, closed, eq⟩ := bind_eq_some_iff.mp h
    cases eq
    simp [Tables.destroyTask, closeAll_files closed]

/-! ## Ends and files -/

/-- The pipes and their ends point to each other. -/
structure Linked (s : PipeTables) : Prop where
  allocated : ∀ f, s.data f ≠ none → s.files.count f ≠ none
  data_iff : ∀ f p e, s.data f = some (p, e) ↔ ∃ ends, s.pipes p = some ends ∧ ends.get e = some f
  /-- A pipe without ends is freed. -/
  half : ∀ p ends, s.pipes p = some ends → ∃ e, ends.get e ≠ none
  made : ∀ p, p < s.made ↔ s.pipes p ≠ none ∨ p ∈ s.freed
  once : ∀ p ∈ s.freed, s.pipes p = none
  nodup : s.freed.Nodup

variable {files : Tables}

lemma setFiles_eq (keeps : ∀ g, s.data g ≠ none → files.count g ≠ none) :
    s.setFiles files = { s with files := files } := by
  have same : (s.setFiles files).data = s.data := by
    funext g
    by_cases none : s.data g = none
    · simp [PipeTables.setFiles, none]
    · simp [PipeTables.setFiles, keeps g none]
  exact congrArg (fun data => { s with files := files, data := data }) same

lemma Linked.setFiles (h : Linked s)
    (keeps : ∀ g, s.data g ≠ none → files.count g ≠ none) : Linked (s.setFiles files) := by
  rw [setFiles_eq keeps]
  exact ⟨keeps, h.data_iff, h.half, h.made, h.once, h.nodup⟩

/-- Files that are allocated stay so. -/
def Grows (s s' : Tables) : Prop := ∀ g, s.count g ≠ none → s'.count g ≠ none

lemma Linked.grow (h : Linked s) (grows : Grows s.files files) :
    Linked (s.setFiles files) :=
  h.setFiles fun g hg => grows g (h.allocated g hg)

lemma grows_opens {s s' : Tables} (h : Opens s t s') : Grows s s' := by
  intro g hg
  cases h with
  | nothing => exact hg
  | file =>
    rw [setCount_count]
    split_ifs
    · simp
    · exact hg

lemma grows_addRef {s s' : Tables} (h : s.addRef f = some s') : Grows s s' := by
  obtain ⟨c, -, rfl⟩ := map_eq_some_iff.mp h
  intro g hg
  rw [setCount_count]
  split_ifs
  · simp
  · exact hg

lemma grows_createTask {s s' : Tables} {user : Option (Filp × Filp × Filp)}
    (h : s.createTask t user = some s') : Grows s s' := by
  simp only [Tables.createTask, bind, bind_eq_some_iff, kassert_eq_some, exists_const] at h
  obtain ⟨-, h⟩ := h
  intro g hg
  split at h
  · cases h
    exact hg
  · simp only [bind_eq_some_iff, kassert_eq_some, exists_const, pure, some.injEq] at h
    obtain ⟨-, rfl⟩ := h
    simp only [update_apply]
    split_ifs <;> simp [hg]

lemma grows_fork {s s' : Tables} {child : Pid} (h : s.fork t child = some s') : Grows s s' := by
  simp only [Tables.fork, bind, bind_eq_some_iff, kassert_eq_some, exists_const] at h
  obtain ⟨-, h⟩ := h
  obtain ⟨-, -, count⟩ := addRefs_spec h
  intro g hg
  rw [count g]
  simpa using hg

lemma grows_dup {s s' : Tables} (h : s.dup fd t = some s') : Grows s s' := by
  unfold Tables.dup at h
  split at h
  · exact some.inj h ▸ fun _ => id
  · split at h
    · exact some.inj h ▸ fun _ => id
    · exact fun g hg => grows_addRef h g hg

/-! ## Closing an end -/

lemma get_clear (ends : Ends) (e e' : PipeEnd) :
    (ends.clear e).get e' = if e' = e then none else ends.get e' := by
  cases e <;> cases e' <;> rfl

lemma Linked.data_clear {ends : Ends} (h : Linked s) (pipe : s.pipes p = some ends)
    (own : ends.get e = some f) {left : Option Ends}
    (rest : ∀ e' g, (∃ l, left = some l ∧ l.get e' = some g) ↔ (ends.clear e).get e' = some g)
    (g : Filp) (q : Nat) (e' : PipeEnd) : update s.data f none g = some (q, e') ↔
      ∃ l, update s.pipes p left q = some l ∧ l.get e' = some g := by
  have data : s.data f = some (p, e) := (h.data_iff f p e).mpr ⟨ends, pipe, own⟩
  by_cases hq : q = p
  · subst hq
    rw [update_self, rest, get_clear]
    by_cases hg : g = f
    · subst hg
      simp only [update_self, reduceCtorEq, false_iff]
      split_ifs with same
      · simp
      · intro other
        have twice := data.symm.trans ((h.data_iff g q e').mpr ⟨ends, pipe, other⟩)
        exact same (Prod.mk.inj (some.inj twice)).2.symm
    · rw [update_of_ne hg, h.data_iff, pipe]
      split_ifs with same
      · subst same
        simp [own, Ne.symm hg]
      · simp
  · rw [update_of_ne hq, ← h.data_iff]
    by_cases hg : g = f
    · subst hg
      simp [data, Ne.symm hq]
    · rw [update_of_ne hg]

lemma ends_none_iff (ends : Ends) :
    ends.reader = none ∧ ends.writer = none ↔ ∀ e, ends.get e = none :=
  ⟨fun h e => by cases e <;> simp [Ends.get, h], fun h => ⟨h .reader, h .writer⟩⟩

section

variable (h : Linked s)
include h

lemma Linked.pipeClose_eq {ends : Ends} {c : Nat} (pipe : s.pipes p = some ends)
    (own : ends.get e = some f) (count : s.files.count f = some c) :
    s.pipeClose f p = some (s.setEnds p (if c = 1 then ends.clear e else ends)) := by
  have which : (if ends.reader = some f then if c = 1 then ends.clear .reader else ends
      else if c = 1 then ends.clear .writer else ends) = if c = 1 then ends.clear e else ends := by
    cases e with
    | reader => exact if_pos own
    | writer =>
      refine if_neg fun both => ?_
      have first := (h.data_iff f p .reader).mpr ⟨ends, pipe, both⟩
      have second := (h.data_iff f p .writer).mpr ⟨ends, pipe, own⟩
      cases first.symm.trans second
  have linked : ends.reader = some f ∨ ends.writer = some f := by
    cases e with
    | reader => exact .inl own
    | writer => exact .inr own
  simp only [pipeClose, pipe, kassert, linked, if_true, count, bind, bind_some, which, pure]

/-- The last descriptor of an end goes, and the end leaves the pipe. -/
lemma Linked.fopsClose_last (count : s.files.count f = some 1) (ran : s.fopsClose f = some s') :
    Linked { s' with data := update s'.data f none } := by
  unfold fopsClose at ran
  split at ran
  · case h_1 none =>
    cases ran
    rw [update_eq_self_iff.mpr none.symm]
    exact h
  · case h_2 p e data =>
    obtain ⟨ends, pipe, own⟩ := (h.data_iff f p e).mp data
    have allocated (g : Filp) (hg : update s.data f none g ≠ none) : s.files.count g ≠ none := by
      refine h.allocated g fun no => hg ?_
      rw [update_apply, no, ite_self]
    rw [h.pipeClose_eq pipe own count, if_pos rfl, some.injEq, setEnds] at ran
    split_ifs at ran with both
    · subst ran
      rw [ends_none_iff] at both
      refine ⟨allocated, h.data_clear pipe own fun e' g => ?_, fun q ends' hq => ?_, fun q => ?_,
        fun q hq => ?_, nodup_cons.mpr ⟨fun mem => ?_, h.nodup⟩⟩
      · simp [both e']
      · by_cases same : q = p
        · simp [same] at hq
        · exact h.half q ends' (by simpa [same] using hq)
      · rw [h.made q]
        by_cases same : q = p
        · simp [same, pipe]
        · simp [same]
      · by_cases same : q = p
        · simp [same]
        · simpa [same] using h.once q (by simpa [same] using hq)
      · rw [h.once p mem] at pipe
        cases pipe
    · subst ran
      rw [ends_none_iff, not_forall] at both
      refine ⟨allocated, h.data_clear pipe own fun e' g => ?_, fun q ends' hq => ?_, fun q => ?_,
        fun q hq => ?_, h.nodup⟩
      · simp
      · by_cases same : q = p
        · subst same
          obtain rfl : ends.clear e = ends' := by simpa using hq
          exact both
        · exact h.half q ends' (by simpa [same] using hq)
      · rw [h.made q]
        by_cases same : q = p
        · simp [same, pipe]
        · simp [same]
      · have ne : q ≠ p := by
          rintro rfl
          rw [h.once q hq] at pipe
          cases pipe
        simpa [ne] using h.once q hq

lemma Linked.fopsClose_shared {c : Nat} (count : s.files.count f = some c) (more : c ≠ 1)
    (ran : s.fopsClose f = some s') : s' = s := by
  unfold fopsClose at ran
  split at ran
  · exact (some.inj ran).symm
  · case h_2 p e data =>
    obtain ⟨ends, pipe, own⟩ := (h.data_iff f p e).mp data
    have opened : ¬ (ends.reader = none ∧ ends.writer = none) := by
      rw [ends_none_iff]
      intro none
      rw [none e] at own
      cases own
    rw [h.pipeClose_eq pipe own count, if_neg more, some.injEq, setEnds, if_neg opened] at ran
    rw [← ran, update_eq_self_iff.mpr pipe.symm]

lemma Linked.fopsClose_isSome {c : Nat} (count : s.files.count f = some c) :
    (s.fopsClose f).isSome := by
  unfold fopsClose
  split
  · rfl
  · case h_2 p e data =>
    obtain ⟨ends, pipe, own⟩ := (h.data_iff f p e).mp data
    rw [h.pipeClose_eq pipe own count]
    rfl

section

variable (counted : Counted s.files) (mem : t ∈ s.files.tasks)
include counted mem

lemma Linked.doClose_isSome (i : Slot) : (s.doClose i t).isSome := by
  unfold PipeTables.doClose
  split
  · rfl
  · case h_2 f slot =>
    obtain ⟨pos, count⟩ := counted.count_of_slot mem slot
    obtain ⟨s₁, closed⟩ := isSome_iff_exists.mp (h.fopsClose_isSome count)
    simp [count, pos.ne', closed, fopsClose_files closed, counted.doClose mem slot]

lemma Linked.doClose {ret : Int} (ran : s.doClose i t = some (ret, s')) : Linked s' := by
  unfold PipeTables.doClose at ran
  split at ran
  · exact (Prod.mk.inj (some.inj ran)).2 ▸ h
  · case h_2 f slot =>
    obtain ⟨pos, count⟩ := counted.count_of_slot mem slot
    simp only [count, bind, bind_some, if_neg (Nat.not_lt.mpr pos), bind_eq_some_iff,
      pure, some.injEq, Prod.mk.injEq] at ran
    obtain ⟨s₁, closed, ⟨r, files⟩, detached, -, rfl⟩ := ran
    rw [fopsClose_files closed, counted.doClose mem slot, some.injEq, Prod.mk.injEq] at detached
    obtain ⟨-, rfl⟩ := detached
    by_cases last : s.files.refs f = 1
    · have cut := h.fopsClose_last (count.trans (congrArg some last)) closed
      set files := (s.files.setSlot t i none).setCount f (live (s.files.refs f - 1)) with eq
      have gone : files.count f = none := by simp [eq, setCount_count, last]
      have same :
          s₁.setFiles files = ({ s₁ with data := update s₁.data f none }).setFiles files := by
        simp only [PipeTables.setFiles, PipeTables.mk.injEq, true_and, and_true]
        funext g
        by_cases own : g = f
        · simp [own, gone]
        · simp [own]
      rw [same]
      refine cut.setFiles fun g hg => ?_
      have ne : g ≠ f := by
        rintro rfl
        simp at hg
      have kept : s₁.files.count g ≠ none := cut.allocated g hg
      rw [eq, setCount_count, if_neg ne, setSlot_count, ← fopsClose_files closed]
      exact kept
    · obtain rfl := h.fopsClose_shared count last closed
      refine h.setFiles fun g hg => ?_
      rw [setCount_count, setSlot_count]
      split_ifs
      · rw [live_of_pos (by omega)]
        simp
      · exact h.allocated g hg

lemma Linked.close (ran : s.close fd t = some s') : Linked s' := by
  unfold PipeTables.close at ran
  split at ran
  · exact some.inj ran ▸ h
  · obtain ⟨⟨ret, s₁⟩, closed, rfl⟩ := map_eq_some_iff.mp ran
    exact h.doClose counted mem closed

lemma Linked.closeAll {is : List Slot} (ran : closeAll t is s = some s') : Linked s' := by
  induction is generalizing s with
  | nil => exact some.inj ran ▸ h
  | cons i is ih =>
    unfold PipeTables.closeAll at ran
    split_ifs at ran with empty
    · exact ih h counted mem ran
    · simp only [bind, bind_eq_some_iff, kassert_eq_some, exists_const] at ran
      obtain ⟨⟨ret, s₁⟩, closed, -, -, rest⟩ := ran
      obtain ⟨f, slot⟩ := ne_none_iff_exists'.mp empty
      have moved := (counted.doClose mem slot).symm.trans (doClose_files closed)
      have files := (Prod.mk.inj (some.inj moved)).2
      refine ih (h.doClose counted mem closed) ?_ ?_ rest
      · exact files ▸ counted.detach mem slot
      · exact files ▸ mem

lemma Linked.dup2 {fd2 : Int} (ran : s.dup2 fd fd2 t = some s') : Linked s' := by
  unfold PipeTables.dup2 at ran
  split_ifs at ran
  · exact some.inj ran ▸ h
  split at ran
  · simp only [bind, bind_eq_some_iff, kassert_eq_some, exists_const,
      map_eq_some_iff] at ran
    obtain ⟨s₁, first, -, files, added, rfl⟩ := ran
    have linked : Linked s₁ := by
      split_ifs at first
      · exact some.inj first ▸ h
      · exact h.close counted mem first
    exact linked.grow fun g hg => grows_addRef added g hg
  · exact some.inj ran ▸ h

end

lemma Linked.data_link {rd wr : Filp} (ne : rd ≠ wr) (newRd : s.data rd = none)
    (newWr : s.data wr = none) (newPipe : s.pipes p = none) (g : Filp) (q : Nat) (e : PipeEnd) :
    update (update s.data rd (some (p, .reader))) wr (some (p, .writer)) g = some (q, e) ↔
      ∃ ends, update s.pipes p (some ⟨some rd, some wr⟩) q = some ends ∧ ends.get e = some g := by
  by_cases new : q = p
  · subst new
    have old : s.data g ≠ some (q, e) := by
      intro data
      obtain ⟨_, pipe, -⟩ := (h.data_iff g q e).mp data
      cases newPipe.symm.trans pipe
    simp only [update_self, some.injEq, exists_eq_left', update_apply]
    cases e <;> grind [Ends.get]
  · rw [update_of_ne new, ← h.data_iff]
    simp only [update_apply]
    split_ifs with isWr isRd
    · subst isWr
      simp [newWr, Ne.symm new]
    · subst isRd
      simp [newRd, Ne.symm new]
    · rfl

lemma Linked.pipe {rd wr : Filp} (ran : s.pipe rd wr t = some s') : Linked s' := by
  obtain ⟨files, opened, eq⟩ := bind_eq_some_iff.mp ran
  cases eq
  obtain ⟨ne, i, j, s₁, -, freeRd, rfl, -, freeWr, rfl⟩ := pipe_spec opened
  rw [setCount_count, if_neg ne.symm, setSlot_count] at freeWr
  -- neither file was an end of a pipe, and the number is new
  have newRd : s.data rd = none := by_contra fun used => h.allocated rd used freeRd
  have newWr : s.data wr = none := by_contra fun used => h.allocated wr used freeWr
  have newPipe : s.pipes s.made = none ∧ s.made ∉ s.freed := by
    simpa using (h.made s.made).not.mp (Nat.lt_irrefl _)
  refine ⟨fun g hg => ?_, fun g q e => ?_, fun q ends hq => ?_, fun q => ?_,
    fun q hq => ?_, h.nodup⟩
  · simp only [setCount_count, setSlot_count]
    split_ifs with isWr isRd
    · simp
    · simp
    · exact h.allocated g (by simpa [isWr, isRd] using hg)
  · exact h.data_link ne newRd newWr newPipe.1 g q e
  · by_cases new : q = s.made
    · subst new
      obtain rfl : Ends.mk (some rd) (some wr) = ends := by simpa using hq
      exact ⟨.reader, by simp [Ends.get]⟩
    · exact h.half q ends (by simpa [new] using hq)
  · by_cases new : q = s.made
    · simp [new]
    · have := h.made q
      simp only [update_of_ne new, ← this]
      omega
  · have ne : q ≠ s.made := by
      rintro rfl
      exact newPipe.2 hq
    simpa [ne] using h.once q hq

lemma Linked.step {a : Action} (counted : Counted s.files) (ran : s.step a = some s') :
    Linked s' := by
  unfold PipeTables.step at ran
  split_ifs at ran with acts
  cases a with
  | create =>
    obtain ⟨files, called, rfl⟩ := map_eq_some_iff.mp ran
    exact h.grow (grows_createTask called)
  | openFile t lookup =>
    obtain ⟨files, called, rfl⟩ := map_eq_some_iff.mp ran
    exact h.grow (grows_opens (fsOpen_opens lookup called))
  | dup =>
    obtain ⟨files, called, rfl⟩ := map_eq_some_iff.mp ran
    exact h.grow (grows_dup called)
  | fork =>
    obtain ⟨files, called, rfl⟩ := map_eq_some_iff.mp ran
    exact h.grow (grows_fork called)
  | pipe => exact h.pipe ran
  | dup2 t => exact h.dup2 counted (acts t rfl) ran
  | close t => exact h.close counted (acts t rfl) ran
  | destroy t =>
    obtain ⟨s₁, closed, eq⟩ := bind_eq_some_iff.mp ran
    cases eq
    exact (h.closeAll counted (acts t rfl) closed).grow fun _ => id

end

/-! ## Runs -/

/-- A descriptor of some task refers to the end `e` of the pipe `p`. -/
def Refers (s : PipeTables) (p : Nat) (e : PipeEnd) : Prop :=
  ∃ t ∈ s.files.tasks, ∃ i f, s.files.fdtable t i = some f ∧ s.data f = some (p, e)

/-- Calls in which no task forks or is destroyed while its last slot is in use. -/
abbrev PipesRun : PipeTables → List Action → PipeTables → Prop :=
  Run (Guarded (fun s a => distinct a ∧ sparesLast s.files a) fun s a s' =>
    PipeTables.step s a = some s')

lemma Linked.refers_iff (h : Linked s) (counted : Counted s.files) :
    s.Refers p e ↔ ∃ ends, s.pipes p = some ends ∧ ends.get e ≠ none := by
  constructor
  · rintro ⟨t, -, i, f, -, data⟩
    obtain ⟨ends, pipe, own⟩ := (h.data_iff f p e).mp data
    exact ⟨ends, pipe, by simp [own]⟩
  · rintro ⟨ends, pipe, some⟩
    obtain ⟨f, own⟩ := ne_none_iff_exists'.mp some
    have data := (h.data_iff f p e).mpr ⟨ends, pipe, own⟩
    have allocated := h.allocated f (by simp [data])
    rw [counted f, Ne, live_eq_none] at allocated
    obtain ⟨t, mem, i, slot⟩ := refs_pos_iff.mp (Nat.pos_of_ne_zero allocated)
    exact ⟨t, mem, i, f, slot, data⟩

/-- In every such run the pointer to an end is set exactly while a descriptor refers to it, and a
pipe has been freed once if no descriptor refers to either end, and otherwise not at all. No close
stops the kernel. -/
theorem ends_follow_descriptors {acts : List Action} (run : PipesRun boot acts s)
    (made : p < s.made) :
    (∀ e, (∃ ends, s.pipes p = some ends ∧ ends.get e ≠ none) ↔ s.Refers p e) ∧
      ((∃ e, s.Refers p e) → p ∉ s.freed) ∧ ((∀ e, ¬ s.Refers p e) → s.freed.count p = 1) ∧
      ∀ t ∈ s.files.tasks, ∀ i, (s.doClose i t).isSome := by
  obtain ⟨counted, linked⟩ : Counted s.files ∧ Linked s := by
    refine run.invariant (P := fun s => Counted s.files ∧ Linked s) ⟨?_, ?_⟩ ?_
    · intro f
      simp [boot, Files.boot, Tables.refs, Lib.refs, holders]
    · constructor <;> simp [boot]
    · rintro s a s' ⟨counted, linked⟩ ⟨⟨ok, spares⟩, moved⟩
      exact ⟨counted.step ok spares (step_files moved), linked.step counted moved⟩
  refine ⟨fun e => (linked.refers_iff counted).symm, ?_, fun none => ?_,
    fun t mem i => linked.doClose_isSome counted mem i⟩
  · rintro ⟨e, refers⟩ freed
    obtain ⟨ends, pipe, -⟩ := (linked.refers_iff counted).mp refers
    rw [linked.once p freed] at pipe
    cases pipe
  · refine count_eq_one_of_mem linked.nodup (((linked.made p).mp made).resolve_left ?_)
    intro allocated
    obtain ⟨ends, pipe⟩ := ne_none_iff_exists'.mp allocated
    obtain ⟨e, some⟩ := linked.half p ends pipe
    exact none e ((linked.refers_iff counted).mpr ⟨ends, pipe, some⟩)

/-- A user task makes a pipe, forks and closes the read end. The child exits. -/
def pipeAndFork : List Action :=
  [.create 0 (some (0, 1, 2)), .pipe 0 3 4, .fork 0 1, .close 0 3, .destroy 1]

theorem ends_follow_descriptors_sample : ∃ s, PipesRun boot pipeAndFork s ∧ s.made = 1 ∧
    s.Refers 0 .writer ∧ ¬ s.Refers 0 .reader := by
  obtain ⟨s, ran, made, ends, pipe, reader, writer⟩ :
      ∃ s ∈ exec (fun s a => if distinct a ∧ sparesLast s.files a then step s a else none) boot
        pipeAndFork,
      s.made = 1 ∧ ∃ ends ∈ s.pipes 0, ends.reader = none ∧ ends.writer =
        some 4 := by decide +kernel
  have run := Run.of_exec_guarded ran
  have ends_iff := (ends_follow_descriptors run (p := 0) (by omega)).1
  refine ⟨s, run, made, (ends_iff .writer).mp ⟨ends, pipe, by simp [Ends.get, writer]⟩, ?_⟩
  intro refers
  obtain ⟨ends', pipe', open'⟩ := (ends_iff .reader).mpr refers
  obtain rfl := some.inj (pipe.symm.trans pipe')
  exact open' reader

/-- Task 0 with its first `n` slots in use, and no pipe. -/
def filledSlots (n : Nat) : PipeTables := { boot with files := filled n }

lemma createSlots : boot.step (.create 0 (some (0, 1, 2))) = some (filledSlots 3) := by
  have created : Files.boot.createTask 0 (some (0, 1, 2)) = some (filled 3) := create_filled
  simp [step, Action.task, filledSlots, boot, created, setFiles]

lemma openSlot {n : Nat} (room : n ≤ maxOpenFiles) :
    (filledSlots n).step (.openFile 0 (.found n)) = some (filledSlots (n + 1)) := by
  have acts : ∀ t ∈ (Action.openFile 0 (.found n)).task, t ∈ (filled n).tasks := by
    simp [Action.task, filled]
  have opened := open_filled room
  rw [Files.step, if_pos acts] at opened
  rw [step, filledSlots, if_pos acts]
  dsimp only at opened ⊢
  simp [opened, setFiles, boot, filledSlots]

/-- A user task opens 124 files, makes a pipe, whose write end gets the last slot, and exits. -/
def fillAndPipe : List Action :=
  .create 0 (some (0, 1, 2)) :: ((List.range 124).map fun k => .openFile 0 (.found (3 + k))) ++
    [.pipe 0 127 128, .destroy 0]

lemma fillSlots {n : Nat} (room : 3 + n ≤ maxOpenFiles + 1) :
    Run (Guarded (fun _ a => distinct a) fun s a s' => PipeTables.step s a = some s')
      (filledSlots 3)
      ((List.range n).map fun k => .openFile 0 (.found (3 + k))) (filledSlots (3 + n)) := by
  induction n with
  | zero => exact .nil _
  | succ n ih =>
    rw [range_succ, map_append]
    exact .snoc (ih (by omega)) ⟨trivial, openSlot (by omega)⟩

/-- No task is left, but the pipe is, with its write end. -/
theorem last_end_not_closed : ∃ s,
    Run (Guarded (fun _ a => distinct a) fun s a s' => PipeTables.step s a = some s') boot
      fillAndPipe s ∧
    s.files.tasks = ∅ ∧ s.made = 1 ∧ s.freed = [] ∧
    ∃ ends, s.pipes 0 = some ends ∧ ends.reader = none ∧ ends.writer = some 128 := by
  obtain ⟨s, ran, tasks, made, freed, ends, pipe, reader, writer⟩ :
      ∃ s ∈ exec (fun s a => if distinct a then step s a else none) (filledSlots (3 + 124))
        [.pipe 0 127 128, .destroy 0],
      s.files.tasks = ∅ ∧ s.made = 1 ∧ s.freed = [] ∧
        ∃ ends ∈ s.pipes 0, ends.reader = none ∧ ends.writer = some 128 := by decide +kernel
  have create : distinct (.create 0 (some (0, 1, 2))) := trivial
  have filling := Run.cons ⟨create, createSlots⟩ (fillSlots (n := 124) (by decide))
  exact ⟨s, filling.append (Run.of_exec_guarded ran), tasks, made, freed,
    ends, pipe, reader, writer⟩

end PipeTables

end ExscapeOS.Files
