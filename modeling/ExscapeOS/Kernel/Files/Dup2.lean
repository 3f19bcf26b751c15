import ExscapeOS.Kernel.Files.Pipes

/-!
# Duplicating a descriptor onto another

`dup2` closes the target before it installs the source. If both are descriptors of one file, this
closes the file that is about to be installed: with a count of 1 it is freed, and `dup2` writes a
stale pointer to the table. With a higher count `ext2_close` and `initrd_close` still discard the
listing that `getdents` keeps in the field `data` of a directory. `fat_close` does nothing.
-/
namespace ExscapeOS.Files

open Lib Function Tables List Option

/-- `file->fops.close`. -/
inductive CloseOp where
  | fatClose
  | ext2Close
  | initrdClose
  | stdioClose
  | pipeClose

/-- The function frees `file->data`, if a listing is there. -/
def CloseOp.discards : CloseOp → Bool
  | .ext2Close | .initrdClose => true
  | _ => false

/-- The open files with the listings of directories; `Listing` is what `getdents` keeps in
`file->data`. -/
structure DirTables (Listing : Type) where
  tables : PipeTables
  closeOp : Filp → CloseOp
  listing : Filp → Option Listing

namespace DirTables

variable {Listing : Type}

abbrev files (s : DirTables Listing) : Tables := s.tables.files

/-- The listings after `fops.close`, and the `memset` of the last reference. -/
def dropListing (f : Filp) (last : Prop) [Decidable last] (s : DirTables Listing) :
    Filp → Option Listing :=
  if last ∨ (s.closeOp f).discards then update s.listing f none else s.listing

/-- `close`, with what it does to the listing of a directory. -/
def close (fd : Int) (t : Pid) (s : DirTables Listing) : Option (DirTables Listing) := do
  let tables ← s.tables.close fd t
  match s.files.doGetFilp fd t with
  | none => return { s with tables := tables }
  | some f =>
    if s.files.count f = some 0 then return { s with tables := tables }
    return { s with tables := tables, listing := s.dropListing f (s.files.count f = some 1) }

/-- `dup2`, with its result. -/
def dup2 (fd fd2 : Int) (t : Pid) (s : DirTables Listing) : Option (Int × DirTables Listing) :=
  if fd2 < 0 ∨ fd2 ≥ maxOpenFiles then some (-ebadf, s)
  else
    match s.files.doGetFilp fd t, slotOf fd2 with
    | some f, some i => do
      let s ← (if s.files.fdtable t i = none then some s else s.close fd2 t)
      kassert (s.files.fdtable t i = none)
      let files ← (s.files.setSlot t i (some f)).addRef f
      return (fd2, { s with tables := s.tables.setFiles files })
    | _, _ => some (-ebadf, s)

variable {s s' : DirTables Listing} {t : Pid} {fd fd2 : Int} {i j : Slot} {f g : Filp} {n : Nat}

/-! ## Closing the target -/

/-- Pipes and ends point to each other, and an open file of the task is allocated, with a count. -/
structure Intact (s : DirTables Listing) (t : Pid) : Prop where
  linked : s.tables.Linked
  positive : ∀ i f, s.files.fdtable t i = some f → ∃ n, s.files.count f = some (n + 1)

lemma files_doClose {s : Tables} (slot : s.fdtable t i = some g)
    (count : s.count g = some (n + 1)) :
    s.doClose i t = some (0, (s.setSlot t i none).setCount g (live n)) := by
  cases n <;> simp [Tables.doClose, slot, count]

/-- The slot is cleared and the count goes down; a file that stays can only lose its listing. -/
lemma Intact.close (intact : s.Intact t) (target : slotOf fd2 = some i)
    (slot : s.files.fdtable t i = some g) (count : s.files.count g = some (n + 1)) :
    ∃ s', s.close fd2 t = some s' ∧ s'.closeOp = s.closeOp ∧ s'.listing = s.dropListing g (n = 0) ∧
      s'.files = (s.files.setSlot t i none).setCount g (live n) ∧
      (0 < n → s'.tables = { s.tables with files := s'.files }) := by
  obtain ⟨tables, closed⟩ :=
    isSome_iff_exists.mp (intact.linked.fopsClose_isSome count)
  have same : tables.files = s.files := PipeTables.fopsClose_files closed
  set files := (s.files.setSlot t i none).setCount g (live n) with after
  have ran : s.tables.close fd2 t = some (tables.setFiles files) := by
    simp [PipeTables.close, target, PipeTables.doClose, slot, count, closed, same,
      files_doClose slot count, after]
  have got : s.files.doGetFilp fd2 t = some g := by simp [doGetFilp, target, slot]
  refine ⟨⟨tables.setFiles files, s.closeOp, s.dropListing g (n = 0)⟩, ?_, rfl, rfl, rfl,
    fun more => ?_⟩
  · simp [DirTables.close, dropListing, ran, got, count]
  · obtain rfl := intact.linked.fopsClose_shared count (by omega) closed
    refine PipeTables.setFiles_eq fun h used => ?_
    rw [after, setCount_count, live_of_pos more, setSlot_count]
    split_ifs
    · simp
    · exact intact.linked.allocated h used

/-! ## What the call does -/

/-- The slots after a call that goes through. -/
structure Duplicates (fd fd2 : Int) (t : Pid) (f : Filp) (s s' : DirTables Listing) : Prop where
  source : s'.files.doGetFilp fd t = some f
  target : s'.files.doGetFilp fd2 t = some f
  allocated : s'.files.count f ≠ none
  others : ∀ u j, ¬ (u = t ∧ slotOf fd2 = some j) → s'.files.fdtable u j = s.files.fdtable u j
  same : fd = fd2 → s' = s

lemma slotOf_of_range (range : 0 ≤ fd2 ∧ fd2 < maxOpenFiles) : ∃ i, slotOf fd2 = some i := by
  unfold slotOf
  rw [dif_neg (by omega)]
  exact ⟨_, rfl⟩

/-- The file goes into the slot, with `c` references. -/
def install (t : Pid) (i : Slot) (f : Filp) (c : Nat) (s : DirTables Listing) : DirTables Listing :=
  { s with tables := s.tables.setFiles ((s.files.setSlot t i (some f)).setCount f (some c)) }

lemma dup2_eq (range : 0 ≤ fd2 ∧ fd2 < maxOpenFiles) (source : s.files.doGetFilp fd t = some f)
    (target : slotOf fd2 = some i) {s₁ : DirTables Listing}
    (first : (if s.files.fdtable t i = none then some s else s.close fd2 t) = some s₁)
    (empty : s₁.files.fdtable t i = none) :
    s.dup2 fd fd2 t = (s₁.files.count f).map fun c => (fd2, s₁.install t i f (c + 1)) := by
  have inside : ¬ (fd2 < 0 ∨ fd2 ≥ maxOpenFiles) := by omega
  simp only [dup2, if_neg inside, source, target, first, bind, bind_some, empty, kassert,
    if_true, addRef, setSlot_count, pure]
  cases s₁.files.count f <;> rfl

/-- The slots once the file is in the target, which is empty in `s₁`. -/
lemma Duplicates.install {c : Nat} {s₁ : DirTables Listing} (source : slotOf fd = some j)
    (target : slotOf fd2 = some i) (slot : s.files.fdtable t j = some f)
    (kept : ∀ u k, ¬ (u = t ∧ k = i) → s₁.files.fdtable u k = s.files.fdtable u k)
    (same : fd = fd2 → s₁.install t i f c = s) :
    Duplicates fd fd2 t f s (s₁.install t i f c) := by
  have after : (s₁.install t i f c).files = (s₁.files.setSlot t i (some f)).setCount f (some c) :=
    rfl
  refine ⟨?_, ?_, ?_, fun u k other => ?_, same⟩
  · rw [after, doGetFilp, source, bind_some, setCount_fdtable, setSlot_fdtable]
    split_ifs with here
    · rfl
    · rw [kept t j here, slot]
  · simp [after, doGetFilp, target, setSlot_fdtable]
  · simp [after, setCount_count]
  · have ne : ¬ (u = t ∧ k = i) := fun eq => other ⟨eq.1, eq.2 ▸ target⟩
    rw [after, setCount_fdtable, setSlot_fdtable, if_neg ne, kept u k ne]

/-- A shared file that is closed and installed again in the same slot. -/
lemma Intact.install_again (intact : s.Intact t) {s₁ : DirTables Listing}
    (slot : s.files.fdtable t i = some f) (count : s.files.count f = some (n + 1))
    (kept : s.dropListing f (n = 0) = s.listing) (closeOp : s₁.closeOp = s.closeOp)
    (listing : s₁.listing = s.dropListing f (n = 0))
    (files : s₁.files = (s.files.setSlot t i none).setCount f (live n))
    (rest : s₁.tables = { s.tables with files := s₁.files }) : s₁.install t i f (n + 1) = s := by
  have back : (s₁.files.setSlot t i (some f)).setCount f (some (n + 1)) = s.files := by
    rw [files]
    refine tables_ext rfl (fun u j => ?_) fun g => ?_
    · simp only [setCount_fdtable, setSlot_fdtable]
      grind
    · simp only [setCount_count, setSlot_count]
      grind
  have tables : s₁.tables.setFiles s.files = s.tables := by
    rw [rest]
    exact PipeTables.setFiles_eq intact.linked.allocated
  rw [DirTables.install, back, tables, closeOp, listing, kept]

lemma dup2_empty (intact : s.Intact t) (source : s.files.doGetFilp fd t = some f)
    (range : 0 ≤ fd2 ∧ fd2 < maxOpenFiles) (empty : s.files.doGetFilp fd2 t = none) :
    ∃ s', s.dup2 fd fd2 t = some (fd2, s') ∧ Duplicates fd fd2 t f s s' := by
  obtain ⟨i, target⟩ := slotOf_of_range range
  obtain ⟨j, own, slot⟩ := doGetFilp_slot source
  obtain ⟨n, count⟩ := intact.positive j f slot
  rw [doGetFilp, target, bind_some] at empty
  refine ⟨s.install t i f (n + 1 + 1), ?_,
    Duplicates.install own target slot (fun _ _ _ => rfl) ?_⟩
  · rw [dup2_eq range source target (if_pos empty) empty, count, map_some]
  · rintro rfl
    obtain rfl := some.inj (own.symm.trans target)
    cases slot.symm.trans empty

lemma dup2_used (intact : s.Intact t) (source : s.files.doGetFilp fd t = some f)
    (range : 0 ≤ fd2 ∧ fd2 < maxOpenFiles) (used : s.files.doGetFilp fd2 t = some g)
    (count : s.files.count g = some (n + 1)) :
    ∃ i, ∃ s₁ : DirTables Listing, slotOf fd2 = some i ∧ s₁.closeOp = s.closeOp ∧
      s₁.listing = s.dropListing g (n = 0) ∧
      s₁.files = (s.files.setSlot t i none).setCount g (live n) ∧
      (0 < n → s₁.tables = { s.tables with files := s₁.files }) ∧
      s.dup2 fd fd2 t = (if f = g then live n else s.files.count f).map fun c =>
        (fd2, s₁.install t i f (c + 1)) := by
  obtain ⟨i, target, slot⟩ := doGetFilp_slot used
  obtain ⟨s₁, closed, closeOp, listing, files, rest⟩ := intact.close target slot count
  refine ⟨i, s₁, target, closeOp, listing, files, rest, ?_⟩
  have first : (if s.files.fdtable t i = none then some s else s.close fd2 t) = some s₁ := by
    rw [if_neg (by simp [slot]), closed]
  have empty : s₁.files.fdtable t i = none := by simp [files, setSlot_fdtable]
  have left : s₁.files.count f = if f = g then live n else s.files.count f := by
    rw [files, setCount_count, setSlot_count]
  rw [dup2_eq range source target first empty, left]

lemma dup2_kept (intact : s.Intact t) (source : s.files.doGetFilp fd t = some f)
    (range : 0 ≤ fd2 ∧ fd2 < maxOpenFiles)
    (shared : s.files.doGetFilp fd2 t = some f → s.files.count f ≠ some 1)
    (unlisted : fd = fd2 → (s.closeOp f).discards → s.listing f = none) :
    ∃ s', s.dup2 fd fd2 t = some (fd2, s') ∧ Duplicates fd fd2 t f s s' := by
  cases used : s.files.doGetFilp fd2 t with
  | none => exact dup2_empty intact source range used
  | some g =>
    obtain ⟨j, own, slot⟩ := doGetFilp_slot source
    obtain ⟨k, target, slot2⟩ := doGetFilp_slot used
    obtain ⟨m, alive⟩ := intact.positive j f slot
    obtain ⟨n, count⟩ := intact.positive k g slot2
    obtain ⟨i, s₁, target', closeOp, listing, files, rest, ran⟩ :=
      dup2_used intact source range used count
    obtain rfl := some.inj (target.symm.trans target')
    have kept (u : Pid) (l : Slot) (ne : ¬ (u = t ∧ l = k)) :
        s₁.files.fdtable u l = s.files.fdtable u l := by
      rw [files, setCount_fdtable, setSlot_fdtable, if_neg ne]
    by_cases eq : f = g
    · subst eq
      have more : 0 < n := by
        have := shared used
        rw [count] at this
        simpa [Nat.pos_iff_ne_zero] using this
      rw [if_pos rfl, live_of_pos more, map_some] at ran
      refine ⟨_, ran, Duplicates.install own target slot kept ?_⟩
      rintro rfl
      obtain rfl := some.inj (own.symm.trans target)
      refine intact.install_again slot count ?_ closeOp listing files (rest more)
      rw [dropListing, ite_eq_right_iff]
      rintro (last | discards)
      · omega
      · exact update_eq_self_iff.mpr (unlisted rfl discards).symm
    · rw [if_neg eq, alive, map_some] at ran
      refine ⟨_, ran, Duplicates.install own target slot kept ?_⟩
      rintro rfl
      exact absurd (some.inj (source.symm.trans used)) eq

/-- `dup2` does what it should unless the target is a descriptor of the same file and takes its last
reference, or is the source itself and a directory of ext2 or the initrd that is being listed. -/
theorem dup2_duplicates_iff (intact : s.Intact t) (source : s.files.doGetFilp fd t = some f)
    (range : 0 ≤ fd2 ∧ fd2 < maxOpenFiles) :
    (∃ s', s.dup2 fd fd2 t = some (fd2, s') ∧ Duplicates fd fd2 t f s s') ↔
      (s.files.doGetFilp fd2 t = some f → s.files.count f ≠ some 1) ∧
      (fd = fd2 → (s.closeOp f).discards → s.listing f = none) := by
  constructor
  · rintro ⟨s', ran, dup⟩
    constructor
    · intro used last
      obtain ⟨i, s₁, -, -, -, -, -, eq⟩ := dup2_used intact source range used last
      simp [eq] at ran
    · rintro rfl discards
      obtain ⟨j, own, slot⟩ := doGetFilp_slot source
      obtain ⟨n, count⟩ := intact.positive j f slot
      obtain ⟨i, s₁, -, -, listing, -, -, eq⟩ := dup2_used intact source range source count
      obtain ⟨c, -, same⟩ := map_eq_some_iff.mp (eq.symm.trans ran)
      have lost : (s₁.install t i f (c + 1)).listing f = s'.listing f :=
        congrArg (fun r => r.2.listing f) same
      simpa [install, listing, dropListing, discards, dup.same rfl] using lost.symm
  · rintro ⟨shared, unlisted⟩
    exact dup2_kept intact source range shared unlisted

/-- A new user task, with its three files. -/
def started : DirTables Unit where
  tables := {
    files := filled 3
    data := fun _ => none
    pipes := fun _ => none
    made := 0
    freed := [] }
  closeOp _ := .stdioClose
  listing _ := none

lemma started_intact : started.Intact 0 where
  linked := by constructor <;> simp [started]
  positive i f slot := by
    obtain ⟨below, rfl⟩ : i.val < 3 ∧ i.val = f := by simpa [started, filled] using slot
    exact ⟨0, by simp [started, filled, below]⟩

theorem dup2_duplicates_stdout : started.listing 1 = none ∧
    ∃ s', started.dup2 1 2 0 = some (2, s') ∧ Duplicates 1 2 0 1 started s' :=
  ⟨rfl, (dup2_duplicates_iff started_intact rfl (by decide)).mpr (by decide)⟩

/-- `dup2(1, 1)` in a new task: `close` frees the file, and then its count is raised. -/
theorem dup2_frees_source : started.files.doGetFilp 1 0 = some 1 ∧
    (started.close 1 0).map (fun s => s.files.count 1) = some none ∧
    started.dup2 1 1 0 = none := by
  refine ⟨rfl, rfl, ?_⟩
  decide +kernel

end DirTables

end ExscapeOS.Files
