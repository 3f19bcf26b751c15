import ExscapeOS.Kernel.Fat.Readdir
import ExscapeOS.Kernel.Path.Basic

/-!
# `fat_cluster_for_path`

The function opens the directory at the current cluster and takes the cluster of the first entry
with the name of the next component. It uses the first 255 characters of the path, and looks at the
type of an entry only if it has been asked for a directory: a file on the way is read as if it were
a directory. An empty file has no clusters, and the kernel panics then.
-/
namespace ExscapeOS.Fat

open Lib ExscapeOS.Path List Option

/-- `fat_opendir_cluster`, and `fat_readdir` until it returns `NULL`, with the variables of
`fat_parse_dir`. There is no result if the kernel panics or the parse does not end. -/
abbrev Readdir : Type := Statics → Nat → Option (List Dirent × Statics)

/-- The directories of a partition. -/
def Partition.readdir (part : Partition) (root dev fuel : Nat) : Readdir := fun s c =>
  (OpenDir.parse ⟨part, root, dev, c⟩ fuel s).join.map fun p => (p.data, p.statics)

/-- `0xffffffff`. -/
def notFound : Nat := 0xffffffff

/-- `(uint32)(-ENOTDIR)`. -/
def enotdir : Nat := 2 ^ 32 - 20

/-- The loop of `fat_cluster_for_path`. -/
def walkPath (readdir : Readdir) (type : DType) : List Str → Nat → Statics → Option (Nat × Statics)
  | [], cur, s => some (cur, s)
  | token :: rest, cur, s => do
    kassert (2 ≤ cur)
    let (dents, s) ← readdir s cur
    match dents.find? fun dent => stricmp dent.dName token with
    | none => return (notFound, s)
    | some dent =>
      if type = .dir ∧ dent.dType ≠ .dir then return (enotdir, s)
      else walkPath readdir type rest dent.dIno s

def fatClusterForPath (readdir : Readdir) (root : Nat) (inPath : Str) (type : DType) (s : Statics) :
    Option (Nat × Statics) := do
  kassert (1 ≤ inPath.length)
  if inPath = [slash] then return (root, s)
  else
    let path := strlcpy inPath 256
    walkPath readdir type (tokens slash path.length path) root s

/-! ## More clusters -/

section

variable {part : Partition} {root dev fuel fuel' : Nat} {s s' : Statics}

lemma OpenDir.parse_mono {dir : OpenDir} {r : Option (Parse (List Dirent))} (le : fuel ≤ fuel')
    (h : dir.parse fuel s = some r) : dir.parse fuel' s = some r := by
  unfold OpenDir.parse fatParseDir at h ⊢
  split_ifs at h ⊢
  · exact loop_mono le h
  · exact h

lemma readdir_mono {c : Nat} {r : List Dirent × Statics} (le : fuel ≤ fuel')
    (h : part.readdir root dev fuel s c = some r) : part.readdir root dev fuel' s c = some r := by
  obtain ⟨p, parsed, rfl⟩ := map_eq_some_iff.mp h
  rw [Partition.readdir, OpenDir.parse_mono le (join_eq_some_iff.mp parsed)]
  rfl

lemma walkPath_mono {type : DType} {cs : List Str} {c : Nat} {r : Nat × Statics} (le : fuel ≤ fuel')
    (h : walkPath (part.readdir root dev fuel) type cs c s = some r) :
    walkPath (part.readdir root dev fuel') type cs c s = some r := by
  induction cs generalizing c s with
  | nil => exact h
  | cons name rest ih =>
    simp only [walkPath, bind_eq_bind, bind_eq_some_iff] at h ⊢
    obtain ⟨_, valid, ⟨dents, s'⟩, read, h⟩ := h
    refine ⟨_, valid, _, readdir_mono le read, ?_⟩
    dsimp only at h ⊢
    split at h
    · exact h
    · split_ifs at h ⊢
      · exact h
      · exact ih h

/-- What is read depends on the variables only by a pending long name. -/
lemma readdir_same {c : Nat} {dents : List Dirent} {s₁ : Statics} (same : s.same s')
    (h : part.readdir root dev fuel s c = some (dents, s₁)) :
    ∃ s₁', part.readdir root dev fuel s' c = some (dents, s₁') ∧ s₁.same s₁' := by
  let f (p : Parse (List Dirent)) : List Dirent × Bool × (Fin 256 → UInt16) :=
    (p.data, p.statics.haveLfn, fun i => if p.statics.haveLfn then p.statics.lfnBuf i else 0)
  have respects (p p' : Parse (List Dirent)) (alike : Alike p p') : f p = f p' := by
    simp only [f, alike.data, ← alike.statics.1, Prod.mk.injEq, true_and]
    funext i
    split_ifs with lfn
    · exact alike.statics.2 lfn i (by simp) (by exact_mod_cast i.isLt)
    · rfl
  have agree : (OpenDir.parse ⟨part, root, dev, c⟩ fuel s).map (Option.map f) =
      (OpenDir.parse ⟨part, root, dev, c⟩ fuel s').map (Option.map f) :=
    fatParseDir_same f respects same fuel c []
  obtain ⟨p, parsed, eq⟩ := map_eq_some_iff.mp h
  obtain ⟨rfl, rfl⟩ := Prod.mk.inj eq
  rw [join_eq_some_iff.mp parsed] at agree
  obtain ⟨_, parsed', ended⟩ := map_eq_some_iff.mp agree.symm
  obtain ⟨p', rfl, eq⟩ := map_eq_some_iff.mp ended
  obtain ⟨data, lfn, buf⟩ : p'.data = p.data ∧ p'.statics.haveLfn = p.statics.haveLfn ∧ _ := by
    simpa [f] using eq
  refine ⟨p'.statics, by rw [Partition.readdir, parsed', ← data]; rfl, lfn.symm, ?_⟩
  intro left i low high
  have char := congrFun buf ⟨i.toNat, by omega⟩
  simpa [left, lfn.trans left, Int.toNat_of_nonneg low] using char.symm

lemma walkPath_same {type : DType} {cs : List Str} {c r : Nat} {s₁ : Statics} (same : s.same s')
    (h : walkPath (part.readdir root dev fuel) type cs c s = some (r, s₁)) :
    ∃ s₁', walkPath (part.readdir root dev fuel) type cs c s' = some (r, s₁') := by
  induction cs generalizing c s s' with
  | nil =>
    obtain ⟨rfl, -⟩ : c = r ∧ s = s₁ := by simpa [walkPath] using h
    exact ⟨s', rfl⟩
  | cons name rest ih =>
    simp only [walkPath, bind_eq_bind, bind_eq_some_iff] at h
    obtain ⟨_, valid, ⟨dents, s₂⟩, read, h⟩ := h
    obtain ⟨s₂', read', same'⟩ := readdir_same same read
    simp only [walkPath, valid, read', bind_eq_bind, bind_some]
    dsimp only at h
    split at h
    · exact ⟨s₂', by rw [← (Prod.mk.inj (some.inj h)).1]; rfl⟩
    · split_ifs at h ⊢
      · exact ⟨s₂', by rw [← (Prod.mk.inj (some.inj h)).1]; rfl⟩
      · exact ih same' h

end

/-! ## Directory trees -/

/-- A partition with a tree of directories. -/
structure Tree where
  part : Partition
  root : Nat
  dev : Nat
  /-- The directory at a cluster. -/
  dirs : (c : Nat) → Option (DiskDir part c)
  rootDir : (dirs root).isSome
  root_lt : root < 0x0ffffff7
  subdirs : ∀ c dir pending, dirs c = some dir → ∀ dent ∈ dir.records root dev pending,
    dent.dIno < 0x0ffffff7 ∧ (dent.dType = .dir → (dirs dent.dIno).isSome)

/-- The entry with a name. -/
def named (name : Str) (dents : List Dirent) : Option Dirent :=
  dents.find? fun dent => stricmp dent.dName name

/-- The result is the cluster of the target, or an error if there is none. -/
def IsResult (r : Nat) : Option Nat → Prop
  | some c => r = c
  | none => r = notFound ∨ r = enotdir

namespace Tree

variable (t : Tree)

/-- The entries of a directory, as they are named if a long name is pending. -/
def entries (pending : Option Name) (c : Nat) : List Dirent :=
  ((t.dirs c).map (DiskDir.records · t.root t.dev pending)).getD []

/-- The cluster of the entry that a path leads to. All entries before the last have to be
directories, and the last one too if a directory is asked for. -/
def follow (type : DType) : List Str → Nat → List Dirent → Option Nat
  | [], c, _ => some c
  | name :: rest, _, dents =>
    (named name dents).bind fun dent =>
      if (rest ≠ [] ∨ type = .dir) ∧ dent.dType ≠ .dir then none
      else follow type rest dent.dIno (t.entries none dent.dIno)

/-- The cluster of the entry that a path leads to. -/
def target (path : Str) (type : DType) : Option Nat :=
  t.follow type (components slash path) t.root (t.entries none t.root)

/-- If the path goes on after a file unnoticed: the rest of the path, and the cluster of the file.
-/
def belowFile (type : DType) : List Str → List Dirent → Option (List Str × Nat)
  | [], _ => none
  | name :: rest, dents =>
    (named name dents).bind fun dent =>
      if rest = [] ∨ type = .dir then none
      else if dent.dType = .dir then belowFile type rest (t.entries none dent.dIno)
      else some (rest, dent.dIno)

/-- The loop of `fat_cluster_for_path` ends with a result. -/
def Ends (type : DType) (cs : List Str) (c : Nat) (s : Statics) (r : Nat) : Prop :=
  ∃ fuel s', walkPath (t.part.readdir t.root t.dev fuel) type cs c s = some (r, s')

/-- `fat_cluster_for_path` returns the cluster of the entry, or an error if there is none. -/
def Finds (path : Str) (type : DType) (s : Statics) : Prop :=
  ∃ fuel r s', fatClusterForPath (t.part.readdir t.root t.dev fuel) t.root path type s =
    some (r, s') ∧ IsResult r (t.target path type)

variable {t} {type : DType} {cs : List Str} {c r r' : Nat} {s s' : Statics} {dents : List Dirent}

lemma Ends.unique (h : t.Ends type cs c s r) (h' : t.Ends type cs c s r') : r = r' := by
  obtain ⟨fuel, s₁, ran⟩ := h
  obtain ⟨fuel', s₁', ran'⟩ := h'
  have same := (walkPath_mono (le_max_left fuel fuel') ran).symm.trans
    (walkPath_mono (le_max_right fuel fuel') ran')
  exact (Prod.mk.inj (some.inj same)).1

lemma ends_clean (clean : s.haveLfn = false) (clean' : s'.haveLfn = false) :
    t.Ends type cs c s r ↔ t.Ends type cs c s' r := by
  have same (s s' : Statics) (clean : s.haveLfn = false) (clean' : s'.haveLfn = false)
      (h : t.Ends type cs c s r) : t.Ends type cs c s' r := by
    obtain ⟨fuel, _, ran⟩ := h
    exact ⟨fuel, walkPath_same ⟨clean.trans clean'.symm, fun left => by simp [clean] at left⟩ ran⟩
  exact ⟨same s s' clean clean', same s' s clean' clean⟩

lemma ends_nil : t.Ends type [] c s r ↔ r = c :=
  ⟨fun ⟨_, _, ran⟩ => (Prod.mk.inj (some.inj ran)).1.symm, fun eq => ⟨0, s, by rw [eq]; rfl⟩⟩

/-- It is enough to compare the lookups with many clusters. -/
lemma ends_congr {n : Nat} (cs' : List Str) (c' : Nat) (s' : Statics)
    (same : ∀ fuel, n ≤ fuel → walkPath (t.part.readdir t.root t.dev fuel) type cs c s =
      walkPath (t.part.readdir t.root t.dev fuel) type cs' c' s') :
    t.Ends type cs c s r ↔ t.Ends type cs' c' s' r := by
  constructor
  · rintro ⟨fuel, s₁, ran⟩
    have more := walkPath_mono (le_max_right n fuel) ran
    exact ⟨_, s₁, (same _ (le_max_left n fuel)).symm.trans more⟩
  · rintro ⟨fuel, s₁, ran⟩
    have more := walkPath_mono (le_max_right n fuel) ran
    exact ⟨_, s₁, (same _ (le_max_left n fuel)).trans more⟩

lemma ends_cons {name : Str} {rest : List Str} (isDir : (t.dirs c).isSome) :
    t.Ends type (name :: rest) c s r ↔
      match named name (t.entries s.lfn c) with
      | none => r = notFound
      | some dent =>
        if type = .dir ∧ dent.dType ≠ .dir then r = enotdir
        else t.Ends type rest dent.dIno .boot r := by
  obtain ⟨dir, isDir⟩ := isSome_iff_exists.mp isDir
  obtain ⟨p, parsed, data, left⟩ := dir.parse t.root t.dev le_rfl s
  have entries : t.entries s.lfn c = p.data := by rw [Tree.entries, isDir, data]; rfl
  have read (fuel : Nat) (enough : dir.clusters.length ≤ fuel) :
      t.part.readdir t.root t.dev fuel s c = some (p.data, p.statics) := by
    rw [Partition.readdir, OpenDir.parse_mono enough parsed]
    rfl
  have step (fuel : Nat) (enough : dir.clusters.length ≤ fuel) :
      walkPath (t.part.readdir t.root t.dev fuel) type (name :: rest) c s =
        match named name p.data with
        | none => some (notFound, p.statics)
        | some dent =>
          if type = .dir ∧ dent.dType ≠ .dir then some (enotdir, p.statics)
          else walkPath (t.part.readdir t.root t.dev fuel) type rest dent.dIno p.statics := by
    simp only [walkPath, kassert, if_pos dir.chain.two_le, read fuel enough]
    rfl
  rw [entries]
  cases found : named name p.data with
  | none =>
    simp only [found] at step
    exact (ends_congr [] notFound p.statics step).trans ends_nil
  | some dent =>
    simp only [found] at step ⊢
    split_ifs at step ⊢ with file
    · exact (ends_congr [] enotdir p.statics step).trans ends_nil
    · have clean : p.statics.haveLfn = false := by
        refine left.resolve_left fun empty => ?_
        rw [empty.1] at found
        cases found
      exact (ends_congr rest dent.dIno p.statics step).trans (ends_clean clean rfl)

lemma subdir {name : Str} {dent : Dirent} {pending : Option Name} (isDir : (t.dirs c).isSome)
    (found : named name (t.entries pending c) = some dent) :
    dent.dIno < 0x0ffffff7 ∧ (dent.dType = .dir → (t.dirs dent.dIno).isSome) := by
  obtain ⟨dir, isDir⟩ := isSome_iff_exists.mp isDir
  refine t.subdirs c dir pending isDir dent ?_
  rw [Tree.entries, isDir] at found
  exact mem_of_find?_eq_some found

lemma belowFile_dir (cs : List Str) (dents : List Dirent) : t.belowFile .dir cs dents = none := by
  cases cs with
  | nil => rfl
  | cons name rest => simp [belowFile]

/-- A lookup that does not go on after a file is right. -/
lemma exists_ends (isDir : (t.dirs c).isSome)
    (above : t.belowFile type cs (t.entries s.lfn c) = none) :
    ∃ r, t.Ends type cs c s r ∧ IsResult r (t.follow type cs c (t.entries s.lfn c)) := by
  induction cs generalizing c s with
  | nil => exact ⟨c, ⟨0, s, rfl⟩, rfl⟩
  | cons name rest ih =>
    simp only [ends_cons isDir, follow]
    rw [belowFile] at above
    cases found : named name (t.entries s.lfn c) with
    | none => exact ⟨_, rfl, .inl rfl⟩
    | some dent =>
      simp only [found, bind_some] at above ⊢
      by_cases file : dent.dType = .dir
      · have next := (subdir isDir found).2 file
        simp only [file, ne_eq, not_true_eq_false, and_false, if_false, if_true] at above ⊢
        refine ih (s := .boot) next ?_
        split_ifs at above with last
        · obtain rfl | rfl := last
          · rfl
          · exact belowFile_dir rest _
        · exact above
      · by_cases kind : type = .dir
        · simp only [kind, file, ne_eq, not_false_eq_true, and_self, or_true, if_true]
          exact ⟨_, rfl, .inr rfl⟩
        · obtain rfl : rest = [] := by
            by_contra more
            simp [more, kind, file] at above
          simp only [kind, ne_eq, not_true_eq_false, or_false, false_and, if_false]
          exact ⟨_, ⟨0, .boot, rfl⟩, rfl⟩

/-- A lookup that goes on after a file reads its contents as a directory. -/
lemma ends_below {rest : List Str} {c' : Nat} (isDir : (t.dirs c).isSome)
    (below : t.belowFile type cs (t.entries s.lfn c) = some (rest, c')) :
    t.Ends type cs c s r ↔ t.Ends type rest c' .boot r := by
  induction cs generalizing c s with
  | nil => cases below
  | cons name rest' ih =>
    obtain ⟨dent, found, below⟩ := bind_eq_some_iff.mp below
    rw [ends_cons isDir, found]
    split_ifs at below with last file
    · have kind : ¬ (type = .dir ∧ dent.dType ≠ .dir) := fun h => h.2 file
      simp only [if_neg kind]
      exact ih ((subdir isDir found).2 file) below
    · have kind : ¬ (type = .dir ∧ dent.dType ≠ .dir) := fun h => last (.inr h.1)
      obtain ⟨rfl, rfl⟩ := Prod.mk.inj (some.inj below)
      simp only [if_neg kind]

lemma follow_lt {pending : Option Name} (isDir : (t.dirs c).isSome) (small : c < 0x0ffffff7)
    (h : t.follow type cs c (t.entries pending c) = some r) : r < 0x0ffffff7 := by
  induction cs generalizing c pending with
  | nil => exact some.inj h ▸ small
  | cons name rest ih =>
    obtain ⟨dent, found, h⟩ := bind_eq_some_iff.mp h
    obtain ⟨lt, sub⟩ := subdir isDir found
    split_ifs at h with file
    by_cases last : rest = []
    · subst last
      exact some.inj h ▸ lt
    · have isDir : dent.dType = .dir := by
        by_contra other
        exact file ⟨.inl last, other⟩
      exact ih (sub isDir) lt h

lemma isResult_inj {x y : Option Nat} (hx : ∀ c ∈ x, c < 0x0ffffff7) (hy : ∀ c ∈ y, c < 0x0ffffff7)
    (h : IsResult r x) : IsResult r y ↔ x = y := by
  constructor
  · intro h'
    cases x with
    | none =>
      cases y with
      | none => rfl
      | some c =>
        have lt := hy c rfl
        obtain rfl : r = c := h'
        obtain rfl | rfl := h
        · exact absurd lt (by decide)
        · exact absurd lt (by decide)
    | some c =>
      have lt := hx c rfl
      obtain rfl : r = c := h
      cases y with
      | none =>
        obtain rfl | rfl := h'
        · exact absurd lt (by decide)
        · exact absurd lt (by decide)
      | some c' => exact congrArg some h'
  · rintro rfl
    exact h

lemma fatClusterForPath_eq {path : Str} (nonempty : path ≠ []) (readdir : Readdir) (root : Nat)
    (type : DType) (s : Statics) : fatClusterForPath readdir root path type s =
      walkPath readdir type (components slash (path.take 255)) root s := by
  have len : 1 ≤ path.length := length_pos_iff.mpr nonempty
  by_cases isRoot : path = [slash]
  · subst isRoot
    rfl
  · simp only [fatClusterForPath, kassert, if_pos len, if_neg isRoot, strlcpy, tokens_eq le_rfl]
    rfl

end Tree

/-- The root directory of `shortOnly`. -/
def shortOnlyRoot : DiskDir shortOnly 2 where
  clusters := [2]
  items := [.short fun j => shortOnly.data 2 (0 * 32 + j)]
  ending := (shortOnly.direntries 2).tail
  chain := .last (by decide +kernel)
  readable := rfl
  entries := rfl
  wellFormed := by
    simp only [mem_singleton, forall_eq]
    exact ⟨by decide, by decide +kernel, by decide +kernel, by decide +kernel⟩
  ends := by
    intro e mem
    obtain rfl : (fun j : Fin 32 => shortOnly.data 2 (1 * 32 + j)) = e := some.inj mem
    rfl

def shortOnlyTree : Tree where
  part := shortOnly
  root := 2
  dev := 0
  dirs c := if h : c = 2 then some (h ▸ shortOnlyRoot) else none
  rootDir := rfl
  root_lt := by decide
  subdirs := by
    intro c dir pending isDir dent mem
    split_ifs at isDir with root
    subst root
    obtain rfl := some.inj isDir
    obtain dot | file := mem_append.mp (show dent ∈ dots 2 0 ++ [_] from mem)
    · have ino : dent.dIno = 2 := (by decide : ∀ dent ∈ dots 2 0, dent.dIno = 2) dent dot
      simp [ino]
    · obtain rfl := mem_singleton.mp file
      exact ⟨(by decide +kernel : (Direntry.record 2 0 (fun j => shortOnly.data 2 (0 * 32 + j))
        []).dIno < 0x0ffffff7), nofun⟩

end ExscapeOS.Fat
