import ExscapeOS.Kernel.Fat.Stat

/-!
# `fat_getdents`

The first call finds out with `fat_fstat` whether the file is a directory, and parses it to a buffer
of `struct dirent`s, which the calls copy to the program. `file->data` keeps the buffer and the
position in it, given here as the records that are left.

If the directory has a long name, `fat_fstat` leaves it behind, and the first entry is listed under
this name. The root directory has no `.` and `..`: they are added in front of its first entry. If
there is none, there is no buffer either, and every call returns -1.
-/
namespace ExscapeOS.Fat

open Lib List Option

/-- The loop of `fat_getdents`. -/
def fatFill (count : Nat) : List Dirent → Nat → List Dirent → Option (Reply Dirent × List Dirent)
  | [], written, copied => do
    kassert (written ≠ 0)
    return (⟨written, copied⟩, [])
  | dent :: rest, written, copied =>
    if count < written + dent.dReclen then
      some (⟨if count < dent.dReclen then einval else written, copied⟩, dent :: rest)
    else fatFill count rest (written + dent.dReclen) (copied ++ [dent])

/-- `file->data`: nothing, a directory without buffer, or one with the records that are left. -/
inductive DirData where
  | null
  | opened
  | records (left : List Dirent)

/-- `fat_getdents`, with the variables of `fat_parse_dir`. There is no reply if the kernel panics,
or a parse does not end within `fuel` clusters. -/
def OpenFile.fatGetdents (file : OpenFile) (fuel : Nat) (count : Int) (s : Statics × DirData) :
    Option (Reply Dirent × Statics × DirData) :=
  if count < 128 then some (⟨einval, []⟩, s)
  else
    match s.2 with
    | .null => do
      let (r, statics) ← file.fatFstat fuel s.1
      -- the result is not looked at: the variable may not have been set
      let st ← r.buf
      if st.isDir then parse statics
      else return (⟨-20, []⟩, statics, .null)
    | .opened => parse s.1
    | .records [] => some (⟨0, []⟩, s.1, .null)
    | .records (dent :: rest) => copy s.1 (dent :: rest)
where
  copy (statics : Statics) (left : List Dirent) : Option (Reply Dirent × Statics × DirData) :=
    (fatFill count.toNat left 0 []).map fun (r, left) => (r, statics, .records left)
  parse (statics : Statics) : Option (Reply Dirent × Statics × DirData) := do
    let p ← (file.toOpenDir.parse fuel statics).join
    if p.data = [] then return (⟨-1, []⟩, p.statics, .opened)
    else copy p.statics p.data

lemma fatFill_eq {count written : Nat} {dents copied : List Dirent} (le : written ≤ count)
    (some_left : dents = [] → written ≠ 0) :
    fatFill count dents written copied = getdentsReader.fill false count dents written copied := by
  induction dents generalizing written copied with
  | nil => simp [fatFill, Reader.fill, kassert, some_left rfl]
  | cons dent rest ih =>
    have pos := direntLen_pos dent.dName.length
    by_cases large : count < written + dent.dReclen
    · rw [fatFill, if_pos large, Reader.fill_of_lt large]
      rfl
    · rw [fatFill, if_neg large, Reader.fill_of_le large]
      refine ih (not_lt.mp large) fun _ => ?_
      unfold Dirent.dReclen
      omega

/-- An open directory. -/
structure Directory extends OpenFile where
  dir : DiskDir part ino

namespace Directory

variable (d : Directory)

/-- The entries, as they are named if a long name is pending. -/
def entries (pending : Option Name) : List Dirent := d.dir.records d.root d.dev pending

/-- The directory has entries, `fat_fstat` finds that it is one, and a long name that is left behind
then makes no difference. -/
def Ready (fuel : Nat) (s : Statics) : Prop :=
  d.entries none ≠ [] ∧ ∃ r st s', d.fatFstat fuel s = some (r, s') ∧ r.buf = some st ∧ st.isDir ∧
    d.entries s'.lfn = d.entries none

variable {d} {fuel : Nat} {s s' : Statics} {r : StatReply} {st : Stat}

lemma parse_eq (enough : d.dir.clusters.length ≤ fuel) (s : Statics) :
    ∃ p, d.toOpenDir.parse fuel s = some (some p) ∧ p.data = d.entries s.lfn := by
  obtain ⟨p, parsed, data, -⟩ := d.dir.parse d.root d.dev enough s
  exact ⟨p, parsed, data⟩

/-- The replies of a directory with entries are those of a reader. -/
lemma listing_eq (enough : d.dir.clusters.length ≤ fuel) (stat : d.fatFstat fuel s = some (r, s'))
    (buf : r.buf = some st) (isDir : st.isDir) (some_data : d.entries s'.lfn ≠ []) (cs : List Int) :
    listing (d.fatGetdents fuel) cs (s, .null) =
      listing (getdentsReader.read false) cs (d.entries s'.lfn) := by
  obtain ⟨p, parsed, data⟩ := parse_eq enough s'
  rw [← data] at some_data ⊢
  refine listing_congr (R := fun x es => x = (s, .null) ∧ es = p.data ∨ x.2 = .records es) cs
    (.inl ⟨rfl, rfl⟩) ?_
  rintro c x es related
  -- the records that are left stay in the buffer
  have copy (statics : Statics) (dents : List Dirent) (some_left : dents ≠ []) :
      Lockstep (fun x y => x.1 = y.1 ∧ (x.1.ret ≠ 0 →
          x.2 = (s, .null) ∧ y.2 = p.data ∨ x.2.2 = .records y.2))
        (OpenFile.fatGetdents.copy c statics dents)
        (getdentsReader.fill false c.toNat dents 0 []) := by
    rw [OpenFile.fatGetdents.copy, fatFill_eq (Nat.zero_le _) fun none_left =>
      absurd none_left some_left]
    cases getdentsReader.fill false c.toNat dents 0 [] with
    | none => exact .stop
    | some x => exact .both ⟨rfl, fun _ => .inr rfl⟩
  unfold OpenFile.fatGetdents Reader.read
  by_cases small : c < 128
  · rw [if_pos small, getdentsReader_least, if_pos small]
    exact .both ⟨rfl, fun _ => related⟩
  · rw [if_neg small, getdentsReader_least, if_neg small]
    obtain ⟨rfl, rfl⟩ | left := related
    · simpa [stat, buf, isDir, OpenFile.fatGetdents.parse, parsed, some_data] using
        copy p.statics p.data some_data
    · rw [left]
      cases es with
      | nil => exact .both ⟨rfl, fun goes_on => absurd rfl goes_on⟩
      | cons dent rest => exact copy x.1 (dent :: rest) (List.cons_ne_nil _ _)

/-- A call that gets nowhere at the start fails with an error of its own. -/
lemma exists_stat (enough : d.dir.clusters.length ≤ fuel) {all : List Dirent} {counts : List Int}
    (complete : Complete einval (d.fatGetdents fuel) (s, .null) all (counts ++ [268])) :
    ∃ r st s', d.fatFstat fuel s = some (r, s') ∧ r.buf = some st ∧ st.isDir ∧
      d.entries s'.lfn ≠ [] := by
  by_contra unready
  refine absurd complete (not_complete_of_bad (by decide) (by decide) (fun c small => if_pos small)
    (fun c reply x (ge : 128 ≤ c) called => ?_) counts)
  simp only [OpenFile.fatGetdents, if_neg (not_lt.mpr ge), bind_eq_bind, bind_eq_some_iff] at called
  obtain ⟨⟨r, s'⟩, stat, st, buf, called⟩ := called
  split_ifs at called with isDir
  · obtain ⟨p, parsed, data⟩ := parse_eq enough s'
    have empty : p.data = [] := by
      by_contra some_data
      exact unready ⟨r, st, s', stat, buf, isDir, data ▸ some_data⟩
    obtain ⟨rfl, -⟩ : _ = reply ∧ _ := by
      simpa [OpenFile.fatGetdents.parse, parsed, empty] using called
    decide
  · obtain ⟨rfl, -⟩ := Prod.mk.inj (some.inj called)
    decide

/-- The caller gets all entries, whatever calls with a large buffer follow, exactly if the first
call finds the directory and no call fails after it has copied something. -/
lemma complete_iff (enough : d.dir.clusters.length ≤ fuel) (s : Statics) (counts : List Int) :
    (∀ more : List Int, (∀ c ∈ more, 268 ≤ c) →
      Complete einval (d.fatGetdents fuel) (s, .null) (d.entries none) (counts ++ more)) ↔
      d.Ready fuel s ∧ getdentsReader.LosslessRun counts (d.entries none) := by
  have reader (s' : Statics) := Reader.complete_iff (R := getdentsReader) false counts
    (d.dir.length_records d.root d.dev s'.lfn).le
  constructor
  · intro complete
    obtain ⟨r, st, s', stat, buf, isDir, some_data⟩ := exists_stat enough (complete [268] (by simp))
    obtain ⟨-, eq, lossless⟩ := (reader s').mp fun more large =>
      (complete more large).congr (listing_eq enough stat buf isDir some_data _)
    have eq : d.entries s'.lfn = d.entries none := eq
    exact ⟨⟨eq ▸ some_data, r, st, s', stat, buf, isDir, eq⟩, eq ▸ lossless⟩
  · rintro ⟨⟨some_data, r, st, s', stat, buf, isDir, eq⟩, lossless⟩ more large
    rw [← eq] at some_data lossless
    exact ((reader s').mpr ⟨rfl, eq, lossless⟩ more large).congr
      (listing_eq enough stat buf isDir some_data _).symm

end Directory

end ExscapeOS.Fat
