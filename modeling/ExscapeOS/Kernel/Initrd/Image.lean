import ExscapeOS.Kernel.Path.Basic

/-!
# The image of the initrd

`create_initrd.py` writes a header for each file and directory, followed by the contents of the
files. The number of a header is its inode number. A directory has no list of its entries: their
headers have the inode number of the directory, and its header has their number. The root directory
is an entry of itself, and so counts itself.
-/
namespace ExscapeOS.Initrd

open Lib ExscapeOS.Path

/-- `File` in the script. -/
structure File where
  parent : Nat
  inode : Nat
  name : Str
  isDir : Bool
  /-- The contents, of a regular file. -/
  data : List UInt8

/-- `initrd_file_header_t`. -/
structure Header where
  parent : Nat
  inode : Nat
  name : Str
  isDir : Bool
  offset : Nat
  length : Nat
  deriving DecidableEq

/-- `struct.calcsize(structstr)`. -/
def sizeofHeader : Nat := 88

/-- The number of entries of a directory. -/
def children (files : List File) (inode : Nat) : Nat := files.countP (·.parent = inode)

/-- The loop that writes the headers. `total` is the length of the contents so far. -/
def writeHeaders (files : List File) : Nat → List File → List Header
  | _, [] => []
  | total, f :: rest =>
    if f.isDir then
      ⟨f.parent, f.inode, f.name, true, 0, children files f.inode⟩ :: writeHeaders files total rest
    else
      ⟨f.parent, f.inode, f.name, false, 4 + sizeofHeader * files.length + total, f.data.length⟩ ::
        writeHeaders files (total + f.data.length) rest

/-- The headers that `create_image` writes. -/
def createImage (files : List File) : List Header := writeHeaders files 0 files

/-- What the script collects. -/
structure Found where
  files : List File
  /-- The number of files is written as an `int`. -/
  few : files.length < 2 ^ 31
  null : files[0]? = some ⟨0, 0, [], true, []⟩
  root : files[1]? = some ⟨1, 1, [slash], true, []⟩
  inode : ∀ (i : Nat) (f : File), files[i]? = some f → f.inode = i
  /-- A directory comes before its entries. -/
  parent : ∀ (i : Nat) (f : File), 2 ≤ i → files[i]? = some f →
    1 ≤ f.parent ∧ f.parent < i ∧ ∃ d, files[f.parent]? = some d ∧ d.isDir
  /-- Names are cut to 63 bytes. -/
  name : ∀ (i : Nat) (f : File), 2 ≤ i → files[i]? = some f → f.name.length ≤ 63 ∧ 0 ∉ f.name ∧
    slash ∉ f.name

/-! ## Lookup -/

/-- The entry of a directory with a name. -/
def findEntry (files : List Header) (dirInode : Nat) (token : Str) : Option Header :=
  (files.drop 1).find? fun h => h.parent = dirInode ∧ h.name = token

/-- The loop of `initrd_opendir` over the components: the directory, and the one it is in. -/
def followTokens (files : List Header) : Nat × Nat → List Str → Option (Nat × Nat)
  | at_, [] => some at_
  | (dirInode, _), token :: rest =>
    match findEntry files dirInode token with
    | none => none
    | some h => if h.isDir then followTokens files (h.inode, h.parent) rest else none

/-- `INITRD_ROOT_INODE`. -/
def rootInode : Nat := 1

/-- The directory that `initrd_opendir` opens. -/
def directoryAt (files : List Header) (path : Str) : Option (Nat × Nat) :=
  followTokens files (rootInode, rootInode) (components slash (strlcpy path (pathMax + 1)))

/-! ## Headers -/

lemma getElem?_writeHeaders {files fs : List File} {total i : Nat} {h : Header}
    (at_ : (writeHeaders files total fs)[i]? = some h) :
    ∃ f, fs[i]? = some f ∧ h.parent = f.parent ∧ h.inode = f.inode ∧ h.name = f.name ∧
      h.isDir = f.isDir ∧ (f.isDir → h.length = children files f.inode) := by
  induction fs generalizing total i with
  | nil => simp [writeHeaders] at at_
  | cons f rest ih =>
    rw [writeHeaders] at at_
    split at at_
    all_goals
      rename_i dir
      cases i with
      | zero =>
        rw [List.getElem?_cons_zero, Option.some.injEq] at at_
        subst at_
        exact ⟨f, rfl, rfl, rfl, rfl, by simp [dir], by simp [dir]⟩
      | succ i =>
        rw [List.getElem?_cons_succ] at at_
        exact ih at_

lemma map_parent_writeHeaders (files : List File) (total : Nat) (fs : List File) :
    (writeHeaders files total fs).map Header.parent = fs.map File.parent := by
  induction fs generalizing total with
  | nil => rfl
  | cons f rest ih =>
    rw [writeHeaders]
    split <;> simp [ih]

lemma length_createImage (files : List File) : (createImage files).length = files.length := by
  simpa [createImage] using congrArg List.length (map_parent_writeHeaders files 0 files)

end ExscapeOS.Initrd
