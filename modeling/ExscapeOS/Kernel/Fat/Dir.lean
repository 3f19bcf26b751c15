import Mathlib.Tactic
import Mathlib.Data.List.DropRight
import ExscapeOS.Lib.Loop
import ExscapeOS.Kernel.Dirent

/-!
# FAT directories

`fat_parse_dir` of `kernel/fat/dir.c` follows the cluster chain of a directory and calls a function
for every entry. A long name is spread over the entries in front of the one it belongs to. It is
collected in a `static` buffer. The flag `have_lfn` is `static` too: both are left to the next call.

Entries are 32 bytes, read as `fat32_direntry_t` or as `fat32_lfn_t`. For a long-name entry with a
number that is 0 or too large, the copy goes to the memory around the buffer.
-/
namespace ExscapeOS.Fat

open Lib

/-! ## The partition -/

/-- `struct fat32_partition`, with the disk behind it. -/
structure Partition where
  /-- The file allocation table. -/
  fat : Nat → UInt32
  /-- The bytes of a cluster. -/
  data : Nat → Nat → UInt8
  /-- `disk_read` succeeds for a cluster. -/
  readable : Nat → Bool
  sectorsPerCluster : Nat
  pos : 0 < sectorsPerCluster

def fatNextCluster (part : Partition) (cluster : Nat) : Option Nat :=
  if cluster < 2 then none else some (part.fat cluster &&& 0x0fffffff).toNat

/-- `fat_read_next_cluster`: the cluster that was read, or `none` at the end of the chain. -/
def fatReadNextCluster (part : Partition) (cluster : Nat) : Option (Option Nat) :=
  (fatNextCluster part cluster).bind fun next =>
    if next = 0x0ffffff7 then none
    else if 0x0ffffff8 ≤ next then some none
    else if 2 ≤ next ∧ part.readable next then some (some next)
    else none

/-! ## Entries -/

abbrev Name : Type := List UInt8

abbrev Direntry : Type := Fin 32 → UInt8

scoped instance neZero_sizeofDirentry : NeZero 32 := ⟨by decide⟩

namespace Direntry

variable (e : Direntry)

def attrib : UInt8 := e 11

/-- `name[11]`. -/
def name : Name := (List.finRange 11).map fun i => e (i.castLE (by decide))

def dataCluster : Nat :=
  ((e 21).toNat * 256 + (e 20).toNat) * 65536 + ((e 27).toNat * 256 + (e 26).toNat)

def fileSize : Nat :=
  (((e 31).toNat * 256 + (e 30).toNat) * 256 + (e 29).toNat) * 256 + (e 28).toNat

def isDir : Bool := e.attrib &&& 0x10 ≠ 0

/-- `fat32_lfn_t`: `name_1`, `name_2` and `name_3`. -/
def lfnChars : List UInt16 :=
  ([1, 3, 5, 7, 9, 14, 16, 18, 20, 22, 24, 28, 30] : List (Fin 32)).map fun i =>
    (e i).toUInt16 ||| (e (i + 1)).toUInt16 <<< 8

end Direntry

/-- The entries of a cluster. -/
def Partition.direntries (part : Partition) (cluster : Nat) : List Direntry :=
  (List.range (part.sectorsPerCluster * 16)).map fun i j => part.data cluster (i * 32 + j)

/-! ## Names -/

/-- `c > 0x20`, for a `char`, which is signed. -/
def visible (c : UInt8) : Bool := 0x20 < c ∧ c < 0x80

/-- `fat_parse_short_name`, for a buffer that is filled with zeros. -/
def fatParseShortName (name : Name) : Option Name :=
  match name with
  | [] => some []
  | first :: _ =>
    if first = 0 then some []
    else if ¬ (visible first ∨ first = 0x05) then none
    else
      let buf := (if first = 0x05 then 0xe5 else first) :: name.tail
      let ext := (buf.drop 8).takeWhile visible
      let base := (buf.take 8).rdropWhile (· = 0x20)
      some ((base ++ if ext = [] then [] else 0x2e :: ext).takeWhile (· ≠ 0))

def parseLfn (lfnBuf : Int → UInt16) : Name :=
  (((List.range 256).map fun i : Nat => lfnBuf i).takeWhile fun c => c ≠ 0 ∧
    c ≠ 0xffff).map fun c =>
    if c &&& 0xff80 = 0 then c.toUInt8 else 0x5f

/-! ## Parsing -/

/-- The `static` variables of `fat_parse_dir`. -/
structure Statics where
  lfnBuf : Int → UInt16
  haveLfn : Bool
  lfnEntryNum : UInt8

def Statics.boot : Statics := { lfnBuf := fun _ => 0, haveLfn := false, lfnEntryNum := 0 }

/-- The long name that has been collected. -/
def Statics.lfn (s : Statics) : Option Name :=
  if s.haveLfn then some (parseLfn s.lfnBuf) else none

/-- The function called for every entry, with the long name if there is one. It changes its own data
and says whether to go on. There is no result if it fails an assertion. -/
abbrev Callback (σ : Type) : Type := σ → Direntry → Option Name → Option (σ × Bool)

structure Parse (σ : Type) where
  statics : Statics
  data : σ
  /-- The calls so far. -/
  calls : List (Direntry × Option Name)

/-- `memset` of the buffer. -/
def clearLfn (lfnBuf : Int → UInt16) : Int → UInt16 := fun i =>
  if 0 ≤ i ∧ i < 256 then 0 else lfnBuf i

/-- `memcpy` of thirteen characters to the buffer. -/
def copyLfn (offset : Int) (chars : List UInt16) (lfnBuf : Int → UInt16) : Int → UInt16 := fun i =>
  if offset ≤ i ∧ i < offset + 13 then chars.getD (i - offset).toNat 0 else lfnBuf i

/-- An entry that holds a part of a long name. -/
def lfnEntry (e : Direntry) (s : Statics) : Statics :=
  let s := if e 0 &&& 0x40 ≠ 0 then { s with haveLfn := true, lfnBuf := clearLfn s.lfnBuf } else s
  let num := e 0 &&& 0x3f
  { s with lfnEntryNum := num, lfnBuf := copyLfn ((num.toNat - 1 : Int) * 13) e.lfnChars s.lfnBuf }

variable {σ : Type}

/-- One round of the loop of `fat_parse_dir`, and whether to go on. -/
def parseEntry (callback : Callback σ) (e : Direntry) (p : Parse σ) : Option (Parse σ × Bool) :=
  if e 0 = 0xe5 then some (p, true)
  else if e.attrib &&& 0x08 ≠ 0 ∧ e.attrib ≠ 0x0f then some (p, true)
  else if e.attrib = 0x0f then some ({ p with statics := lfnEntry e p.statics }, true)
  else
    (callback p.data e p.statics.lfn).map fun (data, more) =>
      let p := { p with data := data, calls := p.calls ++ [(e, p.statics.lfn)] }
      -- the flag is only reset if the parse goes on
      if more then ({ p with statics := { p.statics with haveLfn := false } }, true) else (p, false)

/-- The entry is deleted, a label or a part of a long name, and not passed on. -/
def Direntry.hidden (e : Direntry) : Bool :=
  e 0 = 0xe5 ∨ e.attrib &&& 0x08 ≠ 0 ∧ e.attrib ≠ 0x0f ∨ e.attrib = 0x0f

/-- The entries of a cluster, up to the end of the directory. -/
def parseEntries (callback : Callback σ) : List Direntry → Parse σ → Option (Parse σ × Bool)
  | [], p => some (p, true)
  | e :: rest, p =>
    if e 0 = 0 then some (p, false)
    else
      (parseEntry callback e p).bind fun (p, more) =>
        if more then parseEntries callback rest p else some (p, false)

/-- A cluster of the directory. The result is missing if the kernel panics. -/
def parseCluster (part : Partition) (callback : Callback σ) (s : Nat × Parse σ) :
    (Nat × Parse σ) ⊕ Option (Parse σ) :=
  match parseEntries callback (part.direntries s.1) s.2 with
  | none => .inr none
  | some (p, false) => .inr (some p)
  | some (p, true) =>
    match fatReadNextCluster part s.1 with
    | none => .inr none
    | some none => .inr (some p)
    | some (some next) => .inl (next, p)

/-- The state of `fat_parse_dir` at the first cluster. -/
def Parse.start (s : Statics) (data : σ) : Parse σ := { statics := s, data := data, calls := [] }

/-- `fat_parse_dir`, if it ends within `fuel` clusters. -/
def fatParseDir (fuel : Nat) (part : Partition) (callback : Callback σ) (ino : Nat) (s : Statics)
    (data : σ) : Option (Option (Parse σ)) :=
  if 2 ≤ ino ∧ part.readable ino then loop (parseCluster part callback) fuel (ino, .start s data)
  else some none

/-! ## `fat_callback_stat` -/

def tolower (c : UInt8) : UInt8 := if 0x41 ≤ c ∧ c ≤ 0x5a then c ||| 0x20 else c

/-- `stricmp(s1, s2) == 0`. -/
def stricmp (s1 s2 : Name) : Bool := s1.map tolower = s2.map tolower

/-- `struct stat`, without the times. -/
structure Stat where
  stDev : Nat
  stIno : Nat
  stMode : Nat
  stNlink : Nat
  stSize : Nat
  stBlksize : Nat
  stBlocks : Nat
  deriving DecidableEq

def ifDir : Nat := 0o040000
def ifReg : Nat := 0o100000

/-- `struct stat_callback_data`: the name, and the result if it has been found. -/
structure StatData where
  file : Name
  st : Option Stat

/-- The name of an entry: the first 255 characters of the long one. -/
def Direntry.displayName (e : Direntry) (lfn : Option Name) : Option Name :=
  match lfn with
  | some lfn => some (lfn.take 255)
  | none => fatParseShortName e.name

/-- What `fat_callback_stat` fills in. -/
def Direntry.stat (part : Partition) (dev : Nat) (e : Direntry) : Stat :=
  let clusterSize := part.sectorsPerCluster * 512
  let blksize := if 16384 < clusterSize then clusterSize else 16384
  { stDev := dev
    stIno := e.dataCluster
    stMode := 0o777 ||| if e.isDir then ifDir else ifReg
    stNlink := 1
    stSize := if e.isDir then 0 else e.fileSize
    stBlksize := blksize
    stBlocks := if e.isDir then 1
      else e.fileSize / blksize + if e.fileSize % blksize ≠ 0 then 1 else 0 }

def fatCallbackStat (part : Partition) (dev : Nat) : Callback StatData := fun data e lfn =>
  (e.displayName lfn).map fun name =>
    if stricmp name data.file then ({ data with st := some (e.stat part dev) }, false)
    else (data, true)

/-! ## `fat_callback_create_dentries` -/

/-- The `struct dirent` for an entry. `..` of a directory in the root has cluster 0. -/
def Direntry.dirent (root dev : Nat) (e : Direntry) (shortName : Name) (lfn : Option Name) :
    Dirent where
  dIno := if e.dataCluster = 0 ∧ shortName = [0x2e, 0x2e] then root else e.dataCluster
  dDev := dev
  dType := if e.isDir then .dir else .reg
  dName := (lfn.getD shortName).take 255
  short := List.length_take_le _ _

/-- `.` and `..` of the root directory. -/
def dots (root dev : Nat) : List Dirent :=
  [⟨root, dev, .dir, [0x2e], by decide⟩, ⟨root, dev, .dir, [0x2e, 0x2e], by decide⟩]

/-- `fat_callback_create_dentries`, for the directory at cluster `ino`. -/
def fatCallbackCreateDentries (root dev ino : Nat) : Callback (List Dirent) := fun dents e lfn =>
  (fatParseShortName e.name).map fun shortName =>
    let dents := if dents = [] ∧ ino = root then dots root dev else dents
    (dents ++ [e.dirent root dev shortName lfn], true)

/-- An open directory, with the first cluster of the root of its partition. -/
structure OpenDir where
  part : Partition
  root : Nat
  dev : Nat
  ino : Nat

/-- The records of the directory. -/
def OpenDir.parse (dir : OpenDir) (fuel : Nat) (s : Statics) :
    Option (Option (Parse (List Dirent))) :=
  fatParseDir fuel dir.part (fatCallbackCreateDentries dir.root dir.dev dir.ino) dir.ino s []

end ExscapeOS.Fat
