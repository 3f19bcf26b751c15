import ExscapeOS.Lib.Loop
import ExscapeOS.Kernel.Dirent

/-!
# ext2 directories

A directory is read to a buffer as a whole. It is then walked from record to record, by
`_inode_for_path` in search of a name and by `ext2_getdents` for a list. The length of a record is
what the disk says. A record with inode 0 is taken for an empty block.

The bytes after the buffer are those of other blocks, up to the first page that is not mapped.
Offsets are `uint32`.
-/
namespace ExscapeOS.Ext2

open Lib

abbrev Name : Type := List UInt8

/-- The buffer of `ext2_read_file`, for a directory. -/
structure DirBuf where
  /-- The byte at an offset, if it is mapped. -/
  mem : Nat → Option UInt8
  extent : Nat
  unmapped : ∀ i, extent ≤ i → mem i = none
  /-- `i_size`. -/
  len : Nat
  blocksize : Nat
  pos : 0 < blocksize
  /-- The memory of the kernel ends well below the last address. -/
  small : extent + blocksize ≤ wordSize ∧ extent + 65536 ≤ wordSize

def readBytes (mem : Nat → Option UInt8) : Nat → Nat → Option Name
  | _, 0 => some []
  | i, n + 1 => (mem i).bind fun b => (readBytes mem (i + 1) n).map (b :: ·)

lemma readBytes_length {mem : Nat → Option UInt8} {i n : Nat} {bs : Name}
    (h : readBytes mem i n = some bs) : bs.length = n := by
  induction n generalizing i bs with
  | zero =>
    obtain rfl : [] = bs := by simpa [readBytes] using h
    rfl
  | succ n ih =>
    obtain ⟨b, -, h⟩ := Option.bind_eq_some_iff.mp h
    obtain ⟨bs, rest, rfl⟩ := Option.map_eq_some_iff.mp h
    simp [ih rest]

/-- `memcmp(s, mem + i, strlen(s)) == 0`, which reads no further than the first difference. -/
def memcmp (mem : Nat → Option UInt8) : Nat → Name → Option Bool
  | _, [] => some true
  | i, c :: cs => (mem i).bind fun b => if c = b then memcmp mem (i + 1) cs else some false

namespace DirBuf

variable (d : DirBuf)

/-! ## `ext2_direntry_t` -/

def inode (i : Nat) : Option Nat := do
  let b0 ← d.mem i
  let b1 ← d.mem (i + 1)
  let b2 ← d.mem (i + 2)
  let b3 ← d.mem (i + 3)
  return ((b3.toNat * 256 + b2.toNat) * 256 + b1.toNat) * 256 + b0.toNat

def recLen (i : Nat) : Option Nat := do
  let b0 ← d.mem (i + 4)
  let b1 ← d.mem (i + 5)
  return b1.toNat * 256 + b0.toNat

def nameLen (i : Nat) : Option UInt8 := d.mem (i + 6)

def fileType (i : Nat) : Option UInt8 := d.mem (i + 7)

/-! ## The search of `_inode_for_path` -/

/-- The name of a record is `curEntry`. -/
def sameName (curEntry : Name) (i : Nat) : Option Bool := do
  let n ← d.nameLen i
  if curEntry.length = n.toNat then memcmp d.mem (i + 8) curEntry else return false

inductive Lookup where
  | found (i : Nat)
  | notFound
  deriving DecidableEq

/-- The condition at the end of the loop. -/
def goOn (i : Nat) : Nat ⊕ Lookup := if i < d.len then .inl i else .inr .notFound

def lookupRound (curEntry : Name) (i : Nat) : Option (Nat ⊕ Lookup) := do
  -- "read past end of directory"
  kassert (i < d.len)
  if (← d.inode i) = 0 then
    kassert (i % d.blocksize = 0)
    return d.goOn (add32 i d.blocksize)
  else if ← d.sameName curEntry i then
    return .inr (.found i)
  else
    return d.goOn (add32 i (← d.recLen i))

/-- The search for a name, within `fuel` rounds. There is no record if the kernel panics. -/
def lookup (fuel : Nat) (curEntry : Name) : Option (Option Lookup) :=
  loop (attempt (d.lookupRound curEntry)) fuel 0

/-! ## `ext2_getdents` -/

def dType (fileType : UInt8) : DType :=
  match fileType.toNat with
  | 1 => .reg
  | 2 => .dir
  | 3 => .chr
  | 4 => .blk
  | 5 => .fifo
  | 6 => .sock
  | 7 => .lnk
  | _ => .unknown

/-- The `struct dirent` for a record. -/
def dirent (dev i : Nat) : Option Dirent := do
  let inode ← d.inode i
  let n ← d.nameLen i
  let fileType ← d.fileType i
  match name : readBytes d.mem (i + 8) n.toNat with
  | none => none
  | some name' => some {
      dIno := inode
      dDev := dev
      dType := dType fileType
      dName := name'
      short := by
        have := n.toNat_lt
        rw [readBytes_length name]
        omega }

/-- `entry_len`: the record ends at a multiple of 4 in the buffer. -/
def entryLen (written nameLen : Nat) : Nat :=
  let len := 12 + nameLen + 1
  if (written + len) % 4 ≠ 0 then len / 4 * 4 + 4 else len

structure Getdents where
  pos : Nat
  written : Nat
  dents : List Dirent

/-- One round of the loop. The result has the new position too. -/
def getdentsRound (dev count : Nat) (s : Getdents) :
    Option (Getdents ⊕ (Reply Dirent × Nat)) := do
  if d.len ≤ s.pos then
    return .inr (⟨s.written, s.dents⟩, s.pos)
  else if (← d.inode s.pos) = 0 then
    kassert (s.pos % d.blocksize = 0)
    let pos := add32 s.pos d.blocksize
    if d.len ≤ pos then
      return .inr (⟨s.written, s.dents⟩, pos)
    else
      return .inl { s with pos := pos }
  else
    let nameLen ← d.nameLen s.pos
    kassert (nameLen ≠ 0)
    let recLen ← d.recLen s.pos
    kassert (8 < recLen)
    let len := entryLen s.written nameLen.toNat
    kassert ((s.written + len) % 4 = 0 ∧ len ≤ 12 + nameLen.toNat + 1 + 3)
    if count < s.written + len then
      return .inr (⟨if count < len then einval else s.written, s.dents⟩, s.pos)
    else
      let dent ← d.dirent dev s.pos
      return .inl
        { pos := add32 s.pos recLen, written := s.written + len, dents := s.dents ++ [dent] }

/-- `ext2_getdents` at a position, within `fuel` rounds: the reply and the new position. There is no
reply if the kernel panics. -/
def ext2Getdents (fuel dev : Nat) (count : Int) (pos : Nat) :
    Option (Option (Reply Dirent × Nat)) :=
  if count < 128 then some (some (⟨einval, []⟩, pos))
  else if d.len ≠ 0 ∧ d.len ≤ pos then some (some (⟨0, []⟩, pos))
  else if d.len ≤ pos then some none
  else loop (attempt (d.getdentsRound dev count.toNat)) fuel ⟨pos, 0, []⟩

end DirBuf

end ExscapeOS.Ext2
