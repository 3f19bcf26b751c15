import ExscapeOS.Lib.Batch

/-!
# `struct dirent`

The records that `getdents` copies to a program. A record is as long as its name requires, with
padding to a multiple of four bytes.
-/
namespace ExscapeOS

open Lib

inductive DType where
  | unknown | fifo | chr | dir | blk | reg | lnk | sock
  deriving DecidableEq

structure Dirent where
  dIno : Nat
  dDev : Nat
  dType : DType
  dName : List UInt8
  /-- `d_namlen` is a byte. -/
  short : dName.length ≤ 255
  deriving DecidableEq

/-- The length of a record: the fixed fields, the name, a zero and padding. -/
def direntLen (namlen : Nat) : Nat :=
  let len := 12 + namlen + 1
  if len % 4 ≠ 0 then len / 4 * 4 + 4 else len

def Dirent.dReclen (dent : Dirent) : Nat := direntLen dent.dName.length

lemma direntLen_mod (namlen : Nat) : direntLen namlen % 4 = 0 := by
  simp only [direntLen]
  split_ifs <;> omega

lemma direntLen_pos (namlen : Nat) : 0 < direntLen namlen := by
  simp only [direntLen]
  split_ifs <;> omega

lemma direntLen_le {namlen : Nat} (short : namlen ≤ 255) : direntLen namlen ≤ 268 := by
  simp only [direntLen]
  split_ifs <;> omega

/-- `-EINVAL`. -/
def einval : Int := -22

/-- What the `getdents` functions have in common. -/
def getdentsReader : Reader Dirent where
  size := Dirent.dReclen
  pos dent := direntLen_pos _
  least := 128
  error := einval
  neg := by decide
  big := 268
  fits dent := direntLen_le dent.short
  least_le := by decide

@[simp] lemma getdentsReader_least : getdentsReader.least = 128 := rfl

end ExscapeOS
