import ExscapeOS.Kernel.Ext2.Listing
import ExscapeOS.Kernel.Fat.Getdents

/-!
# Lists of directories

Both file systems fail with `-EINVAL` if `getdents` comes to a record that is larger than the
buffer, also after it has copied others. The position has been moved past those, and the program
never sees them.
-/
namespace ExscapeOS

open Lib

/-- A part of a long name: thirteen letters `b`. -/
def lfnByte (num : UInt8) (i : Nat) : UInt8 :=
  if i = 0 then num
  else if i = 11 then 0x0f
  else if i ∈ [1, 3, 5, 7, 9, 14, 16, 18, 20, 22, 24, 28, 30] then 0x62
  else 0

def shortByte (letter : UInt8) (i : Nat) : UInt8 :=
  if i = 0 then letter else if i < 11 then 0x20 else 0

/-- The root directory of a FAT partition, with `A` and 130 letters. -/
def fatLongName : Fat.OpenFile where
  part := {
    fat := fun _ => 0x0fffffff
    data := fun _ i =>
      match i / 32 with
      | 0 => shortByte 0x41 (i % 32)
      | 1 => lfnByte 0x4a (i % 32)
      | 11 => shortByte 0x42 (i % 32)
      | n => if n < 11 then lfnByte (11 - n).toUInt8 (i % 32) else 0
    readable := fun _ => true
    sectorsPerCluster := 1
    pos := Nat.one_pos }
  root := 2
  dev := 0
  ino := 2
  path := [0x2f]
  mountpoints := [⟨.fat, [0x2f], 0⟩]

/-- An ext2 directory with `a` and a name of 120 letters. -/
def ext2LongName : Ext2.Directory (Ext2.oneBlock
    ([11, 0, 0, 0, 12, 0, 1, 1, 0x61, 0, 0, 0, 12, 0, 0, 0, 0xf4, 3, 120, 1] ++
      .replicate 120 0x62)) where
  toFile := Ext2.oneBlockFile _
  memory := Ext2.zeroLength
  same_blocksize := Ext2.blocksize_zeroLength _
  allocated := by decide +kernel
  records := [[Ext2.recordA,
    ⟨12, 1012, 1, .replicate 120 0x62, by decide, by decide, by decide⟩]]
  tiled := by
    refine ⟨⟨⟨?_, ?_, ?_, ?_, ?_⟩, ⟨?_, ?_, ?_, ?_, ?_⟩, rfl⟩, rfl⟩
    all_goals decide +kernel

end ExscapeOS
