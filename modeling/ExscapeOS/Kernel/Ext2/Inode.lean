import ExscapeOS.Kernel.Ata

/-!
# `ext2_read_inode`

The number of an inode gives its block group and its index there, and these give a sector and an
offset in it. The number of the sector is computed in 32 bits, and `ata_read` sends 28 bits of it to
the device: for an inode behind the first 128 GiB, another sector is read.
-/
namespace ExscapeOS.Ext2

open Lib Ata

/-- What `ext2_read_inode` uses of an `ext2_partition_t`, for an ext2 file system. -/
structure Geometry where
  dev : Device
  startLba : Nat
  totalSectors : Nat
  /-- `s_log_block_size`. -/
  logBlockSize : Nat
  /-- `s_inodes_per_group`. -/
  inodesPerGroup : Nat
  /-- `bg_inode_table` of each block group. -/
  inodeTables : List Nat
  log_le : logBlockSize ≤ 2
  inodes_pos : 0 < inodesPerGroup
  /-- The bitmap of the inodes of a group is one block. -/
  inodes_le : inodesPerGroup ≤ 8 * (1024 * 2 ^ logBlockSize)
  tables_inside : ∀ table ∈ inodeTables,
    table * (1024 * 2 ^ logBlockSize) + inodesPerGroup * 128 ≤ totalSectors * 512
  on_device : startLba + totalSectors ≤ dev.size
  size_lt : dev.size < 2 ^ 64
  transfers : 0 < dev.maxSectorsMultiple.toNat

namespace Geometry

variable (part : Geometry)

def blocksize : Nat := 1024 * 2 ^ part.logBlockSize

def blockToAbsLba (block : Nat) : Nat :=
  let sectorsPerBlock := part.blocksize / 512
  add32 part.startLba (block * sectorsPerBlock % wordSize)

def bgrpForInode (inode : Nat) : Nat := (inode - 1) / part.inodesPerGroup

def localIndexForInode (inode : Nat) : Nat := (inode - 1) % part.inodesPerGroup

/-- `ext2_read_inode`: where on the device the copied bytes are. `inodeBuf` is the buffer for the
sector. -/
def ext2ReadInode (inode inodeBuf : Nat) : Option (List Nat) := do
  kassert (2 ≤ inode)
  let index := part.localIndexForInode inode
  let inodeTableBlock ← part.inodeTables[part.bgrpForInode inode]?
  let offset := index * 128 % wordSize
  let blockOffset := offset / part.blocksize
  let offset := offset % part.blocksize
  kassert (offset % 128 = 0)
  let lba := add32 (part.blockToAbsLba (add32 inodeTableBlock blockOffset)) (offset / 512)
  let commands ← ataRead part.dev lba inodeBuf 1
  let (sector, _) ← (commands.flatMap Command.transfers).head?
  return (List.range 128).map fun i => sector * 512 + (offset % 512 + i)

/-- Where on the device an inode is. -/
def inodeAt (table inode : Nat) : Nat :=
  part.startLba * 512 + table * part.blocksize + part.localIndexForInode inode * 128

lemma ataRead_one {dev : Device} {lba buffer : Nat} (reaches : lba < dev.size)
    (small : dev.size < 2 ^ 64)
    (some_limit : 0 < dev.maxSectorsMultiple.toNat) (some_buffer : 0 < buffer)
    (room : buffer < wordSize) : ataRead dev lba buffer 1 = some [⟨lba % 2 ^ 28, buffer, 1⟩] := by
  have one : sectorsToRead dev.maxSectorsMultiple.toNat 1 1 = 1 := by
    rw [sectorsToRead, double, if_neg (by omega), halve, if_neg (by omega)]
  have inside : dev.Reaches lba 1 := by
    unfold Device.Reaches
    omega
  have here : lba % 18446744073709551616 = lba := Nat.mod_eq_of_lt (by omega)
  simp [ataRead, transfer, issueAll, one, kassert, inside, some_buffer.ne',
    ataReadInt, ataInt, here, Nat.mod_eq_of_lt room]

lemma sector_eq {table : Nat} (inode : Nat) (mem : table ∈ part.inodeTables) :
    let offset := part.localIndexForInode inode * 128
    offset % wordSize = offset ∧ offset % part.blocksize % 128 = 0 ∧
    offset % part.blocksize % 512 = part.inodeAt table inode % 512 ∧
    add32 (part.blockToAbsLba (add32 table (offset / part.blocksize)))
      (offset % part.blocksize / 512) = part.inodeAt table inode / 512 % wordSize ∧
    part.inodeAt table inode / 512 < part.dev.size := by
  have log := part.log_le
  have inside := part.tables_inside table mem
  have device := part.on_device
  have few := part.inodes_le
  have index : part.localIndexForInode inode < part.inodesPerGroup := Nat.mod_lt _ part.inodes_pos
  simp only [inodeAt, blockToAbsLba, blocksize, add32, wordSize]
  interval_cases part.logBlockSize <;> refine ⟨?_, ?_, ?_, ?_, ?_⟩ <;> omega

/-- The bytes of every inode are copied if it is not the first one, and is in the first 2²⁸ sectors
of the device. -/
theorem ext2ReadInode_iff {inode table inodeBuf : Nat}
    (group : part.inodeTables[part.bgrpForInode inode]? = some table)
    (some_buffer : 0 < inodeBuf) (room : inodeBuf + 512 ≤ wordSize) :
    part.ext2ReadInode inode inodeBuf = some ((List.range 128).map (part.inodeAt table inode + ·)) ↔
      2 ≤ inode ∧ part.inodeAt table inode / 512 < 2 ^ 28 := by
  obtain ⟨small, aligned, rest, lba, inside⟩ := part.sector_eq inode (List.mem_of_getElem? group)
  have reaches : part.inodeAt table inode / 512 % wordSize < part.dev.size :=
    (Nat.mod_le _ _).trans_lt inside
  have read := ataRead_one reaches part.size_lt part.transfers some_buffer (by omega)
  by_cases root : 2 ≤ inode
  · simp only [ext2ReadInode, kassert, root, if_true, group, small, aligned, lba, read, rest,
      Option.bind_eq_bind, Option.bind_some]
    have copied : (List.range 128).map (fun i =>
          part.inodeAt table inode / 512 % wordSize % 2 ^ 28 * 512 +
            (part.inodeAt table inode % 512 + i)) =
        (List.range 128).map (part.inodeAt table inode + ·) ↔
          part.inodeAt table inode / 512 < 2 ^ 28 := by
      rw [List.map_inj_left]
      constructor
      · intro same
        have first := same 0 (by simp)
        unfold wordSize at first
        omega
      · intro low i _
        unfold wordSize
        omega
    simpa [Command.transfers, Nat.mod_eq_of_lt, root] using copied
  · simp [ext2ReadInode, kassert, root]

/-- Two block groups, with blocks of 2048 bytes, on a device of 200 GB. -/
def twoGroups (startLba : Nat) (on_device : startLba + 4096 ≤ 400000000) : Geometry where
  dev := ⟨400000000, 16⟩
  startLba := startLba
  totalSectors := 4096
  logBlockSize := 1
  inodesPerGroup := 64
  inodeTables := [5, 600]
  log_le := by decide
  inodes_pos := by decide
  inodes_le := by decide
  tables_inside := by decide
  on_device := on_device
  size_lt := by decide
  transfers := by decide

/-- Inode 70 is the sixth one of the second group. -/
theorem ext2ReadInode_secondGroup : (twoGroups 63 (by decide)).ext2ReadInode 70 0x1000 =
    some ((List.range 128).map ((twoGroups 63 (by decide)).inodeAt 600 70 + ·)) :=
  ((twoGroups 63 (by decide)).ext2ReadInode_iff rfl (by decide) (by decide)).mpr (by decide +kernel)

/-- Behind the first 2²⁸ sectors, the bytes come from the start of the device. -/
theorem ext2ReadInode_behind :
    ((twoGroups (2 ^ 28) (by decide)).ext2ReadInode 70 0x1000).bind List.head? =
      some (600 * 2048 + 5 * 128) ∧
    (twoGroups (2 ^ 28) (by decide)).inodeAt 600 70 = 2 ^ 28 * 512 + 600 * 2048 + 5 * 128 := by
  decide +kernel

end Geometry

end ExscapeOS.Ext2
