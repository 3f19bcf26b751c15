import ExscapeOS.Kernel.Fat.Dir
import ExscapeOS.Lib.Memory

/-!
# The file allocation table, in memory and on the disk

`fat_detect` reads the table to memory if there is room, and `fat_next_cluster` then takes an entry
from there; otherwise it reads the sector of the entry. It checks the number of the sector, but not
the place of an entry in memory. All numbers are 32-bit, also the size of the table in bytes.
-/
namespace ExscapeOS.Fat

open Lib

/-- An `ata_device_t`, with the disk as one sequence of bytes. -/
structure Disk where
  bytes : Memory
  /-- `ata_read` succeeds for a sector. -/
  readable : Nat → Bool
  /-- Number of sectors. -/
  size : Nat
  exist : 0 < size

/-- `disk_read` to a new buffer. The callers assert that it succeeds. -/
def Disk.read (dev : Disk) (lba sectors : Nat) : Option Memory := do
  kassert (lba + sectors ≤ dev.size - 1)
  kassert ((List.range' lba sectors).all dev.readable)
  return fun i => dev.bytes (lba * 512 + i)

/-- The part of a `fat32_partition_t` that `fat_next_cluster` uses. -/
structure Table where
  dev : Disk
  fatStartLba : Nat
  sectorsPerFat : Nat
  start_lt : fatStartLba < wordSize
  sectors_lt : sectorsPerFat < wordSize

namespace Table

variable (t : Table)

/-- `fat_bytes` of `fat_detect`. -/
def fatBytes : Nat := t.sectorsPerFat * 512 % wordSize

/-- The end of `fat_detect`: the table is read to memory. -/
def cacheFat (cachedFat : Nat) (ram : Memory) : Option Memory := do
  let fat ← t.dev.read t.fatStartLba (t.fatBytes / 512)
  return fun a =>
    if cachedFat ≤ a ∧ a < cachedFat + t.fatBytes then fat (a - cachedFat) else ram a

def fatOffset (curCluster : Nat) : Nat := curCluster * 4 % wordSize

def fatSector (curCluster : Nat) : Nat := add32 t.fatStartLba (fatOffset curCluster / 512)

/-- `&fat[cur_cluster]`. -/
def address (cachedFat curCluster : Nat) : Nat := add32 cachedFat (fatOffset curCluster)

/-- `fat_next_cluster`, with the pointer `cached_fat` if it is not `NULL`. -/
def nextCluster (ram : Memory) (cachedFat : Option Nat) (curCluster : Nat) : Option Nat := do
  kassert (2 ≤ curCluster)
  match cachedFat with
  | some cachedFat => return ram.read32 (address cachedFat curCluster) &&& 0x0fffffff
  | none =>
    let sector := t.fatSector curCluster
    kassert (t.fatStartLba ≤ sector ∧ sector ≤ add32 t.fatStartLba t.sectorsPerFat)
    let fat ← t.dev.read sector 1
    return fat.read32 (fatOffset curCluster % 512) &&& 0x0fffffff

/-- The entry that `fat_next_cluster` uses belongs to the table. -/
def Inside (curCluster : Nat) : Option Nat → Prop
  | some cachedFat => cachedFat ≤ address cachedFat curCluster ∧
      address cachedFat curCluster + 4 ≤ cachedFat + t.fatBytes
  | none => t.fatStartLba ≤ t.fatSector curCluster ∧
      t.fatSector curCluster < t.fatStartLba + t.sectorsPerFat

/-- It makes no difference whether the table is in memory, and only its entries are used. -/
def Agrees (ram : Memory) (cachedFat curCluster : Nat) : Prop :=
  t.nextCluster ram (some cachedFat) curCluster = t.nextCluster ram none curCluster ∧
    ∀ cache ∈ [some cachedFat, none], (t.nextCluster ram cache curCluster).isSome →
      t.Inside curCluster cache

/-- A table that has been read to memory. -/
structure Cached (cachedFat : Nat) (ram : Memory) : Prop where
  read : (t.dev.read t.fatStartLba (t.fatBytes / 512)).isSome
  fits : cachedFat + t.fatBytes ≤ wordSize
  same : ∀ i < t.fatBytes, ram (cachedFat + i) = t.dev.bytes (t.fatStartLba * 512 + i)

variable {t} {cachedFat curCluster : Nat} {ram ram' : Memory}

lemma cached_of_cacheFat (h : t.cacheFat cachedFat ram = some ram')
    (fits : cachedFat + t.fatBytes ≤ wordSize) : t.Cached cachedFat ram' := by
  simp only [cacheFat, Disk.read, bind, pure, Option.bind_eq_some_iff, kassert_eq_some,
    exists_const, Option.some.injEq] at h
  obtain ⟨fat, ⟨within, readable, rfl⟩, rfl⟩ := h
  refine ⟨by simp [Disk.read, kassert, within, readable], fits, fun i lt => ?_⟩
  rw [if_pos ⟨Nat.le_add_right _ _, Nat.add_lt_add_left lt _⟩, Nat.add_sub_cancel_left]

section

variable (cached : t.Cached cachedFat ram)
include cached

lemma Cached.inside_iff :
    t.Inside curCluster (some cachedFat) ↔ fatOffset curCluster + 4 ≤ t.fatBytes := by
  have fits := cached.fits
  have lt : fatOffset curCluster < wordSize := Nat.mod_lt _ (by decide)
  unfold Inside address add32
  unfold wordSize at *
  omega

/-- A sector of the table that has been read before can be read again. -/
lemma Cached.read_sector {i : Nat} (lt : i < t.fatBytes / 512) :
    t.dev.read (t.fatStartLba + i) 1 =
      some fun j => t.dev.bytes ((t.fatStartLba + i) * 512 + j) := by
  obtain ⟨fat, read⟩ := Option.isSome_iff_exists.mp cached.read
  simp only [Disk.read, bind, pure, Option.bind_eq_some_iff, kassert_eq_some, exists_const,
    List.all_eq_true, List.mem_range'_1] at read
  obtain ⟨within, readable, -⟩ := read
  have sector := readable (t.fatStartLba + i) (by omega)
  have last : t.fatStartLba + i + 1 ≤ t.dev.size - 1 := by omega
  simp [Disk.read, kassert, last, sector]

lemma Cached.read32_eq (inside : fatOffset curCluster + 4 ≤ t.fatBytes) :
    ram.read32 (address cachedFat curCluster) =
      t.dev.bytes.read32 (t.fatStartLba * 512 + fatOffset curCluster) := by
  have fits := cached.fits
  have same := cached.same
  have place : address cachedFat curCluster = cachedFat + fatOffset curCluster :=
    Nat.mod_eq_of_lt (by omega)
  rw [place]
  unfold Memory.read32
  simp only [Nat.add_assoc]
  rw [same _ (by omega), same _ (by omega), same _ (by omega), same _ (by omega)]

/-- Without the cache, an entry of the cache is found in its sector. -/
lemma Cached.nextCluster_none (two_le : 2 ≤ curCluster)
    (inside : fatOffset curCluster + 4 ≤ t.fatBytes)
    (fits : t.fatStartLba + t.sectorsPerFat < wordSize) :
    t.Inside curCluster none ∧
    t.nextCluster ram none curCluster =
      some (t.dev.bytes.read32 (t.fatStartLba * 512 + fatOffset curCluster) &&& 0x0fffffff) := by
  have lt : fatOffset curCluster / 512 < t.fatBytes / 512 := by
    unfold fatBytes fatOffset wordSize at *
    omega
  have le : t.fatBytes ≤ t.sectorsPerFat * 512 := Nat.mod_le _ _
  have sector : t.fatSector curCluster = t.fatStartLba + fatOffset curCluster / 512 :=
    add32_eq (by omega)
  have place : (t.fatStartLba + fatOffset curCluster / 512) * 512 + fatOffset curCluster % 512 =
      t.fatStartLba * 512 + fatOffset curCluster := by omega
  have checked : t.fatStartLba ≤ t.fatStartLba + fatOffset curCluster / 512 ∧
      t.fatStartLba + fatOffset curCluster / 512 ≤ t.fatStartLba + t.sectorsPerFat := by omega
  refine ⟨by rw [Inside, sector]; omega, ?_⟩
  simp only [nextCluster, sector, add32_eq fits, cached.read_sector lt, kassert, if_pos two_le,
    if_pos checked, Option.bind_eq_bind, Option.bind_some, Option.pure_def, ← place,
    Memory.read32, Nat.add_assoc]

end

lemma nextCluster_none_of_wrap (wraps : wordSize ≤ t.fatStartLba + t.sectorsPerFat) :
    t.nextCluster ram none curCluster = none := by
  have sectors := t.sectors_lt
  have fails : ¬ (t.fatStartLba ≤ t.fatSector curCluster ∧
      t.fatSector curCluster ≤ add32 t.fatStartLba t.sectorsPerFat) := by
    unfold add32 wordSize at *
    omega
  unfold nextCluster
  by_cases two_le : 2 ≤ curCluster <;> simp [kassert, two_le, fails]

/-- The outcomes agree and no entry outside of the table is used, if and only if there is no cluster
of this number, or the table in memory has an entry for it and ends at a 32-bit sector number. -/
theorem agrees_iff (cached : t.Cached cachedFat ram) :
    t.Agrees ram cachedFat curCluster ↔
      curCluster < 2 ∨ (curCluster * 4 % wordSize + 4 ≤ t.sectorsPerFat * 512 % wordSize ∧
        t.fatStartLba + t.sectorsPerFat < wordSize) := by
  by_cases two_le : 2 ≤ curCluster
  · have value : t.nextCluster ram (some cachedFat) curCluster =
        some (ram.read32 (address cachedFat curCluster) &&& 0x0fffffff) := by
      simp [nextCluster, kassert, two_le]
    constructor
    · rintro ⟨same, used⟩
      have inside := cached.inside_iff.mp (used _ (by simp) (by simp [value]))
      refine .inr ⟨inside, not_le.mp fun wraps => ?_⟩
      rw [value, nextCluster_none_of_wrap wraps] at same
      cases same
    · rintro (small | ⟨inside, fits⟩)
      · omega
      · obtain ⟨inside', onDisk⟩ := cached.nextCluster_none two_le inside fits
        refine ⟨?_, fun cache mem _ => ?_⟩
        · rw [value, onDisk, cached.read32_eq inside]
        · simp only [List.mem_cons, List.not_mem_nil, or_false] at mem
          obtain rfl | rfl := mem
          · exact cached.inside_iff.mpr inside
          · exact inside'
  · have panics (cache : Option Nat) : t.nextCluster ram cache curCluster = none := by
      simp [nextCluster, kassert, two_le]
    exact iff_of_true ⟨by rw [panics, panics], by simp [panics]⟩ (.inl (not_le.mp two_le))

end Table

/-- A table of one sector, with 128 entries, on a disk of sixteens. -/
def oneSector : Table where
  dev := { bytes := fun _ => 16, readable := fun _ => true, size := 100, exist := by decide }
  fatStartLba := 32
  sectorsPerFat := 1
  start_lt := by decide
  sectors_lt := by decide

def oneSectorRam : Memory := fun a => if 4096 ≤ a ∧ a < 4096 + 512 then 16 else 0

lemma oneSector_cached : oneSector.Cached 4096 oneSectorRam := by
  have made : oneSector.cacheFat 4096 (fun _ => 0) = some oneSectorRam := by
    have bytes : oneSector.fatBytes = 512 := by decide
    have read : oneSector.dev.read oneSector.fatStartLba 1 = some fun _ => 16 := rfl
    simp only [Table.cacheFat, bytes, Nat.reduceDiv, read]
    rfl
  exact Table.cached_of_cacheFat made (by decide)

theorem agrees_last : oneSector.Cached 4096 oneSectorRam ∧ oneSector.Agrees oneSectorRam 4096 127 :=
  ⟨oneSector_cached, (Table.agrees_iff oneSector_cached).mpr (.inr (by decide))⟩

/-- For a number that is too large, the memory after the table is used as an entry, and the sector
is not accepted. The check of the sector misses the first such number. -/
theorem entries_outside :
    oneSector.Cached 4096 oneSectorRam ∧
    oneSector.nextCluster oneSectorRam (some 4096) 300 = some 0 ∧
    oneSector.nextCluster oneSectorRam none 300 = none ∧
    oneSector.nextCluster oneSectorRam (some 4096) 128 = some 0 ∧
    oneSector.nextCluster oneSectorRam none 128 = some 0x00101010 :=
  ⟨oneSector_cached, by decide, by decide, by decide, by decide⟩

end ExscapeOS.Fat
