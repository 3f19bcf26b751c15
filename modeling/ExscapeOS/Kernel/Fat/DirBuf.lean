import Mathlib.Data.List.GetD
import ExscapeOS.Kernel.Fat.Dir
import ExscapeOS.Lib.Memory

/-!
# The buffer of a `DIR`

`fat_callback_create_dentries` packs `struct dirent`s into a buffer for `fat_readdir`. A record
takes only as many bytes as its name needs, but it is accessed as a whole `struct dirent`, of 268
bytes. The buffer grows when there is no room for that.

The records in it are those of `fatCallbackCreateDentries`, which keeps them as a list (`Filled`).
-/
namespace ExscapeOS

open Lib List Option

/-- The value of `d_type`. -/
def DType.code : DType → UInt8
  | .unknown => 0
  | .fifo => 1
  | .chr => 2
  | .dir => 4
  | .blk => 6
  | .reg => 8
  | .lnk => 10
  | .sock => 12

/-- A `struct dirent` as its fields are read from memory. -/
structure DirentFields where
  dIno : Nat
  dDev : Nat
  dReclen : Nat
  dType : UInt8
  dNamlen : Nat
  dName : List UInt8
  deriving DecidableEq

def Dirent.fields (dent : Dirent) : DirentFields where
  dIno := dent.dIno
  dDev := dent.dDev
  dReclen := dent.dReclen
  dType := dent.dType.code
  dNamlen := dent.dName.length
  dName := dent.dName

namespace Fat

open Memory

/-- `sizeof(struct dirent)`. -/
def sizeofDirent : Nat := 268

def loadDirent (m : Memory) (a : Nat) : DirentFields where
  dIno := m.read32 a
  dDev := m.read16 (a + 4)
  dReclen := m.read16 (a + 8)
  dType := m (a + 10)
  dNamlen := (m (a + 11)).toNat
  dName := ((List.range 256).map fun i => m (a + 12 + i)).takeWhile (· ≠ 0)

/-- `strlcpy` of a name that fits. -/
def storeName (m : Memory) (a : Nat) (name : Name) : Memory := fun b =>
  if a ≤ b ∧ b < a + name.length + 1 then name.getD (b - a) 0 else m b

/-- The fields of a record are filled in. -/
def storeDirent (m : Memory) (a : Nat) (dent : Dirent) : Memory :=
  let m := m.write8 (a + 10) dent.dType.code
  let m := m.write32 a dent.dIno
  let m := m.write16 (a + 4) dent.dDev
  let m := storeName m (a + 12) dent.dName
  let m := m.write8 (a + 11) dent.dName.length.toUInt8
  m.write16 (a + 8) dent.dReclen

/-- The part of a `DIR` that the functions for FAT use. -/
structure DirBuf where
  buf : Option Memory
  buflen : Nat
  pos : Nat
  len : Nat

/-- After `fat_opendir_cluster`. -/
def DirBuf.opened : DirBuf := { buf := none, buflen := 0, pos := 0, len := 0 }

/-- `krealloc`: the memory that is added may have any contents. -/
def krealloc (heap : Nat → Memory) (m : Memory) (buflen new : Nat) : Memory := fun a =>
  if a < buflen then m a else heap new a

/-- `.` and `..` of the root directory, at the start of the buffer, and their end. -/
def storeDots (root dev : Nat) (m : Memory) : Memory × Nat :=
  (dots root dev).foldl (fun (m, len) dent => (storeDirent m len dent, len + dent.dReclen)) (m, 0)

/-- The record for an entry, at the end of the buffer. -/
def DirBuf.append (heap : Nat → Memory) (dir : DirBuf) (m : Memory) (dent : Dirent) :
    Option DirBuf := do
  let (m, buflen) :=
    if dir.buflen ≤ dir.len + sizeofDirent then
      (krealloc heap m dir.buflen (dir.buflen + 2 * sizeofDirent), dir.buflen + 2 * sizeofDirent)
    else (m, dir.buflen)
  let m := storeDirent m dir.len dent
  kassert (dent.dReclen ≤ sizeofDirent)
  return { dir with buf := some m, buflen := buflen, len := dir.len + dent.dReclen }

/-- `fat_callback_create_dentries`, with the buffer. -/
def createDentries (heap : Nat → Memory) (root dev ino : Nat) : Callback DirBuf :=
  fun dir e lfn => do
    let dir := if dir.buflen = 0 then
      { dir with buflen := 2 * sizeofDirent, buf := some fun _ => 0 } else dir
    let m ← dir.buf
    let (m, len) := if dir.len = 0 ∧ ino = root then storeDots root dev m else (m, dir.len)
    let shortName ← fatParseShortName e.name
    let dir ← { dir with len := len }.append heap m (e.dirent root dev shortName lfn)
    return (dir, true)

/-- `fat_readdir`. There is no result if the kernel panics, or the parse does not end within `fuel`
clusters. -/
def OpenDir.fatReaddir (file : OpenDir) (heap : Nat → Memory) (fuel : Nat) (s : Statics × DirBuf) :
    Option (Option DirentFields × Statics × DirBuf) := do
  if s.2.len ≠ 0 ∧ s.2.len ≤ s.2.pos then
    kassert (s.2.pos = s.2.len)
    return (none, s)
  else
    let s ← (if s.2.buf.isNone then do
        kassert (s.2.pos = 0 ∧ s.2.len = 0)
        let p ← (fatParseDir fuel file.part (createDentries heap file.root file.dev file.ino)
          file.ino s.1 s.2).join
        return (p.statics, p.data)
      else some s)
    match s.2.buf with
    | none => return (none, s)
    | some m =>
      kassert (s.2.pos < s.2.len)
      kassert (s.2.pos % 4 = 0)
      kassert (s.2.len < s.2.buflen)
      let dent := loadDirent m s.2.pos
      kassert (dent.dReclen ≠ 0)
      kassert (s.2.pos + sizeofDirent < s.2.buflen)
      let pos := s.2.pos + dent.dReclen
      kassert (pos % 4 = 0)
      return (some dent, s.1, { s.2 with pos := pos })

/-- Calls of `fat_readdir` until it returns `NULL`, within `n` calls. -/
def OpenDir.readdirs (file : OpenDir) (heap : Nat → Memory) (fuel : Nat) :
    Nat → Statics × DirBuf → Option (List DirentFields)
  | 0, _ => none
  | n + 1, s => do
    match ← file.fatReaddir heap fuel s with
    | (none, _) => return []
    | (some dent, s) => return dent :: (← file.readdirs heap fuel n s)

/-! ## Records in memory -/

/-- The fields have room for the values, and the end of the name is found. -/
structure Storable (dent : Dirent) : Prop where
  dIno : dent.dIno < wordSize
  dDev : dent.dDev < 65536
  dName : 0 ∉ dent.dName

structure Stored (m : Memory) (a : Nat) (dent : Dirent) : Prop where
  dIno : m.read32 a = dent.dIno
  dDev : m.read16 (a + 4) = dent.dDev
  dReclen : m.read16 (a + 8) = dent.dReclen
  dType : m (a + 10) = dent.dType.code
  dNamlen : (m (a + 11)).toNat = dent.dName.length
  dName : ∀ i ≤ dent.dName.length, m (a + 12 + i) = dent.dName.getD i 0

variable {m m' : Memory} {a : Nat} {dent : Dirent} {dents : List Dirent}

lemma dReclen_ge (dent : Dirent) : dent.dName.length + 13 ≤ dent.dReclen := by
  simp only [Dirent.dReclen, direntLen]
  split_ifs <;> omega

lemma dReclen_le (dent : Dirent) : dent.dReclen ≤ 268 := direntLen_le dent.short

lemma storeDirent_frame (m : Memory) {b : Nat} (h : b < a ∨ a + dent.dReclen ≤ b) :
    storeDirent m a dent b = m b := by
  have ge := dReclen_ge dent
  simp only [storeDirent]
  rw [write16_of_not_mem (by omega), write8_of_ne (by omega), storeName, if_neg (by omega),
    write16_of_not_mem (by omega), write32_of_not_mem (by omega), write8_of_ne (by omega)]

lemma Storable.stored (h : Storable dent) (m : Memory) (a : Nat) :
    Stored (storeDirent m a dent) a dent := by
  have le := dReclen_le dent
  have short := dent.short
  -- the name does not reach the fields before it
  have name (m : Memory) {b : Nat} (lt : b < a + 12) :
      storeName m (a + 12) dent.dName b = m b := if_neg (by omega)
  simp only [storeDirent]
  constructor
  · rw [read32_congr fun b _ _ => write16_of_not_mem (by omega),
      read32_congr fun b _ _ => write8_of_ne (by omega), read32_congr fun b _ _ =>
        name _ (by omega),
      read32_congr fun b _ _ => write16_of_not_mem (by omega), read32_write32_same _ _ h.dIno]
  · rw [read16_congr fun b _ _ => write16_of_not_mem (by omega),
      read16_congr fun b _ _ => write8_of_ne (by omega), read16_congr fun b _ _ =>
        name _ (by omega),
      read16_write16_same _ _ h.dDev]
  · exact read16_write16_same _ _ (by omega)
  · rw [write16_of_not_mem (by omega), write8_of_ne (by omega), name _ (by omega),
      write16_of_not_mem (by omega), write32_of_not_mem (by omega), write8_same]
  · rw [write16_of_not_mem (by omega), write8_same, Nat.toUInt8_eq, UInt8.toNat_ofNat']
    omega
  · intro i le
    rw [write16_of_not_mem (by omega), write8_of_ne (by omega), storeName, if_pos (by omega)]
    congr 1
    omega

lemma Stored.congr (h : Stored m a dent) (agree : AgreeOn m m' a (a + dent.dReclen)) :
    Stored m' a dent := by
  have ge := dReclen_ge dent
  constructor
  · rw [read32_congr (agree.mono (by omega) (by omega)), h.dIno]
  · rw [read16_congr (agree.mono (by omega) (by omega)), h.dDev]
  · rw [read16_congr (agree.mono (by omega) (by omega)), h.dReclen]
  · rw [agree _ (by omega) (by omega), h.dType]
  · rw [agree _ (by omega) (by omega), h.dNamlen]
  · intro i le
    rw [agree _ (by omega) (by omega), h.dName i le]

lemma Stored.load (h : Stored m a dent) (clean : 0 ∉ dent.dName) :
    loadDirent m a = dent.fields := by
  have short := dent.short
  have front : ((List.range dent.dName.length).map fun i => m (a + 12 + i)) = dent.dName := by
    refine ext_getElem (by simp) fun i lt lt' => ?_
    rw [getElem_map, getElem_range, h.dName i lt'.le, getD_eq_getElem _ _ lt']
  have stop : m (a + 12 + dent.dName.length) = 0 := by
    rw [h.dName _ le_rfl, getD_eq_default _ _ le_rfl]
  have split : List.range 256 = List.range dent.dName.length ++
      dent.dName.length :: List.range' (dent.dName.length + 1) (255 - dent.dName.length) := by
    have sum : 256 = dent.dName.length + (255 - dent.dName.length + 1) := by omega
    rw [sum, range_add, ← range'_eq_map_range, range'_succ]
  have name : ((List.range 256).map fun i => m (a + 12 + i)).takeWhile (· ≠ 0) = dent.dName := by
    rw [split, map_append, front, map_cons, stop, takeWhile_append_of_pos]
    · simp
    · intro c mem
      have nonzero : c ≠ 0 := fun zero => clean (zero ▸ mem)
      simpa using nonzero
  rw [loadDirent, h.dIno, h.dDev, h.dReclen, h.dType, h.dNamlen, name, Dirent.fields]

/-! ## Records in the buffer -/

/-- The records follow each other from a place in a buffer of `buflen` bytes. -/
def Packed (m : Memory) (buflen : Nat) : Nat → List Dirent → Prop
  | _, [] => True
  | a, dent :: dents =>
    Stored m a dent ∧ a + sizeofDirent < buflen ∧ Packed m buflen (a + dent.dReclen) dents

def totalLen (dents : List Dirent) : Nat := (dents.map Dirent.dReclen).sum

variable {buflen buflen' : Nat}

lemma Packed.mono (h : Packed m buflen a dents) (agree : AgreeOn m m' a (a + totalLen dents))
    (le : buflen ≤ buflen') : Packed m' buflen' a dents := by
  induction dents generalizing a with
  | nil => trivial
  | cons dent dents ih =>
    obtain ⟨stored, room, rest⟩ := h
    rw [totalLen, map_cons, sum_cons] at agree
    refine ⟨stored.congr (agree.mono le_rfl (by omega)), by omega, ih rest ?_⟩
    exact agree.mono (by omega) (by rw [totalLen]; omega)

lemma Packed.snoc (h : Packed m buflen a dents) (stored : Stored m (a + totalLen dents) dent)
    (room : a + totalLen dents + sizeofDirent < buflen) : Packed m buflen a (dents ++ [dent]) := by
  induction dents generalizing a with
  | nil => exact ⟨stored, room, trivial⟩
  | cons first dents ih =>
    obtain ⟨stored', room', rest⟩ := h
    rw [totalLen, map_cons, sum_cons, ← Nat.add_assoc] at stored room
    exact ⟨stored', room', ih rest stored room⟩

/-- The buffer has the records of the list while the directory is parsed. -/
structure Filled (dir : DirBuf) (dents : List Dirent) : Prop where
  storable : ∀ dent ∈ dents, Storable dent
  opened : dents = [] → dir = .opened
  packed : dents ≠ [] → ∃ m, dir.buf = some m ∧ Packed m dir.buflen 0 dents
  len : dir.len = totalLen dents
  room : dents ≠ [] → dir.len < dir.buflen
  pos : dir.pos = 0

variable {dir : DirBuf} {heap : Nat → Memory}

lemma Filled.append (heap : Nat → Memory) (packed : Packed m dir.buflen 0 dents)
    (storable : ∀ dent ∈ dents, Storable dent) (len : dir.len = totalLen dents)
    (room : dir.len < dir.buflen) (pos : dir.pos = 0) (new : Storable dent) :
    ∃ dir', dir.append heap m dent = some dir' ∧ Filled dir' (dents ++ [dent]) := by
  have le := dReclen_le dent
  -- the memory and the size of the buffer after it has grown
  obtain ⟨m₁, buflen, grown, agree, larger, enough⟩ : ∃ m₁ buflen,
      (if dir.buflen ≤ dir.len + sizeofDirent then
        (krealloc heap m dir.buflen (dir.buflen + 2 * sizeofDirent), dir.buflen + 2 * sizeofDirent)
      else (m, dir.buflen)) = (m₁, buflen) ∧ AgreeOn m m₁ 0 dir.len ∧ dir.buflen ≤ buflen ∧
        dir.len + sizeofDirent < buflen := by
    by_cases full : dir.buflen ≤ dir.len + sizeofDirent
    · refine ⟨_, _, if_pos full, fun b _ lt => if_pos (by omega), by omega, ?_⟩
      unfold sizeofDirent at *
      omega
    · exact ⟨_, _, if_neg full, .refl m _ _, le_rfl, by omega⟩
  refine ⟨⟨some (storeDirent m₁ dir.len dent), buflen, dir.pos, dir.len + dent.dReclen⟩, ?_, ?_⟩
  · simp only [DirBuf.append, grown, kassert]
    rw [if_pos (by unfold sizeofDirent; exact le)]
    rfl
  · have before : AgreeOn m (storeDirent m₁ dir.len dent) 0 (0 + totalLen dents) := by
      intro b low high
      rw [storeDirent_frame m₁ (by omega), agree b low (by omega)]
    constructor
    · intro d mem
      obtain mem | rfl := by simpa using mem
      · exact storable d mem
      · exact new
    · simp
    · intro _
      refine ⟨_, rfl, (packed.mono before larger).snoc ?_ ?_⟩
      · rw [Nat.zero_add, ← len]
        exact new.stored m₁ dir.len
      · rw [Nat.zero_add, ← len]
        exact enough
    · simp [totalLen, len]
    · intro _
      unfold sizeofDirent at enough
      change dir.len + dent.dReclen < buflen
      omega
    · exact pos

/-- The records that are left to read. -/
structure Reading (dir : DirBuf) (dents : List Dirent) : Prop where
  storable : ∀ dent ∈ dents, Storable dent
  packed : ∃ m, dir.buf = some m ∧ Packed m dir.buflen dir.pos dents
  len : dir.len = dir.pos + totalLen dents
  room : dir.len < dir.buflen
  pos : dir.pos % 4 = 0
  some_read : 0 < dir.len

lemma totalLen_cons (dent : Dirent) (dents : List Dirent) :
    totalLen (dent :: dents) = dent.dReclen + totalLen dents := rfl

lemma Filled.reading (filled : Filled dir dents) (some_dents : dents ≠ []) : Reading dir dents where
  storable := filled.storable
  packed := by
    rw [filled.pos]
    exact filled.packed some_dents
  len := by rw [filled.len, filled.pos, Nat.zero_add]
  room := filled.room some_dents
  pos := by rw [filled.pos]
  some_read := by
    obtain ⟨dent, rest, rfl⟩ := exists_cons_of_ne_nil some_dents
    have := dReclen_ge dent
    rw [filled.len, totalLen_cons]
    omega

/-! ## Parsing to the buffer -/

lemma eq_zero_of_ascii {c : UInt16} (ascii : c &&& 0xff80 = 0) (zero : c.toUInt8 = 0) : c = 0 := by
  have high : c.toNat &&& 0xff80 = 0 := congrArg UInt16.toNat ascii
  have low : c.toNat % 2 ^ 8 = 0 := congrArg UInt8.toNat zero
  refine UInt16.toNat_inj.mp (Nat.eq_of_testBit_eq fun i => ?_)
  rw [UInt16.toNat_zero, Nat.zero_testBit]
  by_cases byte : i < 8
  · have bit : Nat.testBit (c.toNat % 2 ^ 8) i = Nat.testBit 0 i := by rw [low]
    rw [Nat.testBit_mod_two_pow, Nat.zero_testBit] at bit
    simpa [byte] using bit
  · by_cases word : i < 16
    · have bit := congrArg (Nat.testBit · i) high
      have mask : Nat.testBit 0xff80 i = true := by
        interval_cases i <;> rfl
      simpa [Nat.testBit_and, mask] using bit
    · exact Nat.testBit_lt_two_pow (c.toNat_lt.trans_le
        (Nat.pow_le_pow_right (by decide) (by omega)))

lemma clean_parseLfn (lfnBuf : Int → UInt16) : 0 ∉ parseLfn lfnBuf := by
  intro mem
  obtain ⟨c, mem, eq⟩ := mem_map.mp mem
  have nonzero := mem_takeWhile_imp (p := fun c => decide (c ≠ 0 ∧ c ≠ 0xffff)) mem
  split_ifs at eq with ascii
  · simp [eq_zero_of_ascii ascii eq] at nonzero
  · exact absurd eq (by decide)

lemma clean_fatParseShortName {name shortName : Name}
    (h : fatParseShortName name = some shortName) : 0 ∉ shortName := by
  -- in all cases the name ends before the first zero
  have cut (l : Name) : 0 ∉ l.takeWhile (· ≠ 0) := by
    intro mem
    simpa using mem_takeWhile_imp mem
  unfold fatParseShortName at h
  split at h
  · cases h
    simp
  · split_ifs at h
    · cases h
      simp
    · cases h
      exact cut _
    · cases h
      exact cut _

variable {root dev : Nat}

lemma storable_dirent {e : Direntry} {shortName : Name} {lfn : Option Name}
    (root_lt : root < wordSize) (dev_lt : dev < 65536) (short : 0 ∉ shortName)
    (long : ∀ name, lfn = some name → 0 ∉ name) : Storable (e.dirent root dev shortName lfn) := by
  constructor
  · have cluster : e.dataCluster < wordSize := by
      have h0 := (e 20).toNat_lt
      have h1 := (e 21).toNat_lt
      have h2 := (e 26).toNat_lt
      have h3 := (e 27).toNat_lt
      unfold Direntry.dataCluster wordSize
      omega
    simp only [Direntry.dirent]
    split_ifs
    · exact root_lt
    · exact cluster
  · exact dev_lt
  · intro mem
    have mem := mem_of_mem_take mem
    cases lfn with
    | none => exact short mem
    | some name => exact long name rfl mem

lemma storeDots_packed (root_lt : root < wordSize) (dev_lt : dev < 65536)
    (m : Memory) : Packed (storeDots root dev m).1 (2 * sizeofDirent) 0 (dots root dev) ∧
      (storeDots root dev m).2 = totalLen (dots root dev) ∧
      ∀ dent ∈ dots root dev, Storable dent := by
  have storable : ∀ dent ∈ dots root dev, Storable dent := by
    intro dent mem
    obtain rfl | rfl := by simpa [dots] using mem
    · exact ⟨root_lt, dev_lt, by simp⟩
    · exact ⟨root_lt, dev_lt, by simp⟩
  refine ⟨?_, by simp [storeDots, dots, totalLen], storable⟩
  have first := storable _ (mem_cons_self ..)
  have second := storable _ (mem_cons_of_mem _ (mem_cons_self ..))
  refine ⟨(first.stored m 0).congr fun b low high => storeDirent_frame _ (.inl high), by decide,
    second.stored _ _, ?_, trivial⟩
  change 0 + direntLen 1 + sizeofDirent < 2 * sizeofDirent
  decide

lemma Filled.start (filled : Filled dir dents) (root_lt : root < wordSize)
    (dev_lt : dev < 65536) (heap : Nat → Memory) (ino : Nat) (e : Direntry) (lfn : Option Name) :
    ∃ (dir₁ : DirBuf) (m : Memory),
    createDentries heap root dev ino dir e lfn = ((fatParseShortName e.name).bind fun shortName =>
      (dir₁.append heap m (e.dirent root dev shortName lfn)).bind fun dir => some (dir, true)) ∧
    let dents := if dents = [] ∧ ino = root then dots root dev else dents
    Packed m dir₁.buflen 0 dents ∧ (∀ dent ∈ dents, Storable dent) ∧ dir₁.len = totalLen dents ∧
      dir₁.len < dir₁.buflen ∧ dir₁.pos = 0 := by
  by_cases none_yet : dents = []
  · obtain rfl := filled.opened none_yet
    by_cases isRoot : ino = root
    · obtain ⟨packed, len, storable⟩ := storeDots_packed root_lt dev_lt fun _ => 0
      refine ⟨⟨some fun _ => 0, 2 * sizeofDirent, 0, (storeDots root dev fun _ => 0).2⟩,
        (storeDots root dev fun _ => 0).1, ?_, ?_⟩
      · simp [createDentries, DirBuf.opened, isRoot]
      · simp only [none_yet, isRoot, and_self, if_true]
        refine ⟨packed, storable, len, ?_, trivial⟩
        change 0 + direntLen 1 + direntLen 2 < 2 * sizeofDirent
        decide
    · refine ⟨⟨some fun _ => 0, 2 * sizeofDirent, 0, 0⟩, fun _ => 0, ?_, ?_⟩
      · simp [createDentries, DirBuf.opened, isRoot]
      · simp only [none_yet, isRoot, and_false, if_false]
        exact ⟨trivial, by simp, rfl, by decide, trivial⟩
  · obtain ⟨m, buf, packed⟩ := filled.packed none_yet
    have room := filled.room none_yet
    have some_len := (filled.reading none_yet).some_read
    refine ⟨dir, m, ?_, ?_⟩
    · obtain ⟨_, buflen, pos, len⟩ := dir
      obtain rfl := buf
      simp [createDentries, (Nat.zero_lt_of_lt room).ne', some_len.ne']
    · simp only [none_yet, false_and, if_false]
      exact ⟨packed, filled.storable, filled.len, room, filled.pos⟩

lemma createDentries_lockstep (heap : Nat → Memory) (ino : Nat)
    (root_lt : root < wordSize) (dev_lt : dev < 65536) (filled : Filled dir dents) (e : Direntry)
    {lfn : Option Name} (long : ∀ name, lfn = some name → 0 ∉ name) :
    Lockstep (fun r r' => Filled r.1 r'.1 ∧ r.2 = r'.2) (createDentries heap root dev ino dir e lfn)
      (fatCallbackCreateDentries root dev ino dents e lfn) := by
  obtain ⟨dir₁, m, call, packed, storable, len, room, pos⟩ :=
    filled.start root_lt dev_lt heap ino e lfn
  rw [call]
  unfold fatCallbackCreateDentries
  cases parsed : fatParseShortName e.name with
  | none => exact .stop
  | some shortName =>
    obtain ⟨dir', appended, filled'⟩ := Filled.append heap packed storable len room pos
      (storable_dirent (e := e) root_lt dev_lt (clean_fatParseShortName parsed) long)
    simp only [bind_some, appended, map_some]
    exact .both ⟨filled', rfl⟩

lemma parseEntries_lockstep {σ σ' : Type} {callback : Callback σ} {callback' : Callback σ'}
    {R : σ → σ' → Prop}
    (called : ∀ d d' e lfn, R d d' → (∀ name, lfn = some name → 0 ∉ name) →
      Lockstep (fun r r' => R r.1 r'.1 ∧ r.2 = r'.2) (callback d e lfn) (callback' d' e lfn))
    (es : List Direntry) {p : Parse σ} {p' : Parse σ'} (statics : p.statics = p'.statics)
    (data : R p.data p'.data) :
    Lockstep (fun r r' => (r.1.statics = r'.1.statics ∧ R r.1.data r'.1.data) ∧ r.2 = r'.2)
      (parseEntries callback es p) (parseEntries callback' es p') := by
  induction es generalizing p p' with
  | nil => exact .both ⟨⟨statics, data⟩, rfl⟩
  | cons e es ih =>
    have entry : Lockstep (fun r r' => (r.1.statics = r'.1.statics ∧ R r.1.data r'.1.data) ∧
        r.2 = r'.2) (parseEntry callback e p) (parseEntry callback' e p') := by
      unfold parseEntry
      split_ifs
      · exact .both ⟨⟨statics, data⟩, rfl⟩
      · exact .both ⟨⟨statics, data⟩, rfl⟩
      · exact .both ⟨⟨by rw [statics], data⟩, rfl⟩
      · have clean (name : Name) (eq : p.statics.lfn = some name) : 0 ∉ name := by
          unfold Statics.lfn at eq
          split_ifs at eq
          cases eq
          exact clean_parseLfn _
        rw [← statics]
        have call := called p.data p'.data e p.statics.lfn data clean
        generalize callback p.data e p.statics.lfn = x at call
        generalize callback' p'.data e p.statics.lfn = y at call
        cases call with
        | stop => exact .stop
        | @both r r' related =>
          obtain ⟨d, more⟩ := r
          obtain ⟨d', more'⟩ := r'
          obtain ⟨data', rfl⟩ := related
          cases more with
          | false => exact .both ⟨⟨rfl, data'⟩, rfl⟩
          | true => exact .both ⟨⟨rfl, data'⟩, rfl⟩
    simp only [parseEntries]
    split_ifs
    · exact .both ⟨⟨statics, data⟩, rfl⟩
    · refine entry.bind fun r r' _ _ related => ?_
      obtain ⟨⟨statics, data⟩, more⟩ := related
      rw [← more]
      split_ifs
      · exact ih statics data
      · exact .both ⟨⟨statics, data⟩, rfl⟩

/-! ## Reading -/

/-- The next record can be read, and then the others are left. -/
structure Reading.Next (dir : DirBuf) (m : Memory) (dent : Dirent) (dents : List Dirent) :
    Prop where
  buf : dir.buf = some m
  load : loadDirent m dir.pos = dent.fields
  more : dir.pos < dir.len
  room : dir.pos + sizeofDirent < dir.buflen
  pos : (dir.pos + dent.dReclen) % 4 = 0
  left : Reading { dir with pos := dir.pos + dent.dReclen } dents

lemma Reading.next (reading : Reading dir (dent :: dents)) : ∃ m, Next dir m dent dents := by
  obtain ⟨m, buf, stored, room, packed⟩ := reading.packed
  have len := reading.len
  rw [totalLen_cons] at len
  have ge := dReclen_ge dent
  have multiple : dent.dReclen % 4 = 0 := direntLen_mod _
  have pos := reading.pos
  have load := stored.load (reading.storable dent (mem_cons_self ..)).dName
  refine ⟨m, buf, load, by omega, room, by omega, ?_⟩
  exact {
    storable := fun d mem => reading.storable d (mem_cons_of_mem _ mem)
    packed := ⟨m, buf, packed⟩
    len := by
      change dir.len = dir.pos + dent.dReclen + totalLen dents
      omega
    room := reading.room
    pos := by
      change (dir.pos + dent.dReclen) % 4 = 0
      omega
    some_read := reading.some_read }

lemma Reading.last (reading : Reading dir []) :
    dir.len = dir.pos ∧ dir.len ≠ 0 ∧ dir.len ≤ dir.pos :=
  have len : dir.len = dir.pos := reading.len
  ⟨len, reading.some_read.ne', len.le⟩

lemma Reading.Next.unread {m : Memory} (next : Next dir m dent dents) :
    ¬ (dir.len ≠ 0 ∧ dir.len ≤ dir.pos) ∧ dent.dReclen ≠ 0 :=
  ⟨fun h => absurd next.more (not_lt.mpr h.2), (direntLen_pos _).ne'⟩

lemma OpenDir.readdirs_reading (file : OpenDir) {fuel n : Nat} {s : Statics}
    (reading : Reading dir dents) (enough : dents.length < n) :
    file.readdirs heap fuel n (s, dir) = some (dents.map Dirent.fields) := by
  induction dents generalizing dir n with
  | nil =>
    obtain ⟨n, rfl⟩ := Nat.exists_eq_add_of_le' (Nat.one_le_of_lt enough)
    obtain ⟨len, last⟩ := reading.last
    have call : file.fatReaddir heap fuel (s, dir) = some (none, s, dir) := by
      simp only [fatReaddir, if_pos last, kassert, if_pos len.symm]
      rfl
    simp [readdirs, call]
  | cons dent dents ih =>
    obtain ⟨n, rfl⟩ := Nat.exists_eq_add_of_le' (Nat.one_le_of_lt enough)
    obtain ⟨m, next⟩ := reading.next
    have call : file.fatReaddir heap fuel (s, dir) =
        some (some dent.fields, s, { dir with pos := dir.pos + dent.dReclen }) := by
      obtain ⟨left, nonzero⟩ := next.unread
      simp [fatReaddir, left, next.buf, next.load, kassert, next.more, reading.pos, reading.room,
        next.room, next.pos, Dirent.fields, nonzero]
    simp [readdirs, call, ih next.left (n := n) (by simpa using enough)]

end Fat

end ExscapeOS
