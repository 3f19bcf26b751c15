import ExscapeOS.Kernel.Ext2.File
import ExscapeOS.Kernel.Ext2.Termination

/-!
# Directories that are tiled by records

A record with inode 0 is not in use; it is left when the first entry of a block is deleted. Both
walks take it for a block that is empty: at the start of a block they skip the block, and elsewhere
they fail an assertion.

`Walk` is what the walks see of a directory: the records in use that they come to, and whether they
fail in the end. They see all of them exactly if every block with a record that is not in use has
only such records (`Clean`).
-/
namespace ExscapeOS.Ext2

open Lib List Option

/-! ## Records -/

structure Record where
  inode : Nat
  recLen : Nat
  fileType : UInt8
  name : Name
  short : name.length ≤ 255
  long : 8 + name.length ≤ recLen
  named : inode ≠ 0 → name ≠ []

/-- What `ext2_getdents` returns for a record. -/
def Record.dirent (dev : Nat) (r : Record) : Dirent where
  dIno := r.inode
  dDev := dev
  dType := DirBuf.dType r.fileType
  dName := r.name
  short := r.short

namespace DirBuf

/-- The bytes at an offset are those of a record. -/
structure Holds (d : DirBuf) (i : Nat) (r : Record) : Prop where
  inode : d.inode i = some r.inode
  recLen : d.recLen i = some r.recLen
  nameLen : d.nameLen i = some (.ofNat r.name.length)
  fileType : d.fileType i = some r.fileType
  name : readBytes d.mem (i + 8) r.name.length = some r.name

variable {d : DirBuf} {i dev : Nat} {r : Record} {curEntry : Name}

lemma nameLen_toNat (r : Record) : (UInt8.ofNat r.name.length).toNat = r.name.length := by
  have := r.short
  simp
  omega

lemma Holds.dirent (h : d.Holds i r) : d.dirent dev i = some (r.dirent dev) := by
  simp only [DirBuf.dirent, h.inode, h.nameLen, h.fileType, bind_eq_bind, bind_some]
  split
  · rename_i none
    rw [nameLen_toNat, h.name] at none
    cases none
  · rename_i name' name
    rw [nameLen_toNat, h.name] at name
    cases name
    rfl

lemma memcmp_eq {mem : Nat → Option UInt8} {bs cs : Name} (h : readBytes mem i bs.length = some bs)
    (same : cs.length = bs.length) : memcmp mem i cs = some (decide (cs = bs)) := by
  induction bs generalizing i cs with
  | nil =>
    obtain rfl := eq_nil_of_length_eq_zero same
    rfl
  | cons b bs ih =>
    obtain ⟨c, cs, rfl⟩ := exists_cons_of_length_eq_add_one same
    obtain ⟨b', byte, h⟩ := bind_eq_some_iff.mp h
    obtain ⟨bs', rest, eq⟩ := map_eq_some_iff.mp h
    obtain ⟨rfl, rfl⟩ := List.cons.inj eq
    by_cases first : c = b'
    · simp [memcmp, byte, first, ih rest (Nat.succ.inj same)]
    · simp [memcmp, byte, first]

lemma Holds.sameName (h : d.Holds i r) :
    d.sameName curEntry i = some (decide (curEntry = r.name)) := by
  simp only [DirBuf.sameName, h.nameLen, bind_eq_bind, bind_some, nameLen_toNat]
  split
  · rename_i same
    exact memcmp_eq h.name same
  · rename_i other
    have : curEntry ≠ r.name := fun eq => other (congrArg _ eq)
    simp [this]

/-! ## What the walks see -/

/-- The records in use that a walk comes to, and whether it then fails. -/
inductive Walk (d : DirBuf) : Nat → List Record → Bool → Prop where
  | last {i : Nat} : d.len ≤ i → Walk d i [] false
  | block {i : Nat} {rs : List Record} {fails : Bool} : i < d.len → d.inode i = some 0 →
      i % d.blocksize = 0 → Walk d (i + d.blocksize) rs fails → Walk d i rs fails
  | fails {i : Nat} : i < d.len → d.inode i = some 0 → i % d.blocksize ≠ 0 → Walk d i [] true
  | record {i : Nat} {r : Record} {rs : List Record} {fails : Bool} : i < d.len → d.Holds i r →
      r.inode ≠ 0 → Walk d (i + r.recLen) rs fails → Walk d i (r :: rs) fails

namespace Walk

variable {rs : List Record} {fails : Bool} {fuel count written : Nat} {dents : List Dirent}

lemma of_le (h : Walk d i rs fails) (past : d.len ≤ i) : rs = [] ∧ fails = false := by
  cases h with
  | last => exact ⟨rfl, rfl⟩
  | block inside => omega
  | fails inside => omega
  | record inside => omega

/-- The search finds the name of every record that the walk comes to. -/
lemma lookup (h : Walk d i rs fails) (mem : r ∈ rs) (enough : d.extent - i < fuel) :
    ∃ j r', loop (attempt (d.lookupRound r.name)) fuel i = some (some (.found j)) ∧
      d.Holds j r' ∧ r' ∈ rs ∧ r'.name = r.name := by
  have pos := d.pos
  obtain _ | fuel := fuel
  · omega
  induction h generalizing fuel with
  | last => simp at mem
  | @block i rs fails inside zero aligned rest ih =>
    have more : i + d.blocksize < d.len := by
      by_contra past
      simp [(rest.of_le (not_lt.mp past)).1] at mem
    have inside' := lt_extent zero
    have round : attempt (d.lookupRound r.name) i = .inl (i + d.blocksize) :=
      attempt_eq_inl.mpr (lookupRound_eq_inl.mpr (.block inside zero aligned more))
    obtain _ | fuel := fuel
    · omega
    rw [loop_succ_of_inl round]
    exact ih mem fuel (by omega)
  | fails => simp at mem
  | @record i r₀ rs fails inside holds live rest ih =>
    by_cases same : r.name = r₀.name
    · have round : attempt (d.lookupRound r.name) i = .inr (some (.found i)) := by
        simp [attempt, lookupRound, kassert, inside, holds.inode, live, holds.sameName, same]
      exact ⟨i, r₀, loop_succ_of_inr round, holds, mem_cons_self, same.symm⟩
    · have mem : r ∈ rs := (mem_cons.mp mem).resolve_left fun eq => same (eq ▸ rfl)
      have more : i + r₀.recLen < d.len := by
        by_contra past
        simp [(rest.of_le (not_lt.mp past)).1] at mem
      have inside' := lt_extent holds.inode
      have long := r₀.long
      have round : attempt (d.lookupRound r.name) i = .inl (i + r₀.recLen) :=
        attempt_eq_inl.mpr (lookupRound_eq_inl.mpr (.record inside holds.inode live
          (by rw [holds.sameName]; simp [same]) holds.recLen more))
      obtain _ | fuel := fuel
      · omega
      obtain ⟨j, r', found, holds', mem', name⟩ := ih mem fuel (by omega)
      rw [loop_succ_of_inl round]
      exact ⟨j, r', found, holds', mem_cons_of_mem _ mem', name⟩

lemma entryLen_eq (aligned : written % 4 = 0) (n : Nat) : entryLen written n = direntLen n := by
  simp only [entryLen, direntLen]
  split_ifs <;> omega

lemma getdentsRound_record (dev count : Nat) (dents : List Dirent) (inside : i < d.len)
    (holds : d.Holds i r) (live : r.inode ≠ 0) (aligned : written % 4 = 0) :
    d.getdentsRound dev count ⟨i, written, dents⟩ = some (
      if count < written + (r.dirent dev).dReclen then
        .inr (⟨if count < (r.dirent dev).dReclen then einval else written, dents⟩, i)
      else .inl ⟨i + r.recLen, written + (r.dirent dev).dReclen, dents ++ [r.dirent dev]⟩) := by
  have long := r.long
  have named := length_pos_iff.mpr (r.named live)
  have padded := direntLen_mod r.name.length
  have le : direntLen r.name.length ≤ 12 + r.name.length + 1 + 3 := by
    simp only [direntLen]
    split_ifs <;> omega
  have nonzero : UInt8.ofNat r.name.length ≠ 0 := by
    intro zero
    have none : r.name.length = 0 := (nameLen_toNat r).symm.trans (congrArg UInt8.toNat zero)
    omega
  have entry (p : Prop) [Decidable p] (holds : p) : kassert p = some () := if_pos holds
  simp only [getdentsRound, if_neg (not_le.mpr inside), holds.inode, bind_eq_bind,
    bind_some, if_neg live, holds.nameLen, holds.recLen, nameLen_toNat, entryLen_eq aligned,
    entry _ nonzero, entry (8 < r.recLen) (by omega),
    entry ((written + direntLen r.name.length) % 4 = 0 ∧ _) ⟨by omega, le⟩, holds.dirent,
    add32_recLen holds.inode holds.recLen]
  have len : (r.dirent dev).dReclen = direntLen r.name.length := rfl
  rw [len]
  split
  · rfl
  · rfl

lemma getdents (h : Walk d i rs fails) (aligned : written % 4 = 0) (enough : d.extent - i < fuel) :
    Lockstep (fun x y => x.1 = y.1 ∧ ∃ rs', y.2 = rs'.map (Record.dirent dev) ∧
      Walk d x.2 rs' fails)
      (loop (attempt (d.getdentsRound dev count)) fuel ⟨i, written, dents⟩).join
      (getdentsReader.fill fails count (rs.map (Record.dirent dev)) written dents) := by
  have pos := d.pos
  obtain _ | fuel := fuel
  · omega
  induction h generalizing fuel written dents with
  | @last i past =>
    have round : attempt (d.getdentsRound dev count) ⟨i, written, dents⟩ =
        .inr (some (⟨written, dents⟩, i)) := by
      simp [attempt, getdentsRound, past]
    rw [loop_succ_of_inr round]
    exact .both ⟨rfl, [], rfl, .last past⟩
  | @block i rs fails inside zero aligned' rest ih =>
    have inside' := lt_extent zero
    by_cases past : d.len ≤ i + d.blocksize
    · have round : attempt (d.getdentsRound dev count) ⟨i, written, dents⟩ =
          .inr (some (⟨written, dents⟩, i + d.blocksize)) := by
        simp [attempt, getdentsRound, kassert, not_le.mpr inside, zero, aligned',
          add32_blocksize zero, past]
      obtain ⟨rfl, rfl⟩ := rest.of_le past
      rw [loop_succ_of_inr round]
      exact .both ⟨rfl, [], rfl, .last past⟩
    · have round : attempt (d.getdentsRound dev count) ⟨i, written, dents⟩ =
          .inl ⟨i + d.blocksize, written, dents⟩ := by
        simp [attempt, getdentsRound, kassert, not_le.mpr inside, zero, aligned',
          add32_blocksize zero, past]
      obtain _ | fuel := fuel
      · omega
      rw [loop_succ_of_inl round]
      exact ih aligned fuel (by omega)
  | @fails i inside zero unaligned =>
    have round : attempt (d.getdentsRound dev count) ⟨i, written, dents⟩ = .inr none := by
      simp [attempt, getdentsRound, kassert, not_le.mpr inside, zero, unaligned]
    rw [loop_succ_of_inr round]
    exact .stop
  | @record i r rs fails inside holds live rest ih =>
    have inside' := lt_extent holds.inode
    have long := r.long
    have round := getdentsRound_record dev count dents inside holds live aligned
    rw [map_cons]
    by_cases large : count < written + (r.dirent dev).dReclen
    · rw [if_pos large] at round
      rw [loop_succ_of_inr (attempt_eq_inr.mpr round), Reader.fill_of_lt large]
      exact .both ⟨rfl, r :: rs, rfl, .record inside holds live rest⟩
    · rw [if_neg large] at round
      obtain _ | fuel := fuel
      · omega
      rw [loop_succ_of_inl (attempt_eq_inl.mpr round), Reader.fill_of_le large]
      refine ih ?_ fuel (by omega)
      have := direntLen_mod r.name.length
      show (written + direntLen r.name.length) % 4 = 0
      omega

end Walk

/-- A call of `ext2_getdents`. -/
def getdents (d : DirBuf) (fuel dev : Nat) (count : Int) (pos : Nat) :
    Option (Reply Dirent × Nat) :=
  (d.ext2Getdents fuel dev count pos).join

lemma Walk.call {rs : List Record} {fails : Bool} {fuel : Nat} (c : Int) (h : Walk d i rs fails)
    (some_block : 0 < d.len) (enough : d.extent < fuel) :
    Lockstep (fun x y => x.1 = y.1 ∧ ∃ rs', y.2 = rs'.map (Record.dirent dev) ∧
      Walk d x.2 rs' fails)
      (d.getdents fuel dev c i) (getdentsReader.read fails c (rs.map (Record.dirent dev))) := by
  unfold DirBuf.getdents ext2Getdents Reader.read
  by_cases small : c < 128
  · rw [if_pos small, getdentsReader_least, if_pos small]
    exact .both ⟨rfl, rs, rfl, h⟩
  · rw [if_neg small, getdentsReader_least, if_neg small]
    by_cases past : d.len ≤ i
    · obtain ⟨rfl, rfl⟩ := h.of_le past
      rw [if_pos ⟨some_block.ne', past⟩]
      exact .both ⟨rfl, [], rfl, .last past⟩
    · rw [if_neg (fun h => past h.2), if_neg past]
      exact h.getdents rfl (by omega)

/-- The replies are those of a reader of the records that the walk comes to. -/
lemma Walk.listing {rs : List Record} {fails : Bool} {fuel : Nat} (h : Walk d i rs fails)
    (some_block : 0 < d.len) (enough : d.extent < fuel) (cs : List Int) :
    listing (d.getdents fuel dev) cs i =
      Lib.listing (getdentsReader.read fails) cs (rs.map (Record.dirent dev)) := by
  refine listing_congr (R := fun i es => ∃ rs, es = rs.map (Record.dirent dev) ∧ Walk d i rs fails)
    cs ⟨rs, rfl, h⟩ ?_
  rintro c i _ ⟨rs, rfl, h⟩
  refine (h.call c some_block enough).imp fun x y _ _ related => ?_
  exact ⟨related.1, fun _ => related.2⟩

/-! ## Blocks of records -/

/-- Records follow each other from `lo` to `hi`. -/
def Tiled (d : DirBuf) : Nat → List Record → Nat → Prop
  | lo, [], hi => lo = hi
  | lo, r :: rs, hi => d.Holds lo r ∧ Tiled d (lo + r.recLen) rs hi

def TiledBlocks (d : DirBuf) : Nat → List (List Record) → Prop
  | lo, [] => lo = d.len
  | lo, b :: bs => d.Tiled lo b (lo + d.blocksize) ∧ TiledBlocks d (lo + d.blocksize) bs

variable {d' : DirBuf} {lo hi : Nat} {rs b : List Record} {bs : List (List Record)}

lemma Tiled.le (h : d.Tiled lo rs hi) : lo ≤ hi := by
  induction rs generalizing lo with
  | nil => exact Nat.le_of_eq h
  | cons r rs ih => exact (Nat.le_add_right _ _).trans (ih h.2)

lemma TiledBlocks.le (h : d.TiledBlocks lo bs) : lo ≤ d.len := by
  induction bs generalizing lo with
  | nil => exact Nat.le_of_eq h
  | cons b bs ih => exact (Nat.le_add_right _ _).trans (ih h.2)

lemma readBytes_congr {mem mem' : Nat → Option UInt8} {n : Nat}
    (same : ∀ j < i + n, mem' j = mem j) : readBytes mem' i n = readBytes mem i n := by
  induction n generalizing i with
  | zero => rfl
  | succ n ih =>
    rw [readBytes, readBytes, same i (by omega), ih fun j lt => same j (by omega)]

lemma Holds.congr (h : d.Holds i r)
    (same : ∀ j < i + 8 + r.name.length, d'.mem j = d.mem j) : d'.Holds i r := by
  have byte (k : Nat) (lt : k < 8) : d'.mem (i + k) = d.mem (i + k) := same _ (by omega)
  refine ⟨?_, ?_, ?_, ?_, (readBytes_congr same).trans h.name⟩
  · simpa [DirBuf.inode, same i (by omega), byte] using h.inode
  · simpa [DirBuf.recLen, byte] using h.recLen
  · simpa [DirBuf.nameLen, byte] using h.nameLen
  · simpa [DirBuf.fileType, byte] using h.fileType

lemma Tiled.congr (h : d.Tiled lo rs hi) (same : ∀ j < hi, d'.mem j = d.mem j) :
    d'.Tiled lo rs hi := by
  induction rs generalizing lo with
  | nil => exact h
  | cons r rs ih =>
    have le := h.2.le
    have long := r.long
    exact ⟨h.1.congr fun j lt => same j (by omega), ih h.2⟩

lemma TiledBlocks.congr (h : d.TiledBlocks lo bs) (len : d'.len = d.len)
    (blocksize : d'.blocksize = d.blocksize) (same : ∀ j < d.len, d'.mem j = d.mem j) :
    d'.TiledBlocks lo bs := by
  induction bs generalizing lo with
  | nil => exact Eq.trans h len.symm
  | cons b bs ih =>
    have le := h.2.le
    rw [TiledBlocks, blocksize]
    exact ⟨h.1.congr fun j lt => same j (by omega), ih h.2⟩

/-- The records that are in use. -/
def live (rs : List Record) : List Record := rs.filter (·.inode ≠ 0)

/-- From inside of a block, the walk comes to its end, or fails at a record that is not in use. -/
lemma Tiled.walk {base : Nat} {rest : List Record} {fails : Bool}
    (h : d.Tiled lo rest (base + d.blocksize)) (aligned : base % d.blocksize = 0)
    (inner : base < lo) (inside : base + d.blocksize ≤ d.len)
    (next : Walk d (base + d.blocksize) rs fails) :
    (∀ r ∈ rest, r.inode ≠ 0) ∧ Walk d lo (rest ++ rs) fails ∨
      (∃ r ∈ rest, r.inode = 0) ∧ ∃ seen, seen.Sublist (live rest) ∧ Walk d lo seen true := by
  induction rest generalizing lo with
  | nil =>
    obtain rfl := show lo = _ from h
    exact .inl ⟨by simp, next⟩
  | cons r rest ih =>
    obtain ⟨holds, tiled⟩ := h
    have le := tiled.le
    have long := r.long
    have inside' : lo < d.len := by omega
    by_cases zero : r.inode = 0
    · have unaligned : lo % d.blocksize ≠ 0 := by
        intro aligned'
        have dvd := Nat.dvd_sub (Nat.dvd_of_mod_eq_zero aligned') (Nat.dvd_of_mod_eq_zero aligned)
        have := Nat.le_of_dvd (by omega) dvd
        omega
      exact .inr ⟨⟨r, mem_cons_self, zero⟩, [], nil_sublist _,
        .fails inside' (zero ▸ holds.inode) unaligned⟩
    · obtain ⟨used, walk⟩ | ⟨⟨r', mem, zero'⟩, seen, sub, walk⟩ := ih tiled (by omega)
      · exact .inl ⟨forall_mem_cons.mpr ⟨zero, used⟩, .record inside' holds zero walk⟩
      · refine .inr ⟨⟨r', mem_cons_of_mem _ mem, zero'⟩, r :: seen, ?_,
          .record inside' holds zero walk⟩
        simpa [live, zero] using sub

/-- A block with a record that is not in use has only such records. -/
def Clean (blocks : List (List Record)) : Prop :=
  ∀ b ∈ blocks, (∃ r ∈ b, r.inode = 0) → ∀ r ∈ b, r.inode = 0

lemma clean_cons :
    Clean (b :: bs) ↔ ((∃ r ∈ b, r.inode = 0) → ∀ r ∈ b, r.inode = 0) ∧ Clean bs :=
  forall_mem_cons

lemma live_flatten_cons : live (b :: bs).flatten = live b ++ live bs.flatten := by
  simp [live]

lemma live_eq_self (used : ∀ r ∈ b, r.inode ≠ 0) : live b = b :=
  filter_eq_self.mpr (by simpa using used)

lemma live_eq_nil : live b = [] ↔ ∀ r ∈ b, r.inode = 0 := by
  simp [live, filter_eq_nil_iff]

/-- The walk sees records in use, and all of them exactly if the blocks are clean. -/
lemma exists_walk {blocks : List (List Record)} (h : d.TiledBlocks lo blocks)
    (aligned : lo % d.blocksize = 0) : ∃ rs fails, Walk d lo rs fails ∧
      rs.Sublist (live blocks.flatten) ∧
      (fails = false ∧ rs = live blocks.flatten ↔ Clean blocks) := by
  induction blocks generalizing lo with
  | nil =>
    refine ⟨[], false, .last (Nat.le_of_eq h.symm), .slnil, ?_⟩
    simp [live, Clean]
  | cons b bs ih =>
    obtain ⟨tiled, rest⟩ := h
    obtain ⟨rs, fails, walk, sub, clean⟩ := ih rest (by simpa using aligned)
    have pos := d.pos
    have le := rest.le
    rw [live_flatten_cons, clean_cons]
    cases b with
    | nil =>
      have : lo = lo + d.blocksize := tiled
      omega
    | cons r b =>
      obtain ⟨holds, tiled⟩ := tiled
      have long := r.long
      by_cases zero : r.inode = 0
      · -- the block is skipped
        refine ⟨rs, fails, .block (by omega) (zero ▸ holds.inode) aligned walk,
          sub.trans (sublist_append_right _ _), ?_⟩
        have unused : ∃ r' ∈ r :: b, r'.inode = 0 := ⟨r, mem_cons_self, zero⟩
        rw [← clean, ← live_eq_nil, forall_prop_of_true unused]
        constructor
        · rintro ⟨ends, eq⟩
          have lengths := congrArg List.length eq
          have le := sub.length_le
          rw [length_append] at lengths
          have empty := eq_nil_of_length_eq_zero (l := live (r :: b)) (by omega)
          exact ⟨empty, ends, by rw [eq, empty, nil_append]⟩
        · rintro ⟨empty, ends, eq⟩
          exact ⟨ends, by rw [eq, empty, nil_append]⟩
      · obtain ⟨used, walk⟩ | ⟨⟨r', mem, zero'⟩, seen, sub', walk'⟩ :=
          tiled.walk aligned (by omega) (by omega) walk
        · have used : ∀ r' ∈ r :: b, r'.inode ≠ 0 := forall_mem_cons.mpr ⟨zero, used⟩
          rw [live_eq_self used]
          refine ⟨r :: (b ++ rs), fails, .record (by omega) holds zero walk,
            (List.Sublist.refl (r :: b)).append sub, ?_⟩
          have no_unused : ¬ ∃ r' ∈ r :: b, r'.inode = 0 := fun ⟨r', mem, zero⟩ => used r' mem zero
          rw [← cons_append, append_cancel_left_eq, clean]
          exact ⟨fun h => ⟨fun unused => absurd unused no_unused, h⟩, fun h => h.2⟩
        · -- the walk fails inside of the block
          refine ⟨r :: seen, true, .record (by omega) holds zero walk', ?_, ?_⟩
          · have sub : (r :: seen).Sublist (live (r :: b)) := by simpa [live, zero] using sub'
            exact sub.trans (sublist_append_left _ _)
          · refine ⟨nofun, fun h => ?_⟩
            exact absurd (h.1 ⟨r', mem_cons_of_mem _ mem, zero'⟩ r mem_cons_self) zero

end DirBuf

/-! ## Directories -/

/-- The memory, once a file has been read to a buffer. -/
def DirBuf.fill (d : DirBuf) (buf : List UInt8) (size : Nat) : DirBuf :=
  { d with
    mem := fun i => if i < d.extent then buf[i]?.or (d.mem i) else none
    unmapped := fun _ le => if_neg (not_lt.mpr le)
    len := size }

/-- A directory whose blocks are tiled by records. -/
structure Directory (part : Disk) extends File part where
  /-- The memory from the buffer on, before the directory is read. -/
  memory : DirBuf
  same_blocksize : memory.blocksize = part.blocksize
  allocated : part.allBlocks blocks.length * part.blocksize ≤ memory.extent
  records : List (List Record)
  tiled : (memory.fill toFile.contents inode.iSize).TiledBlocks 0 records

namespace Directory

open DirBuf

variable {part : Disk} (dir : Directory part)

def entries : List Record := live dir.records.flatten

/-- The buffer of `ext2_read_file`. There is none if the kernel panics. -/
def read : Option DirBuf :=
  (part.ext2ReadFile dir.inode).map fun (buf, size) => dir.memory.fill buf size

/-- `ext2_getdents`. `file->data` has the buffer and the position; it is `NULL` before the first
call. -/
def ext2Getdents (fuel dev : Nat) (count : Int) (data : Option (DirBuf × Nat)) :
    Option (Reply Dirent × Option (DirBuf × Nat)) :=
  if count < 128 then some (⟨einval, []⟩, data)
  else do
    let (d, pos) ← match data with
      | none => do
        let d ← dir.read
        kassert (0 < d.len)
        pure (d, 0)
      | some info => some info
    let (reply, pos) ← d.getdents fuel dev count pos
    return (reply, some (d, pos))

/-- The search of `_inode_for_path` for a name in the directory. -/
def lookup (fuel : Nat) (curEntry : Name) : Option Lookup :=
  dir.read.bind fun d => (d.lookup fuel curEntry).join

/-! ## The buffer -/

lemma size_pos : 0 < dir.inode.iSize := Nat.zero_lt_of_lt dir.size.1

lemma exists_read_tiled (fits : part.Fits dir.blocks.length) : ∃ d, dir.read = some d ∧ 0 < d.len ∧
    d.extent = dir.memory.extent ∧ d.TiledBlocks 0 dir.records := by
  obtain ⟨buf, read, start⟩ := dir.exists_read fits
  refine ⟨dir.memory.fill buf dir.inode.iSize, by rw [Directory.read, read]; rfl,
    dir.size_pos, rfl, ?_⟩
  refine dir.tiled.congr rfl rfl fun j lt => ?_
  have inside : j < dir.inode.iSize := lt
  simp only [DirBuf.fill, ← start, getElem?_take, if_pos inside]

lemma listing_of_read {d : DirBuf} (read : dir.read = some d) (some_block : 0 < d.len)
    (fuel dev : Nat) (cs : List Int) :
    listing (dir.ext2Getdents fuel dev) cs none = listing (d.getdents fuel dev) cs 0 := by
  refine listing_congr (R := fun data pos => data = none ∧ pos = 0 ∨ data = some (d, pos)) cs
    (.inl ⟨rfl, rfl⟩) fun c data pos related => ?_
  by_cases small : c < 128
  · rw [Directory.ext2Getdents, if_pos small, DirBuf.getdents, DirBuf.ext2Getdents, if_pos small]
    exact .both ⟨rfl, fun _ => related⟩
  · have call : dir.ext2Getdents fuel dev c data =
        (d.getdents fuel dev c pos).bind fun (reply, pos) => some (reply, some (d, pos)) := by
      obtain ⟨rfl, rfl⟩ | rfl := related
      · simp [Directory.ext2Getdents, small, read, kassert, some_block]
      · simp [Directory.ext2Getdents, small]
    rw [call]
    cases d.getdents fuel dev c pos with
    | none => exact .stop
    | some x => exact .both ⟨rfl, fun _ => .inr rfl⟩

/-- The replies are those of a reader of some of the entries, and of all of them exactly if the
blocks are clean. -/
lemma exists_reader (fits : part.Fits dir.blocks.length) : ∃ d rs fails, dir.read = some d ∧
    d.extent = dir.memory.extent ∧ Walk d 0 rs fails ∧ rs.Sublist dir.entries ∧
    (fails = false ∧ rs = dir.entries ↔ Clean dir.records) ∧
    ∀ fuel dev cs, dir.memory.extent < fuel → listing (dir.ext2Getdents fuel dev) cs none =
      listing (getdentsReader.read fails) cs (rs.map (Record.dirent dev)) := by
  obtain ⟨d, read, some_block, extent, tiled⟩ := dir.exists_read_tiled fits
  obtain ⟨rs, fails, walk, sub, clean⟩ := exists_walk tiled (Nat.zero_mod _)
  refine ⟨d, rs, fails, read, extent, walk, sub, clean, fun fuel dev cs enough => ?_⟩
  rw [dir.listing_of_read read some_block]
  exact walk.listing some_block (extent ▸ enough) cs

/-- If the directory cannot be read, there is no reply to a call with a large buffer. -/
lemma fits_of_complete {fuel dev : Nat} {cs : List Int} {all : List Dirent}
    (complete : Complete einval (dir.ext2Getdents fuel dev) none all (cs ++ [268])) :
    part.Fits dir.blocks.length := by
  cases read : part.ext2ReadFile dir.inode with
  | none =>
    refine absurd complete (not_complete_of_bad (by decide) (by decide)
      (fun c small => if_pos small) (fun c r s' (ge : 128 ≤ c) called => ?_) cs)
    simp [Directory.ext2Getdents, not_lt.mpr ge, Directory.read, read] at called
  | some r => exact dir.fits_of_read read

/-- The caller gets all entries, whatever calls with a large buffer follow, exactly if the directory
can be read, the blocks are clean and no call fails after it has copied something. -/
lemma complete_iff (dev : Nat) (counts : List Int) :
    (∀ fuel, dir.memory.extent < fuel → ∀ more : List Int, (∀ c ∈ more, 268 ≤ c) →
      Complete einval (dir.ext2Getdents fuel dev) none (dir.entries.map (Record.dirent dev))
        (counts ++ more)) ↔
      part.Fits dir.blocks.length ∧ Clean dir.records ∧
        getdentsReader.LosslessRun counts (dir.entries.map (Record.dirent dev)) := by
  have reader {rs : List Record} (fails : Bool) (sub : rs.Sublist dir.entries) :=
    Reader.complete_iff (R := getdentsReader) fails counts (sub.map (Record.dirent dev)).length_le
  constructor
  · intro complete
    have enough := Nat.lt_succ_self dir.memory.extent
    have fits := dir.fits_of_complete (complete _ enough [268] (by simp))
    obtain ⟨d, rs, fails, -, -, -, sub, clean, replies⟩ := dir.exists_reader fits
    obtain ⟨ends, eq, lossless⟩ := (reader fails sub).mp fun more large =>
      (complete _ enough more large).congr (replies _ dev _ enough)
    have all : rs = dir.entries := sub.eq_of_length (by simpa using congrArg List.length eq)
    exact ⟨fits, clean.mp ⟨ends, all⟩, eq ▸ lossless⟩
  · rintro ⟨fits, tidy, lossless⟩ fuel enough more large
    obtain ⟨d, rs, fails, -, -, -, sub, clean, replies⟩ := dir.exists_reader fits
    obtain ⟨ends, rfl⟩ := clean.mpr tidy
    exact ((reader fails sub).mpr ⟨ends, rfl, lossless⟩ more large).congr
      (replies fuel dev _ enough).symm

/-- `ext2_getdents` lists all entries in order, up to the end, and the search finds the name of
every entry, exactly if the directory can be read and the blocks are clean. -/
theorem listed_and_found_iff (dev : Nat) :
    (∀ fuel, dir.memory.extent < fuel →
      (∀ counts, getdentsReader.LosslessRun counts (dir.entries.map (Record.dirent dev)) →
        Complete einval (dir.ext2Getdents fuel dev) none
          (dir.entries.map (Record.dirent dev)) counts) ∧
      (∀ counts : List Int, (∀ c ∈ counts, 268 ≤ c) → dir.entries.length < counts.length →
        ∃ replies, listing (dir.ext2Getdents fuel dev) counts none = some replies ∧
          ∃ r ∈ replies, r.ret = 0) ∧
      ∀ r ∈ dir.entries, ∃ d i r', dir.read = some d ∧
        dir.lookup fuel r.name = some (.found i) ∧ d.Holds i r' ∧ r' ∈ dir.entries ∧
        r'.name = r.name) ↔
      part.Fits dir.blocks.length ∧ Clean dir.records := by
  constructor
  · intro right
    have complete := (dir.complete_iff dev []).mp fun fuel enough more large =>
      (right fuel enough).1 _ (Reader.losslessRun_append [] large trivial)
    exact ⟨complete.1, complete.2.1⟩
  · rintro ⟨fits, tidy⟩ fuel enough
    obtain ⟨d, rs, fails, read, extent, walk, -, clean, replies⟩ := dir.exists_reader fits
    obtain ⟨rfl, rfl⟩ := clean.mpr tidy
    refine ⟨fun counts lossless => ?_, fun counts large long => ?_, fun r mem => ?_⟩
    · have complete :=
        (dir.complete_iff dev counts).mpr ⟨fits, tidy, lossless⟩ fuel enough [] (by simp)
      rwa [append_nil] at complete
    · obtain ⟨rs, listed⟩ := Reader.exists_listing (R := getdentsReader) counts
        (dir.entries.map (Record.dirent dev))
      have ends := Reader.ends_of_big [] listed large (by simpa using long)
      exact ⟨rs, (replies fuel dev counts enough).trans listed, ends.2⟩
    · obtain ⟨i, r', found, holds, mem', name⟩ := walk.lookup mem
        (show d.extent - 0 < fuel by omega)
      refine ⟨d, i, r', read, ?_, holds, mem', name⟩
      rw [Directory.lookup, read, Option.bind_some, DirBuf.lookup, found]
      rfl

end Directory

/-! ## A deleted entry -/

/-- A partition with one file, whose only block, 20, starts with `bytes`. -/
def oneBlock (bytes : List UInt8) : Disk where
  logBlockSize := 0
  byte b i := if b = 20 then bytes.getD i 0 else 0

def oneBlockFile (bytes : List UInt8) : File (oneBlock bytes) where
  inode := {
    iSize := 1024
    iBlocks := 2
    iDirect := fun i => if i = 0 then 20 else 0
    iSingly := 0
    iDoubly := 0
    iTriply := 0 }
  blocks := [20]
  some_block := by decide
  addressable := by simp; omega
  no_hole := by decide
  direct := by decide
  singly := .inl ⟨by simp, rfl⟩
  doubly := .inl ⟨by rw [drop_eq_nil_of_le (by rw [length_singleton]; omega), take_nil], rfl⟩
  triply := .inl ⟨drop_eq_nil_of_le (by rw [length_singleton]; omega), rfl⟩
  counted := by rw [List.length_singleton, Disk.allBlocks_of_le (by decide)]; rfl
  size := by simp [Disk.blocksize, oneBlock]

lemma blocksize_zeroLength (bytes : List UInt8) :
    zeroLength.blocksize = (oneBlock bytes).blocksize :=
  rfl

/-- The record of `a`, inode 11. -/
def recordA : Record := ⟨11, 12, 1, [0x61], by decide, by decide, by decide⟩

/-- The first entry, `x`, has been deleted. The second is `a`, with inode 11. -/
def firstDeleted : Directory
    (oneBlock [0, 0, 0, 0, 12, 0, 1, 1, 0x78, 0, 0, 0, 11, 0, 0, 0, 0xf4, 3, 1, 1, 0x61]) where
  toFile := oneBlockFile _
  memory := zeroLength
  same_blocksize := blocksize_zeroLength _
  allocated := by decide +kernel
  records := [[⟨0, 12, 1, [0x78], by decide, by decide, by decide⟩,
    ⟨11, 1012, 1, [0x61], by decide, by decide, by decide⟩]]
  tiled := by
    refine ⟨⟨⟨?_, ?_, ?_, ?_, ?_⟩, ⟨?_, ?_, ?_, ?_, ?_⟩, rfl⟩, rfl⟩
    all_goals decide +kernel

/-- The second entry has been deleted, but it has kept its record. -/
def secondDeleted : Directory
    (oneBlock [11, 0, 0, 0, 12, 0, 1, 1, 0x61, 0, 0, 0, 0, 0, 0, 0, 0xf4, 3, 1, 1, 0x78]) where
  toFile := oneBlockFile _
  memory := zeroLength
  same_blocksize := blocksize_zeroLength _
  allocated := by decide +kernel
  records := [[recordA, ⟨0, 1012, 1, [0x78], by decide, by decide, by decide⟩]]
  tiled := by
    refine ⟨⟨⟨?_, ?_, ?_, ?_, ?_⟩, ⟨?_, ?_, ?_, ?_, ?_⟩, rfl⟩, rfl⟩
    all_goals decide +kernel

/-- `a` is in both directories. In the first, it is neither listed nor found. In the second, the
kernel panics. -/
theorem deleted_entry :
    (firstDeleted.entries.map Record.name = [[0x61]] ∧
      firstDeleted.lookup 2 [0x61] = some .notFound ∧
      (firstDeleted.ext2Getdents 2 0 1000 none).map (fun r => (r.1.ret, r.1.entries)) =
        some (0, [])) ∧
    secondDeleted.entries.map Record.name = [[0x61]] ∧
      (secondDeleted.ext2Getdents 2 0 1000 none).map (fun r => (r.1.ret, r.1.entries)) = none := by
  decide +kernel

end ExscapeOS.Ext2
