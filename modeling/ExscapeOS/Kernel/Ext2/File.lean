import Mathlib.Tactic
import Mathlib.Data.List.GetD
import ExscapeOS.Lib.Word

/-!
# `ext2_read_file`

The blocks of a file are found through twelve pointers in the inode, and through blocks of pointers
behind three more. `ext2_read_file` takes the number of data blocks from `i_blocks`. This counts the
blocks of pointers too, so that it asks for more blocks than there are. The surplus pointers are 0
and are skipped, unless they would begin another level.

Blocks that are read are collected in a list, in their order in the buffer.
-/
namespace ExscapeOS.Ext2

open Lib List

/-- An ext2 partition: the bytes of its blocks. -/
structure Disk where
  /-- `s_log_block_size`. -/
  logBlockSize : Nat
  byte : Nat → Nat → UInt8

abbrev Block : Type := List UInt8

namespace Disk

variable (part : Disk)

def blocksize : Nat := 1024 * 2 ^ part.logBlockSize

/-- The number of pointers in a block. -/
def pointers : Nat := part.blocksize / 4

def block (b : Nat) : Block := (List.range part.blocksize).map (part.byte b)

/-- A block of the buffer that has not been read. -/
def zeros : Block := .replicate part.blocksize 0

/-- A pointer in a block. -/
def word (b i : Nat) : Nat :=
  (((part.byte b (4 * i + 3)).toNat * 256 + (part.byte b (4 * i + 2)).toNat) * 256 +
    (part.byte b (4 * i + 1)).toNat) * 256 + (part.byte b (4 * i)).toNat

/-! ## Reading -/

def readDirectBlocks (blocklist : Nat → Nat) (num : Nat) : Option (List Block) := do
  kassert (blocklist 0 ≠ 0)
  kassert (0 < num)
  return (List.range num).map fun i =>
    if blocklist i = 0 then part.zeros else part.block (blocklist i)

def readSinglyIndirectBlocks (singlyBlock maxNum : Nat) : Option (List Block) := do
  kassert (2 < singlyBlock)
  kassert (maxNum ≤ part.pointers)
  part.readDirectBlocks (part.word singlyBlock) maxNum

/-- The loop over a block of pointers. Each leads to at most `most` data blocks. -/
def readIndirectBlocks (read : Nat → Nat → Option (List Block)) (most : Nat) (blocklist : Nat → Nat)
    (num : Nat) : Option (List Block) :=
  (List.range part.pointers).foldlM (fun done i =>
    if done.length < num ∧ blocklist i ≠ 0 then
      (read (blocklist i) (min (num - done.length) most)).map (done ++ ·)
    else some done) []

def readDoublyIndirectBlocks (doublyBlock num : Nat) : Option (List Block) := do
  kassert (2 < doublyBlock)
  kassert (num ≤ part.pointers * part.pointers)
  part.readIndirectBlocks part.readSinglyIndirectBlocks part.pointers (part.word doublyBlock) num

def readTriplyIndirectBlocks (triplyBlock num : Nat) : Option (List Block) := do
  kassert (2 < triplyBlock)
  part.readIndirectBlocks part.readDoublyIndirectBlocks (part.pointers * part.pointers)
    (part.word triplyBlock) num

end Disk

/-- `ext2_inode_t`. -/
structure Inode where
  iSize : Nat
  /-- In units of 512 bytes. -/
  iBlocks : Nat
  iDirect : Nat → Nat
  iSingly : Nat
  iDoubly : Nat
  iTriply : Nat

namespace Disk

variable (part : Disk)

/-- The part of the buffer for `num` blocks. -/
def pad (num : Nat) (read : List Block) : List Block :=
  read ++ .replicate (num - read.length) part.zeros

/-- The buffer of `ext2_read_file`, and the size. -/
def ext2ReadFile (inode : Inode) : Option (List UInt8 × Nat) := do
  let numBlocks := inode.iBlocks / (2 * 2 ^ part.logBlockSize)
  kassert (0 < numBlocks)
  let direct ← part.readDirectBlocks inode.iDirect (min 12 numBlocks)
  let p := part.pointers
  -- the conditions are `num_blocks > read_blocks`
  let singly ← (if 12 < numBlocks then
      part.readSinglyIndirectBlocks inode.iSingly (min (numBlocks - 12) p)
    else some [])
  let doubly ← (if 12 + p < numBlocks then
      part.readDoublyIndirectBlocks inode.iDoubly (min (numBlocks - 12 - p) (p * p))
    else some [])
  let triply ← (if 12 + p + p * p < numBlocks then
      part.readTriplyIndirectBlocks inode.iTriply (numBlocks - 12 - p - p * p)
    else some [])
  return ((direct ++ part.pad (min (numBlocks - 12) p) singly ++
    part.pad (min (numBlocks - 12 - p) (p * p)) doubly ++
    part.pad (numBlocks - 12 - p - p * p) triply).flatten, inode.iSize)

/-! ## Files -/

/-- A piece of the list of blocks that is behind one pointer. -/
def piece (d i : Nat) (l : List Nat) : List Nat :=
  (l.drop (i * part.pointers ^ d)).take (part.pointers ^ d)

/-- A pointer with `d` levels of indirection leads to data blocks. It is 0 if there are none. -/
def Points : Nat → Nat → List Nat → Prop
  | 0, b, l => l = [] ∧ b = 0 ∨ b ≠ 0 ∧ l = [b]
  | d + 1, b, l => l = [] ∧ b = 0 ∨
    l ≠ [] ∧ 2 < b ∧ ∀ i < part.pointers, Points d (part.word b i) (part.piece d i l)

/-- The number of blocks of pointers for `m` data blocks behind a pointer. -/
def indirect : Nat → Nat → Nat
  | 0, _ => 0
  | d + 1, m =>
    if m = 0 then 0
    else 1 + ((List.range part.pointers).map fun i =>
      indirect d (min (m - i * part.pointers ^ d) (part.pointers ^ d))).sum

/-- The number of blocks of a file with `n` data blocks. -/
def allBlocks (n : Nat) : Nat :=
  let p := part.pointers
  n + (part.indirect 1 (min (n - 12) p) + part.indirect 2 (min (n - 12 - p) (p ^ 2)) +
    part.indirect 3 (n - 12 - p - p ^ 2))

end Disk

/-- A file without holes. -/
structure File (part : Disk) where
  inode : Inode
  blocks : List Nat
  some_block : blocks ≠ []
  addressable : blocks.length ≤ 12 + part.pointers + part.pointers ^ 2 + part.pointers ^ 3
  no_hole : ∀ b ∈ blocks, b ≠ 0
  direct : ∀ i < 12, inode.iDirect i = blocks.getD i 0
  singly : part.Points 1 inode.iSingly ((blocks.drop 12).take part.pointers)
  doubly : part.Points 2 inode.iDoubly
    ((blocks.drop (12 + part.pointers)).take (part.pointers ^ 2))
  triply : part.Points 3 inode.iTriply (blocks.drop (12 + part.pointers + part.pointers ^ 2))
  counted : inode.iBlocks = part.allBlocks blocks.length * (2 * 2 ^ part.logBlockSize)
  size : (blocks.length - 1) * part.blocksize < inode.iSize ∧
    inode.iSize ≤ blocks.length * part.blocksize

namespace Disk

variable {part : Disk} {b d i num : Nat} {l : List Nat}

lemma pointers_pos (part : Disk) : 0 < part.pointers := by
  have : 0 < 2 ^ part.logBlockSize := Nat.two_pow_pos _
  unfold pointers blocksize
  omega

/-! ## A level of indirection -/

/-- A function that reads the blocks behind a pointer, and zeros beyond them. -/
def Reads (part : Disk) (read : Nat → Nat → Option (List Block)) (d : Nat) : Prop :=
  ∀ b l num, part.Points d b l → l ≠ [] → l.length ≤ num → num ≤ part.pointers ^ d →
    ∃ r, read b num = some r ∧ l.map part.block <+: r ∧ r.length ≤ num

lemma Points.ne_zero (h : part.Points d b l) (some_block : l ≠ []) : b ≠ 0 := by
  cases d with
  | zero =>
    obtain ⟨none_left, -⟩ | ⟨nonzero, -⟩ := h
    · exact absurd none_left some_block
    · exact nonzero
  | succ d =>
    obtain ⟨none_left, -⟩ | ⟨-, large, -⟩ := h
    · exact absurd none_left some_block
    · exact Nat.ne_of_gt (Nat.zero_lt_of_lt large)

lemma Points.eq_zero (h : part.Points d b []) : b = 0 := by
  cases d with
  | zero => simpa [Points] using h
  | succ d => simpa [Points] using h

lemma Points.two_lt (h : part.Points (d + 1) b l) (some_block : l ≠ []) : 2 < b := by
  obtain ⟨none_left, -⟩ | ⟨-, large, -⟩ := h
  · exact absurd none_left some_block
  · exact large

lemma Points.word (h : part.Points 1 b l) (some_block : l ≠ []) (lt : i < part.pointers) :
    part.word b i = l.getD i 0 ∧ (i < l.length → part.word b i ≠ 0) := by
  obtain ⟨none_left, -⟩ | ⟨-, -, each⟩ := h
  · exact absurd none_left some_block
  · have pointer := each i lt
    simp only [Points, piece, pow_zero, mul_one] at pointer
    by_cases inside : i < l.length
    · have one : (l[i] :: l.drop (i + 1)).take 1 = [l[i]] := rfl
      rw [drop_eq_getElem_cons inside, one] at pointer
      simp only [List.cons.injEq, and_true, reduceCtorEq, false_and, false_or] at pointer
      rw [getD_eq_getElem _ _ inside, pointer.2]
      exact ⟨rfl, fun _ => pointer.1⟩
    · rw [drop_eq_nil_of_le (not_lt.mp inside)] at pointer
      have zero : part.word b i = 0 := by tauto
      rw [getD_eq_default _ _ (not_lt.mp inside)]
      exact ⟨zero, fun lt => absurd lt inside⟩

lemma readDirectBlocks_eq (part : Disk) {blocklist : Nat → Nat} (some_block : l ≠ [])
    (le : l.length ≤ num) (list : ∀ i < num, blocklist i = l.getD i 0) (no_hole : ∀ b ∈ l, b ≠ 0) :
    ∃ r, part.readDirectBlocks blocklist num = some r ∧ l.map part.block <+: r ∧
      r.length = num := by
  have pos := length_pos_iff.mpr some_block
  have each (i : Nat) (inside : i < l.length) : blocklist i = l[i] ∧ blocklist i ≠ 0 := by
    rw [list i (by omega), getD_eq_getElem _ _ inside]
    exact ⟨rfl, no_hole _ (getElem_mem inside)⟩
  refine ⟨_, by simp [readDirectBlocks, kassert, (each 0 pos).2, pos.trans_le le]; rfl, ?_, by simp⟩
  rw [prefix_iff_eq_take]
  refine ext_getElem (by simp [le]) fun i lt lt' => ?_
  rw [length_map] at lt
  obtain ⟨eq, nonzero⟩ := each i lt
  simp [nonzero, ← eq]

lemma reads_singly (part : Disk) : part.Reads part.readSinglyIndirectBlocks 1 := by
  intro b l num points some_block le fits
  rw [pow_one] at fits
  have list (i : Nat) (lt : i < num) := points.word some_block (lt.trans_le fits)
  have no_hole : ∀ b ∈ l, b ≠ 0 := by
    intro b mem
    obtain ⟨i, inside, rfl⟩ := getElem_of_mem mem
    have pointer := list i (by omega)
    rw [getD_eq_getElem _ _ inside] at pointer
    exact pointer.1 ▸ pointer.2 inside
  obtain ⟨r, read, blocks, length⟩ :=
    part.readDirectBlocks_eq some_block le (fun i lt => (list i lt).1) no_hole
  have large := points.two_lt some_block
  exact ⟨r, by simp [readSinglyIndirectBlocks, kassert, large, fits, read], blocks, length.le⟩

/-- The loop over the pointers has read the pieces before `k`, or all. -/
def ReadUpTo (part : Disk) (d : Nat) (l : List Nat) (num k : Nat) (r : List Block) : Prop :=
  r.length ≤ num ∧ (k * part.pointers ^ d ≤ l.length ∧
      r = (l.take (k * part.pointers ^ d)).map part.block ∨
    l.length ≤ k * part.pointers ^ d ∧ l.map part.block <+: r)

lemma take_succ_piece (k : Nat) : l.take ((k + 1) * part.pointers ^ d) =
    l.take (k * part.pointers ^ d) ++ part.piece d k l := by
  rw [Nat.succ_mul, take_add, piece]

lemma ReadUpTo.next {read : Nat → Nat → Option (List Block)} {k : Nat} {r : List Block}
    (h : part.ReadUpTo d l num k r) (reads : part.Reads read d)
    (points : part.Points d (part.word b k) (part.piece d k l)) (le : l.length ≤ num) :
    ∃ r', (if r.length < num ∧ part.word b k ≠ 0 then
        (read (part.word b k) (min (num - r.length) (part.pointers ^ d))).map (r ++ ·)
      else some r) = some r' ∧ part.ReadUpTo d l num (k + 1) r' := by
  obtain ⟨bound, progress⟩ := h
  have q_pos : 0 < part.pointers ^ d := Nat.pow_pos part.pointers_pos
  have succ : (k + 1) * part.pointers ^ d = k * part.pointers ^ d + part.pointers ^ d :=
    Nat.succ_mul _ _
  by_cases rest : l.length ≤ k * part.pointers ^ d
  · -- no piece is left, and the pointer is 0
    have none_left : part.piece d k l = [] := by
      rw [piece, drop_eq_nil_of_le rest, take_nil]
    rw [none_left] at points
    refine ⟨r, if_neg fun active => active.2 points.eq_zero, bound, .inr ⟨by omega, ?_⟩⟩
    obtain ⟨-, rfl⟩ | ⟨-, all⟩ := progress
    · rw [take_of_length_le rest]
    · exact all
  · obtain ⟨-, rfl⟩ | ⟨past, -⟩ := progress
    swap
    · exact absurd past rest
    have length : (part.piece d k l).length =
        min (part.pointers ^ d) (l.length - k * part.pointers ^ d) := by simp [piece]
    have some_left : part.piece d k l ≠ [] := length_pos_iff.mp (by omega)
    have done : ((l.take (k * part.pointers ^ d)).map part.block).length =
      k * part.pointers ^ d := by
      simp
      omega
    rw [done]
    obtain ⟨r', read_eq, blocks, most⟩ := reads _ _ (min (num - k * part.pointers ^ d)
      (part.pointers ^ d)) points some_left (by omega) (Nat.min_le_right _ _)
    refine ⟨_, by rw [if_pos ⟨by omega, points.ne_zero some_left⟩, read_eq]; rfl, ?_, ?_⟩
    · rw [length_append, done]
      omega
    · by_cases full : (k + 1) * part.pointers ^ d ≤ l.length
      · refine .inl ⟨full, ?_⟩
        have eq : (part.piece d k l).map part.block = r' :=
          blocks.eq_of_length_le (by rw [length_map]; omega)
        rw [take_succ_piece, map_append, eq]
      · refine .inr ⟨by omega, ?_⟩
        have all : l.take ((k + 1) * part.pointers ^ d) =
          l.take (k * part.pointers ^ d) ++ part.piece d k l := take_succ_piece k
        rw [take_of_length_le (by omega)] at all
        nth_rewrite 1 [all]
        rw [map_append]
        exact (prefix_append_right_inj _).mpr blocks

/-- The loop reads all blocks, if it is asked for as many or more. -/
lemma readIndirectBlocks_eq {read : Nat → Nat → Option (List Block)} (reads : part.Reads read d)
    (points : part.Points (d + 1) b l) (some_block : l ≠ []) (le : l.length ≤ num)
    (fits : l.length ≤ part.pointers ^ (d + 1)) :
    ∃ r, part.readIndirectBlocks read (part.pointers ^ d) (part.word b) num = some r ∧
      l.map part.block <+: r ∧ r.length ≤ num := by
  obtain ⟨none_left, -⟩ | ⟨-, -, each⟩ := points
  · exact absurd none_left some_block
  have upTo (k : Nat) (le' : k ≤ part.pointers) : ∃ r, (List.range k).foldlM (fun done i =>
      if done.length < num ∧ part.word b i ≠ 0 then
        (read (part.word b i) (min (num - done.length) (part.pointers ^ d))).map (done ++ ·)
      else some done) [] = some r ∧ part.ReadUpTo d l num k r := by
    induction k with
    | zero => exact ⟨[], rfl, Nat.zero_le _, .inl (by simp)⟩
    | succ k ih =>
      obtain ⟨r, read_eq, progress⟩ := ih (by omega)
      obtain ⟨r', next, progress⟩ := progress.next reads (each k (by omega)) le
      refine ⟨r', ?_, progress⟩
      rw [range_succ, foldlM_append, read_eq]
      simpa using next
  obtain ⟨r, read_eq, bound, progress⟩ := upTo part.pointers le_rfl
  refine ⟨r, read_eq, ?_, bound⟩
  rw [pow_succ, mul_comm] at fits
  obtain ⟨-, rfl⟩ | ⟨-, all⟩ := progress
  · rw [take_of_length_le fits]
  · exact all

lemma reads_doubly (part : Disk) : part.Reads part.readDoublyIndirectBlocks 2 := by
  intro b l num points some_block le fits
  have large := points.two_lt some_block
  obtain ⟨r, read, blocks⟩ := readIndirectBlocks_eq part.reads_singly points some_block le
    (le.trans fits)
  rw [pow_one] at read
  rw [pow_two] at fits
  exact ⟨r, by simp [readDoublyIndirectBlocks, kassert, large, fits, read], blocks⟩

lemma readTriplyIndirectBlocks_eq (points : part.Points 3 b l) (some_block : l ≠ [])
    (le : l.length ≤ num) (fits : l.length ≤ part.pointers ^ 3) :
    ∃ r, part.readTriplyIndirectBlocks b num = some r ∧ l.map part.block <+: r := by
  have large := points.two_lt some_block
  obtain ⟨r, read, blocks, -⟩ := readIndirectBlocks_eq part.reads_doubly points some_block le fits
  rw [pow_two] at read
  exact ⟨r, by simp [readTriplyIndirectBlocks, kassert, large, read], blocks⟩

/-! ## All levels -/

lemma le_allBlocks (part : Disk) (n : Nat) : n ≤ part.allBlocks n := Nat.le_add_right _ _

lemma allBlocks_of_le {n : Nat} (small : n ≤ 12) : part.allBlocks n = n := by
  have none_left : n - 12 = 0 := Nat.sub_eq_zero_of_le small
  simp [allBlocks, indirect, none_left]

/-- With the blocks of pointers, the count stays in the level of the last data block. -/
def Fits (part : Disk) (n : Nat) : Prop :=
  (n ≤ 12 + part.pointers → part.allBlocks n ≤ 12 + part.pointers) ∧
  (n ≤ 12 + part.pointers + part.pointers ^ 2 →
    part.allBlocks n ≤ 12 + part.pointers + part.pointers ^ 2)

lemma prefix_append {α : Type} {A B R S : List α} (left : A <+: R) (right : B <+: S)
    (full : B ≠ [] → R.length ≤ A.length) : A ++ B <+: R ++ S := by
  by_cases none_left : B = []
  · rw [none_left, append_nil]
    exact left.trans (List.prefix_append _ _)
  · rw [left.eq_of_length_le (full none_left)]
    exact (prefix_append_right_inj _).mpr right

lemma length_pad {r : List Block} (le : r.length ≤ num) : (part.pad num r).length = num := by
  simp [pad]
  omega

end Disk

namespace File

open Disk

variable {part : Disk} (file : File part)

lemma numBlocks : file.inode.iBlocks / (2 * 2 ^ part.logBlockSize) =
    part.allBlocks file.blocks.length := by
  rw [file.counted, Nat.mul_div_cancel _ (Nat.mul_pos two_pos (Nat.two_pow_pos _))]

lemma read_direct : ∃ r, part.readDirectBlocks file.inode.iDirect
      (min 12 (part.allBlocks file.blocks.length)) = some r ∧
    (file.blocks.take 12).map part.block <+: r ∧
    r.length = min 12 (part.allBlocks file.blocks.length) := by
  have le := part.le_allBlocks file.blocks.length
  refine part.readDirectBlocks_eq ?_ (by simp; omega) (fun i lt => ?_) fun b mem =>
    file.no_hole b (mem_of_mem_take mem)
  · simp [file.some_block]
  · rw [file.direct i (by omega)]
    simp only [getD_eq_getElem?_getD, getElem?_take]
    rw [if_pos (by omega)]

lemma read_singly : ∃ r, (if 12 < part.allBlocks file.blocks.length then
      part.readSinglyIndirectBlocks file.inode.iSingly
        (min (part.allBlocks file.blocks.length - 12) part.pointers)
    else some []) = some r ∧ ((file.blocks.drop 12).take part.pointers).map part.block <+: r ∧
    r.length ≤ min (part.allBlocks file.blocks.length - 12) part.pointers := by
  have le := part.le_allBlocks file.blocks.length
  have pos := part.pointers_pos
  split
  · rename_i more
    have long : 12 < file.blocks.length := by
      by_contra small
      rw [allBlocks_of_le (not_lt.mp small)] at more
      exact small more
    refine part.reads_singly _ _ _ file.singly (length_pos_iff.mp ?_) ?_ ?_
    · simp
      omega
    · simp
      omega
    · simp
  · refine ⟨[], rfl, ?_, Nat.zero_le _⟩
    rw [drop_eq_nil_of_le (by omega)]
    simp

lemma read_doubly (fits : part.Fits file.blocks.length) :
    ∃ r, (if 12 + part.pointers < part.allBlocks file.blocks.length then
      part.readDoublyIndirectBlocks file.inode.iDoubly
        (min (part.allBlocks file.blocks.length - 12 - part.pointers)
          (part.pointers * part.pointers))
    else some []) = some r ∧
    ((file.blocks.drop (12 + part.pointers)).take (part.pointers ^ 2)).map part.block <+: r ∧
    r.length ≤ min (part.allBlocks file.blocks.length - 12 - part.pointers)
      (part.pointers * part.pointers) := by
  have le := part.le_allBlocks file.blocks.length
  have pos : 0 < part.pointers ^ 2 := Nat.pow_pos part.pointers_pos
  rw [← pow_two]
  split
  · rename_i more
    have long : 12 + part.pointers < file.blocks.length := by
      by_contra small
      exact absurd (fits.1 (not_lt.mp small)) (not_le.mpr more)
    refine part.reads_doubly _ _ _ file.doubly (length_pos_iff.mp ?_) ?_ (Nat.min_le_right _ _)
    · simp only [length_take, length_drop]
      omega
    · simp only [length_take, length_drop]
      omega
  · refine ⟨[], rfl, ?_, Nat.zero_le _⟩
    rw [drop_eq_nil_of_le (by omega)]
    simp

lemma read_triply (fits : part.Fits file.blocks.length) :
    ∃ r, (if 12 + part.pointers + part.pointers * part.pointers < part.allBlocks file.blocks.length
      then part.readTriplyIndirectBlocks file.inode.iTriply
        (part.allBlocks file.blocks.length - 12 - part.pointers - part.pointers * part.pointers)
    else some []) = some r ∧
    (file.blocks.drop (12 + part.pointers + part.pointers ^ 2)).map part.block <+: r := by
  have le := part.le_allBlocks file.blocks.length
  have addressable := file.addressable
  rw [← pow_two]
  split
  · rename_i more
    have long : 12 + part.pointers + part.pointers ^ 2 < file.blocks.length := by
      by_contra small
      exact absurd (fits.2 (not_lt.mp small)) (not_le.mpr more)
    refine readTriplyIndirectBlocks_eq file.triply (length_pos_iff.mp ?_) ?_ ?_
    · rw [length_drop]
      omega
    · rw [length_drop]
      omega
    · rw [length_drop]
      omega
  · refine ⟨[], rfl, ?_⟩
    rw [drop_eq_nil_of_le (by omega)]
    simp

lemma blocks_eq : file.blocks = file.blocks.take 12 ++ ((file.blocks.drop 12).take part.pointers ++
    ((file.blocks.drop (12 + part.pointers)).take (part.pointers ^ 2) ++
      file.blocks.drop (12 + part.pointers + part.pointers ^ 2))) := by
  have triply : file.blocks.drop (12 + part.pointers + part.pointers ^ 2) =
      (file.blocks.drop (12 + part.pointers)).drop (part.pointers ^ 2) := by rw [drop_drop]
  have doubly : file.blocks.drop (12 + part.pointers) =
      (file.blocks.drop 12).drop part.pointers := by rw [drop_drop]
  rw [triply, take_append_drop, doubly, take_append_drop, take_append_drop]

def contents : List UInt8 := ((file.blocks.map part.block).flatten).take file.inode.iSize

lemma length_flatten : (file.blocks.map part.block).flatten.length =
    file.blocks.length * part.blocksize := by
  simp [List.length_flatten, block, Function.comp_def]

lemma take_flatten {buf : List Block} (h : file.blocks.map part.block <+: buf) :
    buf.flatten.take file.inode.iSize = file.contents := by
  obtain ⟨rest, rfl⟩ := h
  rw [flatten_append, take_append_of_le_length]
  · rfl
  · rw [file.length_flatten]
    exact file.size.2

/-- If the count went beyond the level of the last data block, the pointer of the next level would
be 0. -/
lemma fits_of_read {r : List UInt8 × Nat} (read : part.ext2ReadFile file.inode = some r) :
    part.Fits file.blocks.length := by
  simp only [ext2ReadFile, file.numBlocks, Option.bind_eq_bind, Option.bind_eq_some_iff] at read
  obtain ⟨-, -, direct, -, singly, -, doubly, read_doubly, triply, read_triply, -⟩ := read
  constructor
  · intro short
    by_contra more
    have none_left := file.doubly
    rw [drop_eq_nil_of_le short, take_nil] at none_left
    rw [if_pos (not_le.mp more), none_left.eq_zero] at read_doubly
    cases read_doubly
  · intro short
    by_contra more
    have none_left := file.triply
    rw [drop_eq_nil_of_le short] at none_left
    rw [← pow_two, if_pos (not_le.mp more), none_left.eq_zero] at read_triply
    cases read_triply

lemma exists_read (fits : part.Fits file.blocks.length) :
    ∃ buf, part.ext2ReadFile file.inode = some (buf, file.inode.iSize) ∧
      buf.take file.inode.iSize = file.contents := by
  have le := part.le_allBlocks file.blocks.length
  have pos : 0 < part.allBlocks file.blocks.length :=
    (length_pos_iff.mpr file.some_block).trans_le le
  obtain ⟨direct, read_direct, blocks₀, length₀⟩ := file.read_direct
  obtain ⟨singly, read_singly, blocks₁, length₁⟩ := file.read_singly
  obtain ⟨doubly, read_doubly, blocks₂, length₂⟩ := file.read_doubly fits
  obtain ⟨triply, read_triply, blocks₃⟩ := file.read_triply fits
  have entry : kassert (0 < part.allBlocks file.blocks.length) = some () := if_pos pos
  refine ⟨_, by simp only [ext2ReadFile, file.numBlocks, Option.bind_eq_bind, entry, read_direct,
    read_singly, read_doubly, read_triply, Option.bind_some]; rfl, ?_⟩
  refine file.take_flatten ?_
  have parts := congrArg (List.map part.block) file.blocks_eq
  rw [map_append, map_append, map_append] at parts
  rw [parts, append_assoc, append_assoc]
  -- a level that is followed by another is full
  refine prefix_append blocks₀ (prefix_append (blocks₁.trans (List.prefix_append _ _))
    (prefix_append
    (blocks₂.trans (List.prefix_append _ _)) (blocks₃.trans (List.prefix_append _ _)) ?_) ?_) ?_
  · intro some_left
    have long : 12 + part.pointers + part.pointers ^ 2 < file.blocks.length := by
      by_contra short
      exact some_left (by rw [drop_eq_nil_of_le (by omega)]; rfl)
    rw [length_pad length₂]
    simp only [length_map, length_take, length_drop, ← pow_two]
    omega
  · intro some_left
    have long : 12 + part.pointers < file.blocks.length := by
      by_contra short
      refine some_left ?_
      rw [drop_eq_nil_of_le (by omega), drop_eq_nil_of_le (by omega), take_nil]
      rfl
    rw [length_pad length₁]
    simp only [length_map, length_take, length_drop]
    omega
  · intro some_left
    have long : 12 < file.blocks.length := by
      by_contra short
      refine some_left ?_
      rw [drop_eq_nil_of_le (by omega), drop_eq_nil_of_le (by omega),
        drop_eq_nil_of_le (by omega), take_nil, take_nil]
      rfl
    rw [length₀, length_map, length_take]
    omega

/-- The file is read, without a failed assertion, exactly if with the blocks of pointers the count
stays in the level of the last data block. -/
theorem read_iff : (∃ buf, part.ext2ReadFile file.inode = some (buf, file.inode.iSize) ∧
    buf.take file.inode.iSize = file.contents) ↔ part.Fits file.blocks.length :=
  ⟨fun ⟨_, read, _⟩ => file.fits_of_read read, file.exists_read⟩

end File

/-! ## A file that fills the singly indirect block -/

/-- The blocks are those from 100 on. Block 10 has the pointers behind the first twelve. -/
def fullSingly : Disk where
  logBlockSize := 0
  byte b i :=
    if b = 10 then
      if i % 4 = 0 then (112 + i / 4).toUInt8
      else if i % 4 = 1 then ((112 + i / 4) / 256).toUInt8
      else 0
    else 0

def fullSinglyFile : File fullSingly where
  inode := {
    iSize := 268 * 1024
    iBlocks := 269 * 2
    iDirect := fun i => 100 + i
    iSingly := 10
    iDoubly := 0
    iTriply := 0 }
  blocks := (List.range 268).map (100 + ·)
  some_block := by decide +kernel
  addressable := by decide +kernel
  no_hole := by simp
  direct := by decide +kernel
  singly := by
    refine .inr ⟨by decide +kernel, by decide, ?_⟩
    simp only [Disk.Points]
    decide +kernel
  doubly := .inl (by decide +kernel)
  triply := .inl (by decide +kernel)
  counted := by decide +kernel
  size := by decide +kernel

/-- The 269th block is expected behind the doubly indirect pointer, which is 0. -/
theorem full_singly_fails : fullSingly.ext2ReadFile fullSinglyFile.inode = none := by
  decide +kernel

end ExscapeOS.Ext2
