import ExscapeOS.Kernel.Fat.Stat

/-!
# `fat_read` and `fat_lseek`

An open file has an offset and the cluster for it, `cur_block`. `fat_read` reads clusters that
follow each other on the disk with one request. Their number, `continuous_clusters`, is not reset
within a call, and after a request `cur_block` is taken to be at the end of its last cluster.

The size comes from `fat_fstat`: `fat_lseek` calls it every time, and `fat_read` until it has found
a size that is not 0. Both assert that it has found the entry of this file.
-/
namespace ExscapeOS.Fat

open Lib

/-- `part->cluster_size`. -/
def Partition.clusterSize (part : Partition) : Nat := part.sectorsPerCluster * 512

def Partition.cluster (part : Partition) (c : Nat) : List UInt8 :=
  (List.range part.clusterSize).map (part.data c)

/-- `disk_read` of `k` clusters. -/
def diskRead (part : Partition) (c k : Nat) : Option (List UInt8) :=
  if (List.range' c k).all part.readable then some ((List.range' c k).flatMap part.cluster)
  else none

structure Cursor where
  offset : Nat
  curBlock : Nat
  deriving DecidableEq

/-- What calls change: the `struct open_file`, and the variables of `fat_parse_dir`. -/
structure Handle where
  cursor : Cursor
  /-- `file->size`. -/
  size : Nat
  statics : Statics

/-- After `fat_open`. -/
def OpenFile.opened (file : OpenFile) (s : Statics) : Handle :=
  { cursor := { offset := 0, curBlock := file.ino }, size := 0, statics := s }

/-! ## Reading -/

/-- The loop that counts clusters which follow each other on the disk. -/
def coalesce (part : Partition) (length : Nat) : Nat → Nat → Nat → Option Nat
  | 0, _, k => some k
  | fuel + 1, cur, k => do
    let next ← fatNextCluster part cur
    if next = cur + 1 ∧ k * part.clusterSize < length ∧ k < 32 then
      coalesce part length fuel next (k + 1)
    else some k

/-- The variables of the loop of `fat_read`. -/
structure ReadState where
  cursor : Cursor
  localOffset : Nat
  length : Nat
  /-- `continuous_clusters`. -/
  k : Nat
  out : List UInt8

/-- One round of the loop. The call ends with the result of the last. -/
def readRound (part : Partition) (size : Nat) (s : ReadState) :
    Option (ReadState ⊕ (List UInt8 × Cursor)) := do
  let clusterSize := part.clusterSize
  let k ← (if clusterSize < s.length then coalesce part s.length 32 s.cursor.curBlock s.k
    else some s.k)
  let clusterBuf ← diskRead part s.cursor.curBlock k
  let curBlock := s.cursor.curBlock + (k - 1)
  -- both limits: what is left of the file or of the request, and of the buffer
  let bytesCopied :=
    min (min (min (size - s.cursor.offset) s.length) (k * clusterSize))
      (k * clusterSize - s.localOffset)
  let out := s.out ++ (clusterBuf.drop s.localOffset).take bytesCopied
  let offset := s.cursor.offset + bytesCopied
  let localOffset := s.localOffset + bytesCopied
  kassert (offset ≤ size)
  let length := s.length - bytesCopied
  if clusterSize ≤ localOffset then
    let next ← fatNextCluster part curBlock
    if 0x0ffffff8 ≤ curBlock ∨ curBlock < 2 then
      kassert (offset = size)
      return .inr (out, ⟨offset, curBlock⟩)
    else if length = 0 ∨ size ≤ offset then
      return .inr (out, ⟨offset, next⟩)
    else
      return .inl ⟨⟨offset, next⟩, localOffset % clusterSize, length, k, out⟩
  else if length = 0 ∨ size ≤ offset then
    return .inr (out, ⟨offset, curBlock⟩)
  else
    return .inl ⟨⟨offset, curBlock⟩, localOffset, length, k, out⟩

/-- `fat_read` once the size is known, if it ends within `fuel` rounds. -/
def readContents (fuel : Nat) (part : Partition) (size length : Nat) (c : Cursor) :
    Option (List UInt8 × Cursor) :=
  if size ≤ c.offset then some ([], c)
  else (loop (attempt (readRound part size)) fuel
    ⟨c, c.offset % part.clusterSize, length, 1, []⟩).join

/-- `-EISDIR`. -/
def eisdir : Int := -21

/-- `fat_read`. There is no result if the kernel panics. -/
def fatRead (fuel : Nat) (file : OpenFile) (length : Nat) (h : Handle) :
    Option (Reply UInt8 × Handle) :=
  if file.ino = 0 then do
    let (r, s) ← file.fatFstat fuel h.statics
    kassert (r.ret = 0 ∧ r.buf.map Stat.stSize = some 0)
    return (⟨0, []⟩, { h with statics := s })
  else if h.size = 0 then do
    let (r, s) ← file.fatFstat fuel h.statics
    -- the result is not looked at: the variable may not have been set
    let st ← r.buf
    kassert (st.stDev = file.dev)
    kassert (st.stIno = file.ino)
    if st.isDir then return (⟨eisdir, []⟩, { h with statics := s })
    else read { h with size := st.stSize, statics := s }
  else read h
where
  read (h : Handle) : Option (Reply UInt8 × Handle) :=
    (readContents fuel file.part h.size length h.cursor).map fun (bytes, c) =>
      (⟨bytes.length, bytes⟩, { h with cursor := c })

/-! ## Seeking -/

inductive Whence where
  | set | cur | end | other

/-- The loop that goes from the first cluster to that of the offset. -/
def walkChain (part : Partition) : Nat → Nat → Option Nat
  | 0, cur => some cur
  | n + 1, cur => do
    let next ← fatNextCluster part cur
    kassert (next < 0x0ffffff8)
    walkChain part n next

/-- `file_size` of `fat_lseek`. -/
def Stat.fileSize (st : Stat) : Nat := st.stSize % 2 ^ 32

/-- `fat_lseek`. An `off_t` has 64 bits. -/
def fatLseek (fuel : Nat) (file : OpenFile) (offset : Int) (whence : Whence) (h : Handle) :
    Option (Int × Handle) := do
  kassert (2 ≤ file.ino)
  let (r, s) ← file.fatFstat fuel h.statics
  let h := { h with statics := s }
  if r.ret ≠ 0 then return (einval, h)
  else
    let st ← r.buf
    match whence with
    | .set => seekTo st h offset
    | .cur => seekTo st h (wrap64 (offset + h.cursor.offset))
    | .end => seekTo st h (wrap64 (st.fileSize + offset))
    | .other => return (einval, h)
where
  seekTo (st : Stat) (h : Handle) (new : Int) : Option (Int × Handle) :=
    if new < 0 then some (einval, h)
    else if new < st.fileSize then do
      kassert (st.stDev = file.dev)
      kassert (st.stIno = file.ino)
      let cur ← walkChain file.part (new.toNat / file.part.clusterSize) file.ino
      return (new, { h with cursor := ⟨new.toNat, cur⟩ })
    else some (new, { h with cursor := { h.cursor with offset := new.toNat } })

/-! ## Files -/

/-- A file with its chain of clusters. -/
structure Chained extends OpenFile where
  size : Nat
  size_lt : size < 2 ^ 32
  chain : List Nat
  first : ino = chain.headD 0
  valid : ∀ c ∈ chain, 2 ≤ c ∧ c < 0x0ffffff7 ∧ part.readable c
  linked : ∀ i c c', chain[i]? = some c → chain[i + 1]? = some c' →
    (part.fat c &&& 0x0fffffff).toNat = c'
  ended : ∀ c, chain.getLast? = some c → 0x0ffffff8 ≤ (part.fat c &&& 0x0fffffff).toNat
  enough : size ≤ chain.length * part.clusterSize

def Chained.contents (file : Chained) : List UInt8 :=
  (file.chain.flatMap file.part.cluster).take file.size

end ExscapeOS.Fat
