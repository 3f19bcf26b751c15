import ExscapeOS.Kernel.Fat.Read
import ExscapeOS.Lib.Transition

/-!
# What `fat_read` returns

A request gives the right bytes if its clusters follow each other in the file too, and the cursor is
right if it goes to the end of its last cluster (`Chained.round`). So a call is right if all its
requests are for one cluster, or if one request is enough and ends with its last cluster or the
file.
-/
namespace ExscapeOS.Fat

open Lib List Option

/-! ## Pieces of one length -/

section

variable {α β : Type} {f : α → List β} {n : Nat}

lemma drop_flatMap (len : ∀ a, (f a).length = n) (i : Nat) (l : List α) :
    (l.flatMap f).drop (i * n) = (l.drop i).flatMap f := by
  induction l generalizing i with
  | nil => simp
  | cons a l ih =>
    cases i with
    | zero => simp
    | succ i =>
      have past : (i + 1) * n = n + i * n := by rw [Nat.succ_mul, Nat.add_comm]
      rw [flatMap_cons, past, ← drop_drop, drop_left' (len a), ih, drop_succ_cons]

lemma take_flatMap (len : ∀ a, (f a).length = n) (i : Nat) (l : List α) :
    (l.flatMap f).take (i * n) = (l.take i).flatMap f := by
  induction l generalizing i with
  | nil => simp
  | cons a l ih =>
    cases i with
    | zero => simp
    | succ i =>
      have past : (i + 1) * n = (f a).length + i * n := by rw [len, Nat.succ_mul, Nat.add_comm]
      rw [flatMap_cons, past, take_length_add_append, ih, take_succ_cons,
        flatMap_cons]

end

lemma length_cluster (part : Partition) (c : Nat) : (part.cluster c).length = part.clusterSize := by
  simp [Partition.cluster]

lemma Partition.clusterSize_pos (part : Partition) : 0 < part.clusterSize :=
  Nat.mul_pos part.pos (by decide)

namespace Chained

variable {file : Chained} {o n k cur : Nat}

/-- Bytes of clusters that follow each other are bytes of the file. -/
lemma segment (inside : o % file.part.clusterSize + n ≤ k * file.part.clusterSize)
    (le : o + n ≤ file.size) :
    ((((file.chain.drop (o / file.part.clusterSize)).take k).flatMap file.part.cluster).drop
      (o % file.part.clusterSize)).take n = (file.contents.drop o).take n := by
  have len := length_cluster file.part
  have place : o = o / file.part.clusterSize * file.part.clusterSize + o % file.part.clusterSize :=
    (Nat.div_add_mod' o _).symm
  have all : (file.chain.flatMap file.part.cluster).drop o =
      ((file.chain.drop (o / file.part.clusterSize)).flatMap file.part.cluster).drop
        (o % file.part.clusterSize) := by
    nth_rewrite 1 [place]
    rw [← drop_drop, drop_flatMap len]
  rw [← take_flatMap len, contents, drop_take, drop_take, take_take, take_take,
    all, min_eq_left (by omega), min_eq_left (by omega)]

lemma contents_length : file.contents.length = file.size := by
  have enough := file.enough
  have len : (file.chain.flatMap file.part.cluster).length =
      file.chain.length * file.part.clusterSize := by
    simp [length_flatMap, length_cluster]
  rw [contents, length_take, len]
  exact min_eq_left enough

/-- Clusters of the file that follow each other on the disk. -/
def Consecutive (file : Chained) (i cur k : Nat) : Prop :=
  (file.chain.drop i).take k = List.range' cur k

lemma Consecutive.getElem? {i j : Nat} (h : file.Consecutive i cur k) (lt : j < k) :
    file.chain[i + j]? = some (cur + j) := by
  have eq := congrArg (fun l => l[j]?) h
  simpa [getElem?_take, lt, getElem?_range', getElem?_drop] using eq

lemma next_of_getElem? {i : Nat} (h : file.chain[i]? = some cur) :
    ∃ next, fatNextCluster file.part cur = some next ∧
      ((∀ c, file.chain[i + 1]? = some c → next = c) ∧
        (file.chain[i + 1]? = none → 0x0ffffff8 ≤ next)) := by
  have valid := file.valid cur (List.mem_of_getElem? h)
  refine ⟨_, if_neg (by omega), fun c follows => file.linked i cur c h follows, fun last => ?_⟩
  refine file.ended cur ?_
  have lt := (List.getElem?_eq_some_iff.mp h).1
  have le := getElem?_eq_none_iff.mp last
  rw [getLast?_eq_getElem?, ← h]
  congr 1
  omega

/-! ## One request -/

lemma diskRead_eq {i : Nat} (h : file.Consecutive i cur k) :
    diskRead file.part cur k = some (((file.chain.drop i).take k).flatMap file.part.cluster) := by
  have readable : (List.range' cur k).all file.part.readable = true := by
    rw [List.all_eq_true, ← h]
    intro c mem
    exact (file.valid c (mem_of_mem_drop (mem_of_mem_take mem))).2.2
  rw [diskRead, if_pos readable, h]

/-- The cluster for an offset, if it is within the file. -/
def Holds (file : Chained) (o cur : Nat) : Prop :=
  o < file.size → file.chain[o / file.part.clusterSize]? = some cur

/-- The cursor after a request that goes to the end of its last cluster. -/
lemma holds_of_full {next : Nat}
    (inside : o % file.part.clusterSize + n = k * file.part.clusterSize) (pos : 0 < k)
    (follows : ∀ c, file.chain[o / file.part.clusterSize + (k - 1) + 1]? = some c → next = c) :
    file.Holds (o + n) next := by
  intro lt
  have size_pos := file.part.clusterSize_pos
  have enough := file.enough
  have place := Nat.div_add_mod' o file.part.clusterSize
  have sum : o + n = (o / file.part.clusterSize + k) * file.part.clusterSize := by
    rw [Nat.add_mul]
    omega
  have index : (o + n) / file.part.clusterSize = o / file.part.clusterSize + (k - 1) + 1 := by
    rw [sum, Nat.mul_div_cancel _ size_pos]
    omega
  have within : o / file.part.clusterSize + (k - 1) + 1 < file.chain.length := by
    rw [← index]
    exact (Nat.div_lt_iff_lt_mul size_pos).mpr (lt.trans_le enough)
  rw [index, getElem?_eq_getElem within, follows _ (getElem?_eq_getElem within)]

lemma round {k₀ length : Nat} (out : List UInt8) (inside : o < file.size) (pos : 0 < k)
    (consecutive : file.Consecutive (o / file.part.clusterSize) cur k)
    (count : (if file.part.clusterSize < length then coalesce file.part length 32 cur k₀
      else some k₀) = some k)
    (copied : n = min (min (file.size - o) length)
      (k * file.part.clusterSize - o % file.part.clusterSize)) :
    ∃ cur', readRound file.part file.size
        ⟨⟨o, cur⟩, o % file.part.clusterSize, length, k₀, out⟩ = some (
      if length - n = 0 ∨ file.size ≤ o + n then
        .inr (out ++ (file.contents.drop o).take n, ⟨o + n, cur'⟩)
      else .inl ⟨⟨o + n, cur'⟩, (o + n) % file.part.clusterSize, length - n, k,
        out ++ (file.contents.drop o).take n⟩) ∧
      (o % file.part.clusterSize + n = k * file.part.clusterSize ∨ k = 1 →
        file.Holds (o + n) cur') := by
  have size_pos := file.part.clusterSize_pos
  have local_lt := Nat.mod_lt o size_pos
  have k_le : file.part.clusterSize ≤ k * file.part.clusterSize := Nat.le_mul_of_pos_left _ pos
  have bytes := file.segment (o := o) (n := n) (k := k) (by omega) (by omega)
  have last := consecutive.getElem? (j := k - 1) (by omega)
  have valid := file.valid _ (mem_of_getElem? last)
  obtain ⟨next, next_eq, follows, -⟩ := next_of_getElem? last
  have n_eq : min (min (min (file.size - o) length) (k * file.part.clusterSize))
      (k * file.part.clusterSize - o % file.part.clusterSize) = n := by omega
  have within : kassert (o + n ≤ file.size) = some () := if_pos (by omega)
  simp only [readRound, count, diskRead_eq consecutive, bind_eq_bind, bind_some, n_eq,
    bytes, within, next_eq, if_neg (show ¬ (0x0ffffff8 ≤ cur + (k - 1) ∨
      cur + (k - 1) < 2) by omega)]
  by_cases boundary : file.part.clusterSize ≤ o % file.part.clusterSize + n
  · refine ⟨next, ?_, fun full => ?_⟩
    · rw [if_pos boundary, Nat.mod_add_mod]
      split
      · rfl
      · rfl
    · refine holds_of_full ?_ pos follows
      obtain full | rfl := full
      · exact full
      · omega
  · refine ⟨cur + (k - 1), ?_, fun full lt => ?_⟩
    · have rest : (o + n) % file.part.clusterSize = o % file.part.clusterSize + n := by
        rw [← Nat.mod_add_mod, Nat.mod_eq_of_lt (not_le.mp boundary)]
      rw [if_neg boundary, rest]
      split
      · rfl
      · rfl
    · obtain full | rfl := full
      · omega
      · have same : (o + n) / file.part.clusterSize = o / file.part.clusterSize := by
          have place := Nat.div_add_mod' o file.part.clusterSize
          rw [Nat.div_eq_iff size_pos]
          constructor
          · omega
          · omega
        rw [same]
        exact last

/-! ## Counting clusters -/

lemma coalesce_one {i length : Nat} (fuel : Nat) (h : file.chain[i]? = some cur)
    (apart : ∀ c, file.chain[i + 1]? = some c → c ≠ cur + 1) :
    coalesce file.part length (fuel + 1) cur 1 = some 1 := by
  have valid := file.valid cur (mem_of_getElem? h)
  obtain ⟨next, next_eq, follows, last⟩ := next_of_getElem? h
  have elsewhere : next ≠ cur + 1 := by
    cases follower : file.chain[i + 1]? with
    | none =>
      have := last follower
      omega
    | some c =>
      rw [follows c follower]
      exact apart c follower
  simp [coalesce, next_eq, elsewhere]

lemma Consecutive.succ {i : Nat} (h : file.Consecutive i cur k)
    (follows : file.chain[i + k]? = some (cur + k)) : file.Consecutive i cur (k + 1) := by
  have next : (file.chain.drop i)[k]? = some (cur + k) := by rw [getElem?_drop, follows]
  unfold Consecutive at h ⊢
  rw [take_add_one, next, h, range'_concat]
  simp

/-- The number is the largest that the conditions of the loop allow. -/
lemma coalesce_eq {i : Nat} (length fuel k₀ : Nat) (pos : 0 < k₀) (h : file.Consecutive i cur k₀) :
    ∃ k, coalesce file.part length fuel (cur + (k₀ - 1)) k₀ = some k ∧ k₀ ≤ k ∧
      file.Consecutive i cur k ∧ (k = k₀ ∨ (k - 1) * file.part.clusterSize < length) ∧
      ∀ k', k' ≤ k₀ + fuel → k' ≤ 32 → file.Consecutive i cur k' →
        (k' - 1) * file.part.clusterSize < length → k' ≤ k := by
  induction fuel generalizing k₀ with
  | zero => exact ⟨k₀, rfl, le_rfl, h, .inl rfl, fun k' le _ _ _ => le⟩
  | succ fuel ih =>
    have here := h.getElem? (j := k₀ - 1) (by omega)
    have valid := file.valid _ (mem_of_getElem? here)
    obtain ⟨next, next_eq, follows, last⟩ := next_of_getElem? here
    have index : i + (k₀ - 1) + 1 = i + k₀ := by omega
    rw [index] at follows last
    simp only [coalesce, next_eq, bind_eq_bind, bind_some]
    split
    · rename_i more
      have follower : file.chain[i + k₀]? = some (cur + k₀) := by
        cases follower : file.chain[i + k₀]? with
        | none =>
          have := last follower
          omega
        | some c =>
          have := follows c follower
          congr 1
          omega
      obtain ⟨k, counted, le, consecutive, short, most⟩ := ih (k₀ + 1) (by omega) (h.succ follower)
      have same : next = cur + (k₀ + 1 - 1) := by omega
      refine ⟨k, same ▸ counted, by omega, consecutive, .inr ?_, fun k' le' => most k' (by omega)⟩
      obtain rfl | short := short
      · exact more.2.1
      · exact short
    · rename_i stops
      refine ⟨k₀, rfl, le_rfl, h, .inl rfl, fun k' _ small consecutive short => ?_⟩
      by_contra larger
      have follower := consecutive.getElem? (j := k₀) (by omega)
      have le := Nat.mul_le_mul_right file.part.clusterSize (show k₀ ≤ k' - 1 by omega)
      exact stops ⟨by rw [follows _ follower]; omega, by omega, by omega⟩

/-! ## One call -/

/-- Every request of the call is for one cluster: where more is wanted, the next cluster of the file
does not follow on the disk. -/
def Single (file : Chained) (o length : Nat) : Prop :=
  ∀ j c c', file.chain[j]? = some c → file.chain[j + 1]? = some c' →
    o / file.part.clusterSize ≤ j → j * file.part.clusterSize < file.size →
    file.part.clusterSize < o + length - max o (j * file.part.clusterSize) → c' ≠ c + 1

/-- One request is enough, and goes to the end of its last cluster or of the file. -/
def OneRequest (file : Chained) (o length cur : Nat) : Prop :=
  ∃ k, 0 < k ∧ k ≤ 32 ∧ file.Consecutive (o / file.part.clusterSize) cur k ∧
    (k - 1) * file.part.clusterSize < length ∧
    o % file.part.clusterSize + min length (file.size - o) ≤ k * file.part.clusterSize ∧
    (file.size ≤ o + length ∨ o % file.part.clusterSize + length = k * file.part.clusterSize)

lemma consecutive_one {i : Nat} (h : file.chain[i]? = some cur) : file.Consecutive i cur 1 := by
  obtain ⟨lt, rfl⟩ := List.getElem?_eq_some_iff.mp h
  rw [Consecutive, drop_eq_getElem_cons lt]
  rfl

lemma take_contents (length : Nat) : (file.contents.drop o).take (min length (file.size - o)) =
    (file.contents.drop o).take length := by
  rw [take_eq_take_iff, length_drop, contents_length]
  omega

lemma Single.next {length : Nat} (h : file.Single o length) (le : n ≤ length)
    (full : o % file.part.clusterSize + n = file.part.clusterSize) :
    file.Single (o + n) (length - n) := by
  intro j c c' here follows past inside wanted
  have place := Nat.div_add_mod' o file.part.clusterSize
  have sum : o + n = (o / file.part.clusterSize + 1) * file.part.clusterSize := by
    rw [Nat.succ_mul]
    omega
  have index : (o + n) / file.part.clusterSize = o / file.part.clusterSize + 1 := by
    rw [sum, Nat.mul_div_cancel _ file.part.clusterSize_pos]
  refine h j c c' here follows (by omega) inside ?_
  omega

lemma read_single {fuel length : Nat} (out : List UInt8) (inside : o < file.size)
    (holds : file.Holds o cur) (single : file.Single o length) (enough : length < fuel) :
    ∃ cur', loop (attempt (readRound file.part file.size)) fuel
        ⟨⟨o, cur⟩, o % file.part.clusterSize, length, 1, out⟩ =
      some (some (out ++ (file.contents.drop o).take length,
        ⟨o + min length (file.size - o), cur'⟩)) ∧
      file.Holds (o + min length (file.size - o)) cur' := by
  induction fuel generalizing o cur length out with
  | zero => omega
  | succ fuel ih =>
    have size_pos := file.part.clusterSize_pos
    have local_lt := Nat.mod_lt o size_pos
    have here := holds inside
    have count : (if file.part.clusterSize < length then coalesce file.part length 32 cur 1
        else some 1) = some 1 := by
      split
      · refine coalesce_one 31 here fun c follows => single _ cur c here follows le_rfl ?_ ?_
        · exact (Nat.div_mul_le_self o _).trans_lt inside
        · have := Nat.div_mul_le_self o file.part.clusterSize
          omega
      · rfl
    obtain ⟨cur', round, holds'⟩ := file.round out inside one_pos (consecutive_one here) count rfl
    have holds' := holds' (.inr rfl)
    generalize copied : min (min (file.size - o) length)
      (1 * file.part.clusterSize - o % file.part.clusterSize) = n at round holds'
    by_cases done : length - n = 0 ∨ file.size ≤ o + n
    · have all : n = min length (file.size - o) := by omega
      rw [if_pos done] at round
      have bytes : _ = (file.contents.drop o).take length := take_contents length
      rw [← all] at bytes ⊢
      rw [loop_succ_of_inr (attempt_eq_inr.mpr round), bytes]
      exact ⟨cur', rfl, holds'⟩
    · rw [if_neg done] at round
      rw [loop_succ_of_inl (attempt_eq_inl.mpr round)]
      obtain ⟨cur'', rest, holds''⟩ := ih (out ++ (file.contents.drop o).take n) (by omega)
        holds' (single.next (by omega) (by omega)) (by omega)
      have total : o + n + min (length - n) (file.size - (o + n)) =
        o + min length (file.size - o) := by
        omega
      have bytes : (file.contents.drop o).take length =
          (file.contents.drop o).take n ++ (file.contents.drop (o + n)).take (length - n) := by
        rw [← drop_drop, ← take_add]
        congr 1
        omega
      rw [total] at rest holds''
      rw [bytes, ← append_assoc]
      exact ⟨cur'', rest, holds''⟩

lemma read_oneRequest {fuel length : Nat} (inside : o < file.size) (holds : file.Holds o cur)
    (large : file.part.clusterSize < length) (one : file.OneRequest o length cur)
    (enough : 0 < fuel) :
    ∃ cur', loop (attempt (readRound file.part file.size)) fuel
        ⟨⟨o, cur⟩, o % file.part.clusterSize, length, 1, []⟩ =
      some (some ((file.contents.drop o).take length, ⟨o + min length (file.size - o), cur'⟩)) ∧
      file.Holds (o + min length (file.size - o)) cur' := by
  obtain ⟨k', pos', small, consecutive', short', answered, ends⟩ := one
  obtain ⟨k, counted, pos, consecutive, short, most⟩ :=
    coalesce_eq length 32 1 one_pos (consecutive_one (holds inside))
  have le := most k' (by omega) small consecutive' short'
  have le_mul := Nat.mul_le_mul_right file.part.clusterSize le
  rw [Nat.sub_self, Nat.add_zero] at counted
  obtain ⟨cur', round, holds'⟩ := file.round [] inside pos consecutive
    (by rw [if_pos large, counted]) rfl
  have all : min (min (file.size - o) length)
      (k * file.part.clusterSize - o % file.part.clusterSize) = min length (file.size - o) := by
    omega
  have bytes : _ = (file.contents.drop o).take length := take_contents length
  rw [all, bytes, nil_append, if_pos (by omega)] at round
  rw [all] at holds'
  obtain ⟨fuel, rfl⟩ := Nat.exists_eq_succ_of_ne_zero enough.ne'
  refine ⟨cur', loop_succ_of_inr (attempt_eq_inr.mpr round), fun lt => ?_⟩
  -- before the end of the file, the request is as long as the call
  have same : k = k' := by
    refine le_antisymm ?_ le
    by_contra larger
    have := Nat.mul_le_mul_right file.part.clusterSize (show k' ≤ k - 1 by omega)
    omega
  exact holds' (.inl (by rw [same]; omega)) lt

/-! ## Sequences of calls -/

lemma ino_eq_zero : file.ino = 0 ↔ file.chain = [] := by
  have first := file.first
  cases chain : file.chain with
  | nil => simp [first, chain]
  | cons c rest =>
    have valid := file.valid c (by simp [chain])
    rw [chain, headD_cons] at first
    simp only [reduceCtorEq, iff_false]
    omega

lemma walkChain_eq {i c : Nat} (start : file.chain[i]? = some cur)
    (target : file.chain[i + n]? = some c) : walkChain file.part n cur = some c := by
  induction n generalizing i cur with
  | zero => exact start.symm.trans target
  | succ n ih =>
    have lt := (List.getElem?_eq_some_iff.mp target).1
    have follower := getElem?_eq_getElem (l := file.chain) (i := i + 1) (by omega)
    have valid := file.valid _ (mem_of_getElem? follower)
    obtain ⟨next, next_eq, follows, -⟩ := next_of_getElem? start
    rw [follows _ follower] at next_eq
    simp only [walkChain, next_eq, bind_eq_bind, bind_some, kassert,
      if_pos (show file.chain[i + 1] < 0x0ffffff8 by omega)]
    exact ih follower (by rw [← target]; congr 1; omega)

/-- `fat_fstat` finds the entry of the file. -/
def Known (file : Chained) (fuel : Nat) (s : Statics) : Prop :=
  ∃ st s', file.fatFstat fuel s = some (⟨0, some st⟩, s') ∧ st.stSize = file.size ∧
    st.stDev = file.dev ∧ st.stIno = file.ino ∧ st.isDir = false

/-- The handle has the cluster for its offset, and the right size if it has been set up. -/
def Tracks (file : Chained) (h : Handle) : Prop :=
  file.Holds h.cursor.offset h.cursor.curBlock ∧ (h.size ≠ 0 → h.size = file.size)

end Chained

inductive Action where
  | read (length : Nat)
  | lseek (offset : Int) (whence : Whence)

/-- A call that does not panic. -/
def step (fuel : Nat) (file : OpenFile) (h : Handle) : Action → Handle → Prop
  | .read length, h' => ∃ r, fatRead fuel file length h = some (r, h')
  | .lseek offset whence, h' => ∃ ret, fatLseek fuel file offset whence h = some (ret, h')

namespace Chained

variable (file : Chained) {h h' : Handle} {c : Cursor} {a : Action} {fuel length : Nat}

/-- A read must be answered cluster by cluster, or by one request, and a seek needs a cluster. Where
the size is not known, `fat_fstat` must find the entry of the file. -/
def Ok (fuel : Nat) (h : Handle) : Action → Prop
  | .read length => length < fuel ∧ (h.size = 0 → file.Known fuel h.statics) ∧
      (file.Single h.cursor.offset length ∨
        file.OneRequest h.cursor.offset length h.cursor.curBlock)
  | .lseek _ _ => file.chain ≠ [] ∧ file.Known fuel h.statics

/-- What a read should return. -/
def bytes (file : Chained) (offset length : Nat) : List UInt8 :=
  (file.contents.drop offset).take length

/-- A read returns the contents of the file, as far as it goes, and moves the cursor; a seek does
not panic. -/
def Right (fuel : Nat) (h : Handle) : Action → Prop
  | .read length => ∃ h', fatRead fuel file.toOpenFile length h =
      some (⟨(file.bytes h.cursor.offset length).length, file.bytes h.cursor.offset length⟩, h') ∧
      h'.cursor.offset = h.cursor.offset + min length (file.size - h.cursor.offset) ∧
      file.Tracks h'
  | .lseek offset whence => ∃ ret h', fatLseek fuel file.toOpenFile offset whence h =
      some (ret, h') ∧ file.Tracks h'

variable {file}

lemma readContents_eq (holds : file.Holds c.offset c.curBlock) (enough : length < fuel)
    (ok : file.Single c.offset length ∨ file.OneRequest c.offset length c.curBlock) :
    ∃ cur, readContents fuel file.part file.size length c =
      some ((file.contents.drop c.offset).take length,
        ⟨c.offset + min length (file.size - c.offset), cur⟩) ∧
      file.Holds (c.offset + min length (file.size - c.offset)) cur := by
  have len : file.contents.length = file.size := contents_length
  by_cases inside : c.offset < file.size
  · have ran : ∃ cur, loop (attempt (readRound file.part file.size)) fuel
        ⟨⟨c.offset, c.curBlock⟩, c.offset % file.part.clusterSize, length, 1, []⟩ =
      some (some ((file.contents.drop c.offset).take length,
        ⟨c.offset + min length (file.size - c.offset), cur⟩)) ∧
      file.Holds (c.offset + min length (file.size - c.offset)) cur := by
      by_cases large : file.part.clusterSize < length
      · obtain single | one := ok
        · exact read_single [] inside holds single enough
        · exact read_oneRequest inside holds large one (by omega)
      · refine read_single [] inside holds (fun j _ _ _ _ _ _ wanted => ?_) enough
        omega
    obtain ⟨cur, ran, holds'⟩ := ran
    exact ⟨cur, by rw [readContents, if_neg (not_le.mpr inside), ran, join_some], holds'⟩
  · have past : file.size - c.offset = 0 := by omega
    refine ⟨c.curBlock, ?_, ?_⟩
    · rw [drop_eq_nil_of_le (by omega), take_nil, past, Nat.min_zero, Nat.add_zero, readContents,
        if_pos (not_lt.mp inside)]
    · rw [past, Nat.min_zero, Nat.add_zero]
      exact holds

lemma fatRead_read (tracks : file.Holds h.cursor.offset h.cursor.curBlock)
    (size : h.size = file.size) (enough : length < fuel)
    (ok : file.Single h.cursor.offset length ∨
      file.OneRequest h.cursor.offset length h.cursor.curBlock) :
    ∃ h', fatRead.read fuel file.toOpenFile length h =
      some (⟨(file.bytes h.cursor.offset length).length, file.bytes h.cursor.offset length⟩, h') ∧
      h'.cursor.offset = h.cursor.offset + min length (file.size - h.cursor.offset) ∧
      file.Tracks h' := by
  obtain ⟨cur, ran, holds⟩ := readContents_eq tracks enough ok
  exact ⟨_, by rw [fatRead.read, size, ran]; rfl, rfl, holds, fun _ => rfl⟩

lemma right_read (tracks : file.Tracks h) (ok : file.Ok fuel h (.read length)) :
    file.Right fuel h (.read length) := by
  obtain ⟨enough, known, ok⟩ := ok
  unfold Right fatRead
  split_ifs with no_cluster unknown
  · -- an empty file
    have empty : file.size = 0 := by
      have enough := file.enough
      rw [ino_eq_zero.mp no_cluster, length_nil, Nat.zero_mul] at enough
      omega
    have unknown : h.size = 0 := by
      by_contra known
      exact known ((tracks.2 known).trans empty)
    obtain ⟨st, s', found, size, -⟩ := known unknown
    have none_left : file.bytes h.cursor.offset length = [] := by
      have len : file.contents.length = file.size := contents_length
      rw [bytes, drop_eq_nil_of_le (by omega), take_nil]
    refine ⟨{ h with statics := s' }, ?_, by simp [empty], tracks⟩
    simp [found, kassert, size, empty, none_left]
  · obtain ⟨st, s', found, size, dev, ino, file'⟩ := known unknown
    simp only [found, bind_eq_bind, bind_some, kassert, dev, ino, file', if_true, if_false,
      Bool.false_eq_true]
    exact fatRead_read tracks.1 size enough ok
  · exact fatRead_read tracks.1 (tracks.2 unknown) enough ok

/-! ## Seeks -/

variable {st : Stat}

lemma seekTo_eq (file : Chained) (h : Handle) {new : Int} (nonneg : 0 ≤ new)
    (size : st.fileSize = file.size)
    (own : 0 < file.size → st.stDev = file.dev ∧ st.stIno = file.ino) :
    ∃ cur, fatLseek.seekTo file.toOpenFile st h new =
        some (new, { h with cursor := ⟨new.toNat, cur⟩ }) ∧ file.Holds new.toNat cur := by
  rw [fatLseek.seekTo, if_neg (not_lt.mpr nonneg), size]
  split_ifs with inside
  · obtain ⟨dev, ino⟩ := own (by omega)
    have pos := file.part.clusterSize_pos
    have lt : new.toNat / file.part.clusterSize < file.chain.length := by
      rw [Nat.div_lt_iff_lt_mul pos]
      have := file.enough
      omega
    have head : file.chain[0]? = some file.ino := by
      cases chain : file.chain with
      | nil => simp [chain] at lt
      | cons c rest => simp [first, chain]
    have target := getElem?_eq_getElem lt
    simp only [kassert, dev, ino, if_true, bind_eq_bind, bind_some,
      walkChain_eq head (by rwa [Nat.zero_add])]
    exact ⟨_, rfl, fun _ => target⟩
  · refine ⟨_, rfl, fun inside' => ?_⟩
    omega

lemma seekTo_tracks (new : Int) (tracks : file.Tracks h) (size : st.fileSize = file.size)
    (own : 0 < file.size → st.stDev = file.dev ∧ st.stIno = file.ino) :
    ∃ ret h', fatLseek.seekTo file.toOpenFile st h new = some (ret, h') ∧ file.Tracks h' := by
  by_cases negative : new < 0
  · exact ⟨_, h, if_pos negative, tracks⟩
  · obtain ⟨cur, eq, holds⟩ := file.seekTo_eq h (not_lt.mp negative) size own
    exact ⟨_, _, eq, holds, tracks.2⟩

lemma two_le_ino (nonempty : file.chain ≠ []) : 2 ≤ file.ino := by
  obtain ⟨d, rest, chain⟩ := exists_cons_of_ne_nil nonempty
  rw [file.first, chain]
  exact (file.valid d (by simp [chain])).1

lemma right_lseek (offset : Int) (whence : Whence) (tracks : file.Tracks h)
    (ok : file.Ok fuel h (.lseek offset whence)) : file.Right fuel h (.lseek offset whence) := by
  obtain ⟨nonempty, st, s', found, size, dev, ino, -⟩ := ok
  have tracks : file.Tracks { h with statics := s' } := tracks
  have size : st.fileSize = file.size := by rw [Stat.fileSize, size, Nat.mod_eq_of_lt file.size_lt]
  have own (_ : 0 < file.size) := And.intro dev ino
  simp only [Right, fatLseek, kassert, if_pos (two_le_ino nonempty), found, bind_eq_bind, bind_some,
    ne_eq, not_true_eq_false, if_false]
  cases whence with
  | set => exact seekTo_tracks _ tracks size own
  | cur => exact seekTo_tracks _ tracks size own
  | «end» => exact seekTo_tracks _ tracks size own
  | other => exact ⟨_, _, rfl, tracks⟩

/-! ## Sequences of calls -/

lemma tracks_opened (s : Statics) : file.Tracks (file.opened s) := by
  refine ⟨fun inside => ?_, fun known => absurd rfl known⟩
  have enough := file.enough
  cases chain : file.chain with
  | nil =>
    rw [chain, length_nil, Nat.zero_mul] at enough
    omega
  | cons d rest => simp [OpenFile.opened, first, chain]

lemma right (tracks : file.Tracks h) (ok : file.Ok fuel h a) : file.Right fuel h a := by
  cases a with
  | read length => exact right_read tracks ok
  | lseek offset whence => exact right_lseek offset whence tracks ok

lemma step_tracks (tracks : file.Tracks h)
    (taken : Guarded (file.Ok fuel) (step fuel file.toOpenFile) h a h') : file.Tracks h' := by
  obtain ⟨ok, taken⟩ := taken
  cases a with
  | read length =>
    obtain ⟨r, ran⟩ := taken
    obtain ⟨h'', ran', -, tracks'⟩ := right_read tracks ok
    simp only [ran, some.injEq, Prod.mk.injEq] at ran'
    rwa [ran'.2]
  | lseek offset whence =>
    obtain ⟨ret, ran⟩ := taken
    obtain ⟨ret', h'', ran', tracks'⟩ := right_lseek offset whence tracks ok
    simp only [ran, some.injEq, Prod.mk.injEq] at ran'
    rwa [ran'.2]

/-- In every sequence of calls that meet the condition, every such call does what it has to do. -/
theorem calls_right {s : Statics} {as : List Action}
    (run : Run (Guarded (file.Ok fuel) (step fuel file.toOpenFile)) (file.opened s) as h)
    (ok : file.Ok fuel h a) : file.Right fuel h a :=
  right (run.invariant (tracks_opened s) fun _ _ _ tracks taken => step_tracks tracks taken) ok

/-- The file `A`, with three clusters that follow each other on the disk. -/
def threeClusters : Chained where
  part := {
    fat := fun c => if c = 3 then 4 else if c = 4 then 5 else 0x0fffffff
    data := fun c i =>
      if c = 2 then
        if i = 0 then 0x41 else if i < 11 then 0x20 else if i = 26 then 3
          else if i = 29 then 6 else 0
      else c.toUInt8
    readable := fun _ => true
    sectorsPerCluster := 1
    pos := Nat.one_pos }
  root := 2
  dev := 0
  ino := 3
  path := [0x2f, 0x41]
  mountpoints := [⟨.fat, [0x2f], 0⟩]
  size := 1536
  size_lt := by decide
  chain := [3, 4, 5]
  first := rfl
  valid := by decide
  linked := by
    intro i c c' here next
    obtain _ | _ | _ | i := i
    · obtain ⟨rfl, rfl⟩ : 3 = c ∧ 4 = c' := ⟨Option.some.inj here, Option.some.inj next⟩
      decide
    · obtain ⟨rfl, rfl⟩ : 4 = c ∧ 5 = c' := ⟨Option.some.inj here, Option.some.inj next⟩
      decide
    · cases next
    · cases here
  ended := by
    intro c last
    obtain rfl : 5 = c := Option.some.inj last
    decide
  enough := by decide

lemma known_boot : threeClusters.Known 1025 .boot := by
  have found : (threeClusters.fatFstat 1025 .boot).map (fun x => (x.1.ret, x.1.buf)) =
      some (0, some ⟨0, 3, 0o777 ||| ifReg, 1, 1536, 16384, 1⟩) := by decide +kernel
  obtain ⟨⟨⟨ret, buf⟩, s'⟩, found, eq⟩ := map_eq_some_iff.mp found
  obtain ⟨rfl, rfl⟩ := Prod.mk.inj eq
  exact ⟨_, s', found, rfl, rfl, rfl, by decide⟩

theorem calls_right_twice : ∃ h,
    Run (Guarded (threeClusters.Ok 1025) (step 1025 threeClusters.toOpenFile))
      (threeClusters.opened .boot) [.read 1024] h ∧ h.cursor = ⟨1024, 5⟩ ∧
    threeClusters.Ok 1025 h (.read 512) ∧ threeClusters.Right 1025 h (.read 512) := by
  have first : threeClusters.Ok 1025 (threeClusters.opened .boot) (.read 1024) :=
    ⟨by decide, fun _ => known_boot,
      .inr ⟨2, by decide, by decide, by unfold Consecutive; decide, by decide, by decide,
        by decide⟩⟩
  have ran : (fatRead 1025 threeClusters.toOpenFile 1024 (threeClusters.opened .boot)).map
      (fun x => (x.2.cursor, x.2.size)) = some (⟨1024, 5⟩, 1536) := by decide +kernel
  obtain ⟨⟨r, h⟩, ran, eq⟩ := map_eq_some_iff.mp ran
  obtain ⟨cursor, size⟩ := Prod.mk.inj eq
  have second : threeClusters.Ok 1025 h (.read 512) := by
    refine ⟨by decide, fun unknown => absurd (size.symm.trans unknown) (by decide), ?_⟩
    rw [cursor]
    refine .inl fun j _ _ _ _ _ _ wanted => ?_
    change 512 < 1024 + 512 - max 1024 _ at wanted
    omega
  have run : Run (Guarded (threeClusters.Ok 1025) (step 1025 threeClusters.toOpenFile))
      (threeClusters.opened .boot) [.read 1024] h := .single ⟨first, r, ran⟩
  exact ⟨h, run, cursor, second, calls_right run second⟩

/-- A request for two clusters of which the call takes 522 bytes: the next call reads from the third
cluster. -/
theorem second_cluster_skipped : (∃ h,
    Run (step 1 threeClusters.toOpenFile) (threeClusters.opened .boot) [.read 522] h ∧
      h.cursor = ⟨522, 5⟩ ∧ (fatRead 1 threeClusters.toOpenFile 10 h).map (fun x => x.1.entries) =
        some (List.replicate 10 5)) ∧
    threeClusters.bytes 522 10 = List.replicate 10 4 := by
  refine ⟨?_, by decide +kernel⟩
  have ran : (fatRead 1 threeClusters.toOpenFile 522 (threeClusters.opened .boot)).map
      (fun x => (x.2.cursor, (fatRead 1 threeClusters.toOpenFile 10 x.2).map
        (fun x => x.1.entries))) =
      some (⟨522, 5⟩, some (List.replicate 10 5)) := by decide +kernel
  obtain ⟨⟨r, h⟩, ran, eq⟩ := map_eq_some_iff.mp ran
  obtain ⟨cursor, next⟩ := Prod.mk.inj eq
  exact ⟨h, .single ⟨r, ran⟩, cursor, next⟩

end Chained

end ExscapeOS.Fat
