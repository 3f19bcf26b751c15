import ExscapeOS.Kernel.Net.Basic
import ExscapeOS.Lib.Loop

/-!
# The checksum routine

`internet_checksum` adds the words of its argument from the end, as the processor loads them. For an
even length this is the ones' complement sum of the protocol, with the bytes exchanged, and since it
is stored as the processor stores words, the field is right. For an odd length the routine takes the
words at odd offsets and adds the first byte. The bytes then have the other weights.
-/
namespace ExscapeOS.Net

open Lib List Option

variable {data : Bytes} {x n : Nat}

lemma byte_lt (data : Bytes) (i : Nat) : byte data i < 256 := UInt8.toNat_lt _

/-- The sum that the loop computes: words are read from the end. -/
def routineSum (data : Bytes) : Nat :=
  if data.length % 2 = 0 then swappedSum data else byte data 0 + swappedSum data.tail

lemma swappedSum_append (a b : UInt8) (even : data.length % 2 = 0) :
    swappedSum (data ++ [a, b]) = swappedSum data + (a.toNat + 256 * b.toNat) := by
  fun_induction onesSum data with
  | case1 => simp [swappedSum, wordSum]
  | case2 => simp at even
  | case3 c d data ih =>
    have := ih (by simp only [length_cons] at even; omega)
    simp only [cons_append, swappedSum, wordSum, this]
    omega

lemma routineSum_append (a b : UInt8) :
    routineSum (data ++ [a, b]) = routineSum data + (a.toNat + 256 * b.toNat) := by
  have length : (data ++ [a, b]).length = data.length + 2 := by simp
  unfold routineSum
  rw [length, Nat.add_mod_right]
  split_ifs with even
  · exact swappedSum_append a b even
  · cases data with
    | nil => simp at even
    | cons c data =>
      have first : byte (c :: data ++ [a, b]) 0 = byte (c :: data) 0 := rfl
      have tail : (c :: data ++ [a, b]).tail = data ++ [a, b] := rfl
      have even' : data.length % 2 = 0 := by
        simp only [length_cons] at even
        omega
      rw [first, tail, swappedSum_append a b even', tail_cons, Nat.add_assoc]

lemma checksumLoop_folds {ax ecx : Nat} (le : ecx ≤ data.length) (sum : Folds ax n) :
    Folds (checksumLoop data ax ecx) (n + routineSum (data.take ecx)) := by
  fun_induction checksumLoop data ax ecx generalizing n with
  | case1 => simpa [routineSum, swappedSum] using sum
  | case2 ax =>
    have first : routineSum (data.take 1) = byte data 0 := by
      cases data with
      | nil => simp at le
      | cons b data => simp [routineSum, byte, swappedSum]
    rw [first]
    refine sum.add (.of_le ?_)
    have := byte_lt data 0
    unfold maxWord
    omega
  | case3 ax ecx ih =>
    have word : routineSum (data.take (ecx + 2)) = routineSum (data.take ecx) + le16 data ecx := by
      have split : data.take (ecx + 2) = data.take ecx ++
        [data.getD ecx 0, data.getD (ecx + 1) 0] := by
        have lt : ecx + 1 < data.length := by omega
        have lt' : ecx < data.length := by omega
        rw [← take_append_getElem lt, ← take_append_getElem lt', append_assoc]
        simp [getElem?_eq_getElem lt, getElem?_eq_getElem lt']
      rw [split, routineSum_append]
      rfl
    have small : le16 data ecx ≤ maxWord := by
      have := byte_lt data ecx
      have := byte_lt data (ecx + 1)
      unfold le16 maxWord
      omega
    have := ih (by omega) (sum.add (.of_le small))
    rw [word]
    convert this using 1
    omega

lemma internetChecksum_eq (long : 2 ≤ data.length) :
    ∃ x, Folds x (routineSum data) ∧ internetChecksum data = some (maxWord - x) := by
  have sum := checksumLoop_folds (le_refl data.length) (.of_le (Nat.zero_le _) : Folds 0 0)
  rw [take_length, Nat.zero_add] at sum
  exact ⟨_, sum, by simp [internetChecksum, kassert, long]⟩

/-- For an even length, the result is the checksum with its bytes exchanged. -/
lemma internetChecksum_even (long : 2 ≤ data.length) (even : data.length % 2 = 0) :
    internetChecksum data = some (maxWord - swapWord (onesSum data)) := by
  obtain ⟨x, sum, eq⟩ := internetChecksum_eq long
  rw [routineSum, if_pos even] at sum
  rw [eq, sum.unique (onesSum_folds data).swap]

lemma swapWord_swapWord (le : x ≤ maxWord) : swapWord (swapWord x) = x := by
  unfold swapWord maxWord at *
  omega

lemma swapWord_sub (le : x ≤ maxWord) : swapWord (maxWord - x) = maxWord - swapWord x := by
  unfold swapWord maxWord at *
  omega

lemma be16_le (data : Bytes) (i : Nat) : be16 data i ≤ maxWord := by
  have := byte_lt data i
  have := byte_lt data (i + 1)
  unfold be16 maxWord
  omega

lemma le16_eq (data : Bytes) (i : Nat) : le16 data i = swapWord (be16 data i) := by
  have := byte_lt data (i + 1)
  unfold le16 be16 swapWord
  omega

lemma checksum_eq_iff (data header : Bytes) (i : Nat) :
    maxWord - swapWord (onesSum header) = le16 data i ↔ be16 data i + onesSum header = maxWord := by
  have le := (onesSum_folds header).le
  have le' := be16_le data i
  rw [le16_eq, ← swapWord_sub le]
  constructor
  · intro eq
    have := congrArg swapWord eq
    rw [swapWord_swapWord le', swapWord_swapWord (Nat.sub_le _ _)] at this
    omega
  · intro sum
    rw [show maxWord - onesSum header = be16 data i by omega]

/-! ## The routine in memory -/

/-- The registers that change in the loop, and the addresses that have been read. -/
structure Regs where
  ax : Nat
  ecx : Nat
  reads : List Nat
  deriving DecidableEq

/-- A round of the loop, perhaps the last. The word at `ebx + ecx` is added, and a byte that is
left. -/
def checksumRound (memory : Nat → UInt8) (ebx : Nat) (s : Regs) : Regs ⊕ Nat × List Nat :=
  let ecx := sub32 s.ecx 2
  let low := add32 ebx ecx
  let high := add32 low 1
  let ax := onesAdd s.ax ((memory low).toNat + 256 * (memory high).toNat)
  let reads := low :: high :: s.reads
  if ecx = 1 then .inr (maxWord - onesAdd ax (memory ebx).toNat, ebx :: reads)
  else if ecx ≠ 0 then .inl ⟨ax, ecx, reads⟩
  else .inr (maxWord - ax, reads)

/-- The bytes from an address on. -/
def bytesAt (memory : Nat → UInt8) (ebx length : Nat) : Bytes :=
  (List.range length).map fun i => memory (ebx + i)

/-- The routine returns, has read only the bytes of the string, and the result is their checksum as
stored. -/
def Checksums (memory : Nat → UInt8) (ebx length : Nat) : Prop :=
  ∃ fuel result reads, loop (checksumRound memory ebx) fuel ⟨0, length, []⟩ = some (result, reads) ∧
    (∀ a ∈ reads, ebx ≤ a ∧ a < ebx + length) ∧
    result = swapWord (maxWord - onesSum (bytesAt memory ebx length))

section Memory

variable {memory : Nat → UInt8} {ebx length : Nat}

lemma byte_bytesAt {i : Nat} (lt : i < length) :
    byte (bytesAt memory ebx length) i = (memory (ebx + i)).toNat := by
  simp [byte, bytesAt, lt]

lemma checksumRound_eq (fits : ebx + length ≤ wordSize) (word : length < wordSize)
    (ax : Nat) {ecx : Nat}
    (reads : List Nat) (le : ecx + 2 ≤ length) : checksumRound memory ebx ⟨ax, ecx + 2, reads⟩ =
      let ax' := onesAdd ax (le16 (bytesAt memory ebx length) ecx)
      let reads' := (ebx + ecx) :: (ebx + ecx + 1) :: reads
      if ecx = 1 then .inr (maxWord - onesAdd ax' (byte (bytesAt memory ebx length) 0),
        ebx :: reads')
      else if ecx ≠ 0 then .inl ⟨ax', ecx, reads'⟩ else .inr (maxWord - ax', reads') := by
  have rest : sub32 (ecx + 2) 2 = ecx := sub32_eq (by omega) (by omega)
  have low : add32 ebx ecx = ebx + ecx := add32_eq (by omega)
  have high : add32 (ebx + ecx) 1 = ebx + ecx + 1 := add32_eq (by omega)
  simp only [checksumRound, rest, low, high, le16, byte_bytesAt (show ecx < length by omega),
    byte_bytesAt (show ecx + 1 < length by omega),
      byte_bytesAt (show 0 < length by omega), Nat.add_zero,
    Nat.add_assoc]

lemma loop_checksumRound (fits : ebx + length ≤ wordSize) (word : length < wordSize) {ecx : Nat}
    (le : ecx + 2 ≤ length) (ax : Nat) (reads : List Nat)
    (inside : ∀ a ∈ reads, ebx ≤ a ∧ a < ebx + length) :
    ∃ fuel reads', loop (checksumRound memory ebx) fuel ⟨ax, ecx + 2, reads⟩ =
        some (maxWord - checksumLoop (bytesAt memory ebx length) ax (ecx + 2), reads') ∧
      ∀ a ∈ reads', ebx ≤ a ∧ a < ebx + length := by
  have round := @checksumRound_eq memory _ _ fits word ax _ reads le
  have inside' : ∀ a ∈ (ebx + ecx) :: (ebx + ecx + 1) :: reads, ebx ≤ a ∧ a < ebx + length := by
    grind
  induction ecx using Nat.twoStepInduction generalizing ax reads with
  | zero => exact ⟨1, _, loop_succ_of_inr round, inside'⟩
  | one => exact ⟨1, _, loop_succ_of_inr round, by grind⟩
  | more ecx ih _ =>
    obtain ⟨fuel, reads', ran, rest⟩ := ih (by omega) _ _ inside'
      (checksumRound_eq fits word _ _ (by omega)) (by grind)
    exact ⟨fuel + 1, reads', (loop_succ_of_inl round).trans ran, rest⟩

/-- For a single byte, the loop begins with the word in front of it. -/
lemma reads_single {fuel result : Nat} {reads : List Nat}
    (ran : loop (checksumRound memory ebx) fuel ⟨0, 1, []⟩ = some (result, reads)) :
    add32 ebx (wordSize - 1) ∈ reads := by
  cases fuel with
  | zero => cases ran
  | succ fuel =>
    have first : checksumRound memory ebx ⟨0, 1, []⟩ = .inl ⟨_, wordSize - 1, [_, _]⟩ := rfl
    rw [loop_succ_of_inl first] at ran
    have keeps (s s' : Regs) (mem : add32 ebx (wordSize - 1) ∈ s.reads)
        (again : checksumRound memory ebx s = .inl s') : add32 ebx (wordSize - 1) ∈ s'.reads := by
      simp only [checksumRound] at again
      split_ifs at again
      cases again
      simp [mem]
    obtain ⟨t, mem, last⟩ := loop_invariant _ keeps (mem_cons_self ..) ran
    simp only [checksumRound] at last
    split_ifs at last <;> cases last <;> simp [mem]

end Memory

/-- For an odd length, the loop is right only if the order of the bytes after the first makes no
difference. -/
lemma folds_routineSum_iff {rest : Bytes} {b : UInt8} (odd : rest.length % 2 = 0)
    (sum : Folds x (routineSum (b :: rest))) :
    maxWord - x = swapWord (maxWord - onesSum (b :: rest)) ↔ 257 ∣ wordSum rest := by
  have swapped := (onesSum_folds (b :: rest)).swap
  have le := (onesSum_folds (b :: rest)).le
  have sums := (sums_modEq rest).1
  have zero := sums_zero rest
  have parity : (b :: rest).length % 2 ≠ 0 := by
    simp only [length_cons]
    omega
  rw [swapWord_sub le, Nat.dvd_iff_mod_eq_zero]
  rw [routineSum, if_neg parity] at sum
  obtain ⟨le₁, modEq₁, zero₁⟩ := sum
  obtain ⟨le₂, modEq₂, zero₂⟩ := swapped
  have first : byte (b :: rest) 0 = b.toNat := rfl
  simp only [Nat.ModEq, maxWord, swappedSum, tail_cons, first] at *
  omega

/-- The routine is right for strings of even length. For an odd length of at least three, the bytes
after the first one have the wrong weights, and for a single byte the loop runs through the whole
memory. -/
theorem internetChecksum_iff (memory : Nat → UInt8) {ebx length : Nat}
    (fits : ebx + length ≤ wordSize)
    (word : length < wordSize) (nonempty : 1 ≤ length) : Checksums memory ebx length ↔
      length % 2 = 0 ∨ 3 ≤ length ∧ 257 ∣ wordSum (bytesAt memory (ebx + 1) (length - 1)) := by
  obtain rfl | long : length = 1 ∨ 2 ≤ length := by omega
  · refine iff_of_false ?_ (by omega)
    rintro ⟨fuel, result, reads, ran, inside, -⟩
    have := inside _ (reads_single ran)
    unfold add32 wordSize at *
    omega
  obtain ⟨ecx, rfl⟩ := Nat.exists_eq_add_of_le' long
  obtain ⟨fuel, reads, ran, inside⟩ :=
    loop_checksumRound fits word le_rfl 0 [] (by simp)
  obtain ⟨x, sum, eq⟩ := internetChecksum_eq
    (show 2 ≤ (bytesAt memory ebx (ecx + 2)).length by simp [bytesAt])
  have result : internetChecksum (bytesAt memory ebx (ecx + 2)) =
      some (maxWord - checksumLoop (bytesAt memory ebx (ecx + 2)) 0 (ecx + 2)) := by
    simp [internetChecksum, kassert, bytesAt]
  rw [eq, some.injEq] at result
  rw [← result] at ran
  have whole : Checksums memory ebx (ecx + 2) ↔
      maxWord - x = swapWord (maxWord - onesSum (bytesAt memory ebx (ecx + 2))) := by
    refine ⟨?_, fun right => ⟨fuel, _, reads, ran, inside, right⟩⟩
    rintro ⟨fuel', result', reads', ran', -, right⟩
    have := (loop_mono (Nat.le_max_left fuel fuel') ran).symm.trans
      (loop_mono (Nat.le_max_right fuel fuel') ran')
    grind
  rw [whole]
  have cons : bytesAt memory ebx (ecx + 2) = memory ebx :: bytesAt memory (ebx + 1) (ecx + 1) := by
    simp [bytesAt, range_succ_eq_map, Function.comp_def, Nat.add_assoc, Nat.add_comm 1]
  by_cases even : (ecx + 2) % 2 = 0
  · have := internetChecksum_even
      (show 2 ≤ (bytesAt memory ebx (ecx + 2)).length by simp [bytesAt])
        (by simpa [bytesAt] using even)
    rw [swapWord_sub (onesSum_folds _).le]
    grind
  · rw [cons] at sum ⊢
    rw [folds_routineSum_iff (by simp [bytesAt]; omega) sum]
    simp only [even, false_or]
    exact ⟨fun h => ⟨by omega, h⟩, fun h => h.2⟩

/-- The bytes 0, 1, 0 in an otherwise empty memory. -/
def oneByte (a : Nat) : UInt8 := if a = 101 then 1 else 0

theorem internetChecksum_iff_even : Checksums oneByte 100 2 :=
  (internetChecksum_iff oneByte (by decide) (by decide) (by decide)).mpr (.inl rfl)

/-- The checksum of 0, 1, 0 is that of 1, 0; and for a single byte the address before it is read. -/
theorem odd_checksum_wrong :
    loop (checksumRound oneByte 100) 1 ⟨0, 3, []⟩ = some (0xfffe, [100, 101, 102]) ∧
    swapWord (maxWord - onesSum (bytesAt oneByte 100 3)) = 0xfeff ∧
    checksumRound oneByte 100 ⟨0, 1, []⟩ = .inl ⟨0, wordSize - 1, [99, 100]⟩ := by
  refine ⟨?_, ?_, ?_⟩ <;> decide

end ExscapeOS.Net
