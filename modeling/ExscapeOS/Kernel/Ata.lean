import Mathlib.Tactic
import Mathlib.Data.Nat.Log
import ExscapeOS.Lib.Word

/-!
# `ata_read` and `ata_write`

The kernel only issues commands for a power of two of sectors. Both functions double the number
until it is enough or reaches the limit of the device. This may be more than is left: `ata_read`
goes back while there are more than asked for in total, and `ata_write` does not.
-/
namespace ExscapeOS.Ata

open Lib List Option

/-- `ata_device_t`, for a device that exists. -/
structure Device where
  /-- In sectors. -/
  size : Nat
  maxSectorsMultiple : UInt8

/-- The assertion on the sectors that are asked for; all is done in 64 bits. -/
def Device.Reaches (dev : Device) (lba sectors : Nat) : Prop :=
  (lba + (sectors - 1)) % 2 ^ 64 ≤ (dev.size + (2 ^ 64 - 1)) % 2 ^ 64

instance (dev : Device) (lba sectors : Nat) : Decidable (dev.Reaches lba sectors) :=
  inferInstanceAs (Decidable (_ ≤ _))

/-- What the registers of the device and the loop that transfers the data are given. -/
structure Command where
  /-- Only 28 bits of the number of the first sector fit in the registers. -/
  lba : Nat
  buffer : Nat
  sectors : Nat
  deriving DecidableEq

/-- `ata_read_int` and `ata_write_int` issue a command, and differ in how many sectors they check.
The answer of the device is left out. -/
def ataInt (dev : Device) (lba buffer sectors checked : Nat) : Option Command := do
  kassert (dev.Reaches lba checked)
  kassert (buffer ≠ 0)
  return ⟨lba % 2 ^ 28, buffer, sectors⟩

def ataReadInt (dev : Device) (lba buffer sectors : Nat) : Option Command :=
  ataInt dev lba buffer sectors sectors

def ataWriteInt (dev : Device) (lba buffer sectors : Nat) : Option Command :=
  ataInt dev lba buffer sectors 1

/-! ## The number of sectors of a command -/

/-- The number is doubled until it is enough or reaches the limit. -/
def double (left limit c : Nat) (pos : 0 < c) : Nat :=
  if c < left ∧ c < limit then double left limit (2 * c) (by omega) else c
termination_by limit - c

/-- The number is halved while it is above the limit or the total; then it is not 0. -/
def halve (limit total c : Nat) : Nat :=
  if 0 < c ∧ (limit < c ∨ total < c) then halve limit total (c / 2) else c
termination_by c
decreasing_by omega

def sectorsToRead (limit total left : Nat) : Nat := halve limit total (double left limit 1 one_pos)

def sectorsToWrite (limit left : Nat) : Nat :=
  let c := double left limit 1 one_pos
  if limit < c then c / 2 else c

/-! ## The loops -/

/-- The loop of both functions: `done` is `sectors_read` or `sectors_written`. -/
def issueAll (issue : Nat → Nat → Nat → Option Command) (chunk : Nat → Nat)
    (lba buffer total done : Nat) :
    Option (List Command) :=
  if done < total then
    if 0 < chunk (total - done) then do
      let c ← issue ((lba + done) % 2 ^ 64) ((buffer + done * 512) % wordSize)
        (chunk (total - done))
      let rest ← issueAll issue chunk lba buffer total (done + chunk (total - done))
      return c :: rest
    else none
  else some []
termination_by total - done

def transfer (dev : Device) (issue : Nat → Nat → Nat → Option Command) (chunk : Nat → Nat)
    (lba buffer sectorsTotal : Nat) : Option (List Command) := do
  kassert (0 < sectorsTotal)
  kassert (dev.Reaches lba sectorsTotal)
  kassert (buffer ≠ 0)
  issueAll issue chunk lba buffer sectorsTotal 0

def ataRead (dev : Device) (lba buffer sectorsTotal : Nat) : Option (List Command) :=
  transfer dev (ataReadInt dev) (sectorsToRead dev.maxSectorsMultiple.toNat sectorsTotal) lba buffer
    sectorsTotal

def ataWrite (dev : Device) (lba buffer sectorsTotal : Nat) : Option (List Command) :=
  transfer dev (ataWriteInt dev) (sectorsToWrite dev.maxSectorsMultiple.toNat) lba
    buffer sectorsTotal

/-! ## What is asked for -/

/-- The arguments of a call: the buffer has room for all sectors. -/
structure Request where
  lba : Nat
  buffer : Nat
  sectorsTotal : Nat
  positive : 0 < sectorsTotal
  some_buffer : 0 < buffer
  room : buffer + sectorsTotal * 512 ≤ wordSize

/-- The sectors that are asked for, with the addresses for their data. -/
def Request.transfers (r : Request) : List (Nat × Nat) :=
  (List.range r.sectorsTotal).map fun i => (r.lba + i, r.buffer + i * 512)

/-- The sectors that a command transfers, whose numbers have 28 bits. -/
def Command.transfers (c : Command) : List (Nat × Nat) :=
  (List.range c.sectors).map fun i => ((c.lba + i) % 2 ^ 28, (c.buffer + i * 512) % wordSize)

/-- The commands transfer exactly what is asked for. -/
def Request.Exact (r : Request) (commands : Option (List Command)) : Prop :=
  ∃ cs, commands = some cs ∧ cs.flatMap Command.transfers = r.transfers

/-- Commands for the largest power of two up to `most` leave nothing, or a power of two. -/
def Splits (most total : Nat) : Prop :=
  total % 2 ^ Nat.log 2 most = 0 ∨ (total % 2 ^ Nat.log 2 most).isPowerOfTwo

/-! ## The loops for the number of sectors -/

lemma double_pow (left limit k : Nat) (pos : 0 < 2 ^ k) :
    double left limit (2 ^ k) pos = 2 ^ max k (Nat.clog 2 (min left limit)) := by
  induction h : limit - 2 ^ k using Nat.strong_induction_on generalizing k with
  | _ n ih =>
  rw [double]
  split
  · rename_i more
    have less : k < Nat.clog 2 (min left limit) :=
      (Nat.lt_clog_iff_pow_lt one_lt_two).mpr (lt_min more.1 more.2)
    have succ : 2 * 2 ^ k = 2 ^ (k + 1) := (Nat.pow_succ').symm
    simp only [succ]
    rw [ih _ (by omega) (k + 1) (Nat.two_pow_pos _) rfl, max_eq_right less, max_eq_right less.le]
  · have le : Nat.clog 2 (min left limit) ≤ k :=
      (Nat.clog_le_iff_le_pow one_lt_two).mpr (by omega)
    rw [max_eq_left le]

lemma double_one (left limit : Nat) :
    double left limit 1 one_pos = 2 ^ Nat.clog 2 (min left limit) := by
  have h := double_pow left limit 0 one_pos
  rwa [Nat.zero_max] at h

lemma halve_pow {limit total : Nat} (k : Nat) (some_limit : 0 < limit) (some_total : 0 < total) :
    halve limit total (2 ^ k) = 2 ^ min k (Nat.log 2 (min limit total)) := by
  have nonzero : min limit total ≠ 0 := by omega
  induction k with
  | zero =>
    rw [halve, if_neg (by omega), Nat.zero_min]
  | succ k ih =>
    rw [halve]
    split
    · have less : Nat.log 2 (min limit total) < k + 1 :=
        (Nat.log_lt_iff_lt_pow one_lt_two nonzero).mpr (by omega)
      rw [pow_succ, Nat.mul_div_cancel _ two_pos, ih]
      congr 1
      omega
    · have le : k + 1 ≤ Nat.log 2 (min limit total) :=
        (Nat.le_log_iff_pow_le one_lt_two nonzero).mpr (by omega)
      rw [min_eq_left le]

/-- The number of sectors of a command, if at most `most` are possible. -/
def sectorsOf (most left : Nat) : Nat := 2 ^ min (Nat.clog 2 left) (Nat.log 2 most)

lemma log_le_clog (n : Nat) : Nat.log 2 n ≤ Nat.clog 2 n := Nat.log_le_clog 2 n

lemma clog_le_log_succ (n : Nat) : Nat.clog 2 n ≤ Nat.log 2 n + 1 :=
  (Nat.clog_le_iff_le_pow one_lt_two).mpr (Nat.lt_pow_succ_log_self one_lt_two n).le

lemma sectorsToRead_eq {limit total : Nat} (left : Nat) (some_limit : 0 < limit)
    (some_total : 0 < total) :
    sectorsToRead limit total left = sectorsOf (min limit total) left := by
  rw [sectorsToRead, double_one, halve_pow _ some_limit some_total, sectorsOf]
  congr 1
  have least : Nat.log 2 (min limit total) ≤ Nat.log 2 limit := Nat.log_mono_right (min_le_left _ _)
  have limit_le := log_le_clog limit
  obtain le | le := le_total left limit
  · rw [min_eq_left le]
  · have mono : Nat.clog 2 limit ≤ Nat.clog 2 left := Nat.clog_mono_right 2 le
    rw [min_eq_right le]
    omega

lemma sectorsToWrite_eq {limit : Nat} (left : Nat) (some_limit : 0 < limit) :
    sectorsToWrite limit left = sectorsOf limit left := by
  have limit_le := log_le_clog limit
  have limit_ge := clog_le_log_succ limit
  have mono : Nat.clog 2 (min left limit) ≤ Nat.clog 2 limit :=
    Nat.clog_mono_right 2 (min_le_right _ _)
  have above : limit < 2 ^ Nat.clog 2 (min left limit) ↔
      Nat.log 2 limit < Nat.clog 2 (min left limit) :=
    (Nat.log_lt_iff_lt_pow one_lt_two some_limit.ne').symm
  have smaller : min left limit = left ∨ Nat.clog 2 (min left limit) = Nat.clog 2 limit ∧
      Nat.clog 2 limit ≤ Nat.clog 2 left := by
    obtain le | le := le_total left limit
    · exact .inl (min_eq_left le)
    · exact .inr ⟨by rw [min_eq_right le], Nat.clog_mono_right 2 le⟩
  simp only [sectorsToWrite, double_one, sectorsOf]
  split
  · have succ : Nat.clog 2 (min left limit) = Nat.log 2 limit + 1 := by omega
    rw [succ, pow_succ, Nat.mul_div_cancel _ two_pos]
    congr 1
    obtain eq | ⟨-, le⟩ := smaller
    · rw [eq] at succ
      omega
    · omega
  · rename_i enough
    have le := not_lt.mp (fun less => enough (above.mpr less))
    congr 1
    obtain eq | ⟨eq, le'⟩ := smaller
    · rw [eq] at le ⊢
      omega
    · omega

lemma sectorsToRead_zero (total left : Nat) : sectorsToRead 0 total left = 0 := by
  simp [sectorsToRead, double_one, halve]

lemma sectorsToWrite_zero (left : Nat) : sectorsToWrite 0 left = 0 := by
  simp [sectorsToWrite, double_one]

lemma sectorsOf_pos (most left : Nat) : 0 < sectorsOf most left := Nat.two_pow_pos _

/-- As long as the largest number of sectors is left, it is used. -/
lemma sectorsOf_large {most left : Nat} (large : 2 ^ Nat.log 2 most ≤ left) :
    sectorsOf most left = 2 ^ Nat.log 2 most := by
  have le : Nat.log 2 most ≤ Nat.clog 2 left := by
    rw [← Nat.clog_pow 2 (Nat.log 2 most) one_lt_two]
    exact Nat.clog_mono_right 2 large
  rw [sectorsOf, min_eq_right le]

lemma sectorsOf_small {most left : Nat} (small : left < 2 ^ Nat.log 2 most) :
    sectorsOf most left = 2 ^ Nat.clog 2 left := by
  have le : Nat.clog 2 left ≤ Nat.log 2 most := (Nat.clog_le_iff_le_pow one_lt_two).mpr small.le
  rw [sectorsOf, min_eq_left le]

lemma pow_clog_le_iff (left : Nat) : 2 ^ Nat.clog 2 left ≤ left ↔ left.isPowerOfTwo := by
  constructor
  · intro le
    exact ⟨_, (le.antisymm (Nat.le_pow_clog one_lt_two left)).symm⟩
  · rintro ⟨k, rfl⟩
    rw [Nat.clog_pow 2 k one_lt_two]

/-! ## The loop over the commands -/

section Issue

variable {issue : Nat → Nat → Nat → Option Command} {chunk : Nat → Nat} {r : Request}
  {done most : Nat}

/-- What is asked for, from a sector on. -/
def Request.transfersFrom (r : Request) (done : Nat) : List (Nat × Nat) :=
  (List.range (r.sectorsTotal - done)).map fun i =>
    (r.lba + (done + i), r.buffer + (done + i) * 512)

lemma Request.transfersFrom_zero (r : Request) : r.transfersFrom 0 = r.transfers := by
  simp [transfersFrom, transfers]

lemma Request.length_transfersFrom (r : Request) (done : Nat) :
    (r.transfersFrom done).length = r.sectorsTotal - done := by
  simp [transfersFrom]

lemma Command.length_transfers (c : Command) : c.transfers.length = c.sectors := by
  simp [transfers]

lemma Request.transfersFrom_eq (r : Request) {c : Nat} (low : r.lba + r.sectorsTotal ≤ 2 ^ 28)
    (fits : done + c ≤ r.sectorsTotal) : r.transfersFrom done =
      Command.transfers ⟨r.lba + done, r.buffer + done * 512, c⟩ ++ r.transfersFrom (done + c) := by
  have room := r.room
  refine ext_getElem ?_ fun i lt lt' => ?_
  · rw [length_append, length_transfersFrom, length_transfersFrom, Command.length_transfers]
    dsimp only
    omega
  · rw [length_transfersFrom] at lt
    rw [getElem_append]
    split
    · simp only [transfersFrom, Command.transfers, getElem_map, getElem_range]
      rw [Nat.mod_eq_of_lt (by omega), Nat.mod_eq_of_lt (by omega), Nat.add_assoc, Nat.add_mul,
        Nat.add_assoc]
    · rename_i outside
      rw [Command.length_transfers] at outside
      simp only [transfersFrom, getElem_map, getElem_range, Command.length_transfers]
      rw [Nat.add_assoc, Nat.add_sub_cancel' (not_lt.mp outside)]

/-- A command is issued with the arguments, and at least if it stays within the request. -/
structure Issues (issue : Nat → Nat → Nat → Option Command) (r : Request) : Prop where
  command : ∀ {lba buffer c cmd}, issue lba buffer c = some cmd → cmd = ⟨lba % 2 ^ 28, buffer, c⟩
  issued : ∀ {done c}, done < r.sectorsTotal → 0 < c → done + c ≤ r.sectorsTotal →
    (issue (r.lba + done) (r.buffer + done * 512) c).isSome

/-- The loop transfers exactly what is left from a sector on. -/
def CoversFrom (issue : Nat → Nat → Nat → Option Command) (chunk : Nat → Nat) (r : Request)
    (done : Nat) : Prop :=
  ∃ cs, issueAll issue chunk r.lba r.buffer r.sectorsTotal done = some cs ∧
    cs.flatMap Command.transfers = r.transfersFrom done

lemma coversFrom_end : CoversFrom issue chunk r r.sectorsTotal :=
  ⟨[], by rw [issueAll, if_neg (lt_irrefl _)], by simp [Request.transfersFrom]⟩

/-- A command for more than is left cannot be part of an exact transfer. -/
lemma coversFrom_step (issues : Issues issue r) (low : r.lba + r.sectorsTotal ≤ 2 ^ 28)
    (more : done < r.sectorsTotal) {c : Nat} (chunk_eq : chunk (r.sectorsTotal - done) = c)
    (pos : 0 < c) : CoversFrom issue chunk r done ↔
      done + c ≤ r.sectorsTotal ∧ CoversFrom issue chunk r (done + c) := by
  have room := r.room
  have lba_eq : (r.lba + done) % 2 ^ 64 = r.lba + done := Nat.mod_eq_of_lt (by omega)
  have lba_eq' : (r.lba + done) % 2 ^ 28 = r.lba + done := Nat.mod_eq_of_lt (by omega)
  have buffer_eq : (r.buffer + done * 512) % wordSize = r.buffer + done * 512 :=
    Nat.mod_eq_of_lt (by omega)
  unfold CoversFrom
  rw [issueAll, if_pos more, chunk_eq, if_pos pos, lba_eq, buffer_eq]
  simp only [bind, pure, bind_eq_some_iff, some.injEq]
  constructor
  · rintro ⟨cs, ⟨cmd, first, rest, others, rfl⟩, eq⟩
    rw [flatMap_cons, issues.command first, lba_eq'] at eq
    have fits : done + c ≤ r.sectorsTotal := by
      have length := congrArg List.length eq
      rw [length_append, r.length_transfersFrom, Command.length_transfers] at length
      dsimp only at length
      omega
    rw [r.transfersFrom_eq low fits] at eq
    exact ⟨fits, rest, others, append_cancel_left eq⟩
  · rintro ⟨fits, rest, others, eq⟩
    obtain ⟨cmd, first⟩ := isSome_iff_exists.mp (issues.issued more pos fits)
    refine ⟨cmd :: rest, ⟨cmd, first, rest, others, rfl⟩, ?_⟩
    rw [flatMap_cons, issues.command first, lba_eq', eq, ← r.transfersFrom_eq low fits]

lemma splits_step {left : Nat} (pos : 0 < left) : Splits most left ↔
    sectorsOf most left ≤ left ∧ Splits most (left - sectorsOf most left) := by
  obtain large | small := le_or_gt (2 ^ Nat.log 2 most) left
  · rw [sectorsOf_large large, Splits, Splits, Nat.mod_eq_sub_mod large]
    exact (and_iff_right large).symm
  · rw [sectorsOf_small small, pow_clog_le_iff, Splits, Nat.mod_eq_of_lt small,
      or_iff_right pos.ne']
    refine (and_iff_left_of_imp fun power => ?_).symm
    have nothing : left - 2 ^ Nat.clog 2 left = 0 :=
      Nat.sub_eq_zero_of_le (Nat.le_pow_clog one_lt_two left)
    rw [nothing]
    exact .inl (Nat.zero_mod _)

/-- The loop transfers exactly what is left, exactly if this splits. -/
lemma coversFrom_iff (issues : Issues issue r) (low : r.lba + r.sectorsTotal ≤ 2 ^ 28)
    (chunk_eq : ∀ left, chunk left = sectorsOf most left) (le : done ≤ r.sectorsTotal) :
    CoversFrom issue chunk r done ↔ Splits most (r.sectorsTotal - done) := by
  induction h : r.sectorsTotal - done using Nat.strong_induction_on generalizing done with
  | _ left ih =>
  obtain rfl | more := eq_or_lt_of_le le
  · have nothing : left = 0 := by omega
    subst nothing
    exact iff_of_true coversFrom_end (.inl (Nat.zero_mod _))
  · have pos := sectorsOf_pos most left
    rw [coversFrom_step issues low more (h.symm ▸ chunk_eq left) pos, splits_step (by omega)]
    have fits : done + sectorsOf most left ≤ r.sectorsTotal ↔ sectorsOf most left ≤ left := by omega
    rw [fits]
    exact and_congr_right fun enough => ih _ (by omega) (fits.mpr enough) (by omega)

end Issue

/-! ## Both functions -/

lemma Request.Exact.low {r : Request} {commands : Option (List Command)}
    (exact : r.Exact commands) :
    r.lba + r.sectorsTotal ≤ 2 ^ 28 := by
  obtain ⟨cs, -, eq⟩ := exact
  have pos := r.positive
  have last : (r.lba + (r.sectorsTotal - 1), r.buffer + (r.sectorsTotal - 1) * 512) ∈ r.transfers :=
    List.mem_map.mpr ⟨_, mem_range.mpr (by omega), rfl⟩
  rw [← eq] at last
  simp only [List.mem_flatMap, Command.transfers, List.mem_map, Prod.mk.injEq] at last
  omega

lemma Device.Reaches.sub {dev : Device} {lba sectors done c : Nat} (h : dev.Reaches lba sectors)
    (low : lba + sectors ≤ 2 ^ 28) (pos : 0 < c) (fits : done + c ≤ sectors) :
    dev.Reaches (lba + done) c := by
  unfold Device.Reaches at *
  omega

lemma issues_ataInt {dev : Device} {r : Request} {checked : Nat → Nat}
    (reaches : dev.Reaches r.lba r.sectorsTotal) (low : r.lba + r.sectorsTotal ≤ 2 ^ 28)
    (checks : ∀ c, 0 < c → 0 < checked c ∧ checked c ≤ c) :
    Issues (fun lba buffer c => ataInt dev lba buffer c (checked c)) r where
  command := by
    intro lba buffer c cmd issued
    simp only [ataInt, bind, kassert_bind_eq_some, pure, some.injEq] at issued
    exact issued.2.2.symm
  issued := by
    intro done c more pos fits
    have some_buffer : r.buffer + done * 512 ≠ 0 := Nat.ne_of_gt (Nat.add_pos_left r.some_buffer _)
    have some_checked := checks c pos
    have each : dev.Reaches (r.lba + done) (checked c) :=
      reaches.sub low some_checked.1 (by omega)
    rw [isSome_iff_exists]
    simp only [ataInt, bind, kassert_bind_eq_some]
    exact ⟨_, each, some_buffer, rfl⟩

lemma exact_transfer_iff {dev : Device} {r : Request} {issue : Nat → Nat → Nat → Option Command}
    {chunk : Nat → Nat} {limit most : Nat}
    (issues : dev.Reaches r.lba r.sectorsTotal → r.lba + r.sectorsTotal ≤ 2 ^ 28 → Issues issue r)
    (no_chunk : limit = 0 → ∀ left, chunk left = 0)
    (chunk_eq : 0 < limit → ∀ left, chunk left = sectorsOf most left) :
    r.Exact (transfer dev issue chunk r.lba r.buffer r.sectorsTotal) ↔
      dev.Reaches r.lba r.sectorsTotal ∧ r.lba + r.sectorsTotal ≤ 2 ^ 28 ∧ 0 < limit ∧
        Splits most r.sectorsTotal := by
  have pos := r.positive
  have some_buffer := r.some_buffer.ne'
  have exact_iff : r.Exact (transfer dev issue chunk r.lba r.buffer r.sectorsTotal) ↔
      dev.Reaches r.lba r.sectorsTotal ∧ CoversFrom issue chunk r 0 := by
    simp only [Request.Exact, transfer, bind, kassert_bind_eq_some, CoversFrom,
      r.transfersFrom_zero]
    constructor
    · rintro ⟨cs, ⟨-, reaches, -, ran⟩, eq⟩
      exact ⟨reaches, cs, ran, eq⟩
    · rintro ⟨reaches, cs, ran, eq⟩
      exact ⟨cs, ⟨pos, reaches, some_buffer, ran⟩, eq⟩
  constructor
  · intro exact
    have low := exact.low
    obtain ⟨reaches, covers⟩ := exact_iff.mp exact
    have some_limit : 0 < limit := by
      by_contra zero
      obtain ⟨cs, ran, -⟩ := covers
      rw [issueAll, if_pos pos, if_neg (by simp [no_chunk (by omega)])] at ran
      cases ran
    exact ⟨reaches, low, some_limit,
      (coversFrom_iff (issues reaches low) low (chunk_eq some_limit) (Nat.zero_le _)).mp covers⟩
  · rintro ⟨reaches, low, some_limit, splits⟩
    exact exact_iff.mpr ⟨reaches,
      (coversFrom_iff (issues reaches low) low (chunk_eq some_limit) (Nat.zero_le _)).mpr splits⟩

section

variable (dev : Device) (r : Request)

lemma exact_ataRead_iff : r.Exact (ataRead dev r.lba r.buffer r.sectorsTotal) ↔
    dev.Reaches r.lba r.sectorsTotal ∧ r.lba + r.sectorsTotal ≤ 2 ^ 28 ∧
      0 < dev.maxSectorsMultiple.toNat ∧
      Splits (min dev.maxSectorsMultiple.toNat r.sectorsTotal) r.sectorsTotal :=
  exact_transfer_iff
    (fun reaches low => issues_ataInt reaches low fun _ pos => ⟨pos, le_rfl⟩)
    (fun zero left => by rw [zero, sectorsToRead_zero])
    (fun some_limit left => sectorsToRead_eq left some_limit r.positive)

lemma exact_ataWrite_iff : r.Exact (ataWrite dev r.lba r.buffer r.sectorsTotal) ↔
    dev.Reaches r.lba r.sectorsTotal ∧ r.lba + r.sectorsTotal ≤ 2 ^ 28 ∧
      0 < dev.maxSectorsMultiple.toNat ∧ Splits dev.maxSectorsMultiple.toNat r.sectorsTotal :=
  exact_transfer_iff
    (fun reaches low => issues_ataInt reaches low fun _ pos => ⟨one_pos, pos⟩)
    (fun zero left => by rw [zero, sectorsToWrite_zero])
    (fun some_limit left => sectorsToWrite_eq left some_limit)

end

/-- Where `ata_write` is right, `ata_read` is too. -/
lemma Splits.min {most total : Nat} (h : Splits most total) (pos : 0 < most)
    (some_total : 0 < total) :
    Splits (min most total) total := by
  have le : 2 ^ Nat.log 2 most ≤ most := Nat.pow_log_le_self 2 pos.ne'
  obtain large | small := le_or_gt (2 ^ Nat.log 2 most) total
  · have same : Nat.log 2 (Min.min most total) = Nat.log 2 most := by
      refine le_antisymm (Nat.log_mono_right (min_le_left _ _)) ?_
      exact (Nat.le_log_iff_pow_le one_lt_two (by omega)).mpr (le_min le large)
    rw [Splits, same]
    exact h
  · rw [Splits, Nat.mod_eq_of_lt small, or_iff_right some_total.ne'] at h
    obtain ⟨k, rfl⟩ := h
    refine .inl ?_
    rw [min_eq_right (by omega), Nat.log_pow one_lt_two, Nat.mod_self]

/-- Both functions transfer exactly what is asked for, exactly if the sectors are on the device and
below the limit of 28 bits, the device supports commands for several sectors, and their number
splits. -/
theorem exact_iff (dev : Device) (r : Request) :
    r.Exact (ataRead dev r.lba r.buffer r.sectorsTotal) ∧
      r.Exact (ataWrite dev r.lba r.buffer r.sectorsTotal) ↔
    dev.Reaches r.lba r.sectorsTotal ∧ r.lba + r.sectorsTotal ≤ 2 ^ 28 ∧
      0 < dev.maxSectorsMultiple.toNat ∧ Splits dev.maxSectorsMultiple.toNat r.sectorsTotal := by
  rw [exact_ataRead_iff, exact_ataWrite_iff]
  constructor
  · exact And.right
  · rintro ⟨reaches, low, some_limit, splits⟩
    exact ⟨⟨reaches, low, some_limit, splits.min some_limit r.positive⟩, reaches, low,
      some_limit, splits⟩

def sevenSectors : Request where
  lba := 0
  buffer := 0x1000
  sectorsTotal := 7
  positive := by decide
  some_buffer := by decide
  room := by decide

/-- Of 7 sectors the first 4 are read, and then 4 more. -/
theorem sevenSectors_read : ataRead ⟨1000, 16⟩ 0 0x1000 7 = some [⟨0, 0x1000, 4⟩, ⟨4, 0x1800, 4⟩] ∧
    ¬ sevenSectors.Exact (ataRead ⟨1000, 16⟩ 0 0x1000 7) := by
  have ran : ataRead ⟨1000, 16⟩ 0 0x1000 7 = some [⟨0, 0x1000, 4⟩,
    ⟨4, 0x1800, 4⟩] := by decide +kernel
  refine ⟨ran, ?_⟩
  rintro ⟨cs, ran', eq⟩
  obtain rfl := some.inj (ran.symm.trans ran')
  exact absurd (congrArg List.length eq) (by decide)

end ExscapeOS.Ata
