import ExscapeOS.Lib.Calendar
import ExscapeOS.Lib.Loop

/-!
# The clock

`kern_mktime` with `validate_structure`, and `gettimeofday`, from `kernel/time.c`. The loop of
`validate_structure` leaves the number of days as it is (`validateStep_spec`), so `kern_mktime`
computes the calendar's day number of any date whose month is in the tables (`kernMktime_iff`). The
carries before the loop add what is too much in a field to the next one, and leave it in the field
as well.
-/
namespace ExscapeOS.Clock

open Lib

/-- `Time`: the year is a 16-bit number, and the other fields are bytes. -/
structure Time where
  year : Nat
  month : Nat
  day : Nat
  hour : Nat
  minute : Nat
  second : Nat
  deriving DecidableEq

def daysInMonth : List Nat := [31, 28, 31, 30, 31, 30, 31, 31, 30, 31, 30, 31]

def daysBefore : List Nat := [0, 31, 59, 90, 120, 151, 181, 212, 243, 273, 304, 334]

/-- `_ISLEAP`; the year is counted from 1900. -/
def isLeap (y : Nat) : Bool := y % 4 == 0 && (y % 100 != 0 || (y + 1900) % 400 == 0)

def daysInYear (y : Nat) : Nat := if isLeap y then 366 else 365

def daysInFeb (y : Nat) : Nat := if daysInYear y = 366 then 29 else 28

/-- The carries of `validate_structure`, which do not use the remainders. -/
def carry (t : Time) : Time :=
  let minute := if t.second > 59 then (t.minute + t.second / 60) % 2 ^ 8 else t.minute
  let hour := if minute > 59 then (t.hour + minute / 60) % 2 ^ 8 else t.hour
  let day := if hour > 23 then (t.day + hour / 24) % 2 ^ 8 else t.day
  let year := if t.month > 11 then (t.year + t.month / 12) % 2 ^ 16 else t.year
  { t with year, day, hour, minute }

/-- `_DAYS_IN_MONTH` -/
def monthDays (feb m : Nat) : Option Nat := if m = 1 then some feb else daysInMonth[m]?

/-- A round of `validate_structure`, on the structure and `days_in_feb`. There is no result if the
month is not in the table. -/
def validateStep (s : Time × Nat) : Option ((Time × Nat) ⊕ Time) := do
  let days ← monthDays s.2 s.1.month
  if days < s.1.day then
    if s.1.month + 1 = 12 then
      let year := (s.1.year + 1) % 2 ^ 16
      return .inl ({ s.1 with year, month := 0, day := s.1.day - days }, daysInFeb year)
    return .inl ({ s.1 with month := s.1.month + 1, day := s.1.day - days }, s.2)
  return .inr s.1

/-- The days that `kern_mktime` adds up. -/
def mktimeDays (t : Time) : Option Int := do
  let before ← daysBefore[t.month]?
  let before := if t.month > 1 ∧ daysInYear t.year = 366 then before + 1 else before
  let days : Int := t.day - 1 + before
  return if t.year > 70 then days + ((List.range' 70 (t.year - 70)).map daysInYear).sum
    else days - ((List.range' t.year (70 - t.year)).map daysInYear).sum

/-- `kern_mktime` returns `r`: the loop ends, with all indices inside the tables. -/
def KernMktime (t : Time) (r : Int) : Prop :=
  ∃ v days, Returns validateStep (carry t, daysInFeb (carry t).year) v ∧ mktimeDays v = some days ∧
    r = (v.second + v.minute * 60 + v.hour * 3600 + days * 86400 : Int).bmod (2 ^ 32)

/-! ## The tables are those of the calendar -/

variable {t : Time} {m y : Nat} {r : Int}

lemma daysInYear_eq (y : Nat) : daysInYear y = yearLength (1900 + y) := by
  have same : isLeap y = true ↔ LeapYear (1900 + y) := by
    simp only [isLeap, LeapYear, Bool.and_eq_true, Bool.or_eq_true, beq_iff_eq, bne_iff_ne]
    omega
  simp only [daysInYear, yearLength, same]

lemma daysInYear_eq_366 : daysInYear y = 366 ↔ LeapYear (1900 + y) := by
  rw [daysInYear_eq, yearLength]
  split_ifs with leap <;> simp [leap]

lemma monthDays_eq (lt : m < 12) :
    monthDays (daysInFeb y) m = some (monthLength (1900 + y) m) := by
  simp only [monthDays, daysInFeb, daysInYear_eq_366]
  interval_cases m <;> rfl

lemma daysBeforeMonth_table (lt : m < 12) : ∃ b, daysBefore[m]? = some b ∧
    (if m > 1 ∧ daysInYear y = 366 then b + 1 else b) = daysBeforeMonth (1900 + y) m := by
  simp only [daysInYear_eq_366]
  by_cases leap : LeapYear (1900 + y) <;>
    interval_cases m <;> simp [daysBefore, daysBeforeMonth, monthLength, leap]

lemma sum_daysInYear (a n : Nat) : daysBeforeYear (1900 + a) +
    ((List.range' a n).map daysInYear).sum = daysBeforeYear (1900 + (a + n)) := by
  induction n with
  | zero => simp
  | succ n ih =>
    rw [List.range'_1_concat, List.map_append, List.sum_append, ← Nat.add_assoc, ih]
    simp [daysInYear_eq, ← Nat.add_assoc, daysBeforeYear_succ]

/-- The days from 1970 to the date; the day may lie beyond the end of the month. -/
def dayCount (t : Time) : Int :=
  (daysBeforeYear (1900 + t.year) + daysBeforeMonth (1900 + t.year) t.month + t.day : Int) - 1 -
    daysBeforeYear 1970

lemma mktimeDays_eq (lt : t.month < 12) : mktimeDays t = some (dayCount t) := by
  obtain ⟨b, found, before⟩ := daysBeforeMonth_table (y := t.year) lt
  simp only [mktimeDays, found, bind, pure, Option.bind_some, before, Option.some.injEq, dayCount]
  split_ifs with late
  · have sum : daysBeforeYear 1970 + _ = _ := sum_daysInYear 70 (t.year - 70)
    rw [Nat.add_sub_cancel' (Nat.le_of_lt late)] at sum
    omega
  · have sum := sum_daysInYear t.year (70 - t.year)
    rw [Nat.add_sub_cancel' (Nat.le_of_not_lt late), show 1900 + 70 = 1970 from rfl] at sum
    omega

/-! ## The loop keeps the day -/

/-- The month is in the table, and `days_in_feb` belongs to the year. -/
structure Tidy (s : Time × Nat) : Prop where
  month : s.1.month < 12
  feb : s.2 = daysInFeb s.1.year
  year : s.1.year + s.1.day < 2 ^ 16

/-- The date is the same day, and the time of day is the same. -/
structure SameDay (t v : Time) : Prop where
  days : dayCount v = dayCount t
  hour : v.hour = t.hour
  minute : v.minute = t.minute
  second : v.second = t.second

lemma validateStep_done {s : Time × Nat} (tidy : Tidy s)
    (le : s.1.day ≤ monthLength (1900 + s.1.year) s.1.month) :
    validateStep s = some (.inr s.1) := by
  simp [validateStep, tidy.feb, monthDays_eq tidy.month, Nat.not_lt.mpr le]

lemma validateStep_spec {s : Time × Nat} (tidy : Tidy s)
    (lt : monthLength (1900 + s.1.year) s.1.month < s.1.day) :
    ∃ s', validateStep s = some (.inl s') ∧ Tidy s' ∧ SameDay s.1 s'.1 ∧ s'.1.day < s.1.day := by
  have days := monthDays_eq (y := s.1.year) tidy.month
  have ge := monthLength_ge (1900 + s.1.year) s.1.month
  have year := tidy.year
  have month := tidy.month
  by_cases december : s.1.month + 1 = 12
  · have twelve := daysBeforeMonth_twelve (1900 + s.1.year)
    rw [show (12 : Nat) = s.1.month + 1 from december.symm, daysBeforeMonth] at twelve
    have newYear : daysBeforeYear (1900 + (s.1.year + 1)) =
        daysBeforeYear (1900 + s.1.year) + yearLength (1900 + s.1.year) := daysBeforeYear_succ _
    have next : (s.1.year + 1) % 65536 = s.1.year + 1 := Nat.mod_eq_of_lt (by omega)
    refine ⟨({ s.1 with
        year := s.1.year + 1, month := 0, day := s.1.day - monthLength
          (1900 + s.1.year) s.1.month },
      daysInFeb (s.1.year + 1)), by simp [validateStep, tidy.feb, days, lt, december, next],
      ⟨by simp, rfl, ?_⟩, ⟨?_, rfl, rfl, rfl⟩, ?_⟩
    all_goals simp only [dayCount, newYear, daysBeforeMonth]
    all_goals omega
  · refine ⟨({ s.1 with
        month := s.1.month + 1, day := s.1.day - monthLength (1900 + s.1.year) s.1.month }, s.2),
      by simp [validateStep, tidy.feb, days, lt, december], ⟨?_, tidy.feb, ?_⟩,
      ⟨?_, rfl, rfl, rfl⟩, ?_⟩
    all_goals simp only [dayCount, daysBeforeMonth]
    all_goals omega

lemma Tidy.returns {s : Time × Nat} (tidy : Tidy s) :
    ∃ v, Returns validateStep s v ∧ v.month < 12 ∧ SameDay s.1 v := by
  induction day : s.1.day using Nat.strong_induction_on generalizing s with
  | _ n ih =>
    by_cases le : s.1.day ≤ monthLength (1900 + s.1.year) s.1.month
    · exact ⟨s.1, .of_inr (validateStep_done tidy le), tidy.month, rfl, rfl, rfl, rfl⟩
    · obtain ⟨s', again, tidy', same, less⟩ := validateStep_spec tidy (Nat.lt_of_not_le le)
      obtain ⟨v, returns, month, same'⟩ := ih _ (day ▸ less) tidy' rfl
      exact ⟨v, (returns_iff_of_inl again).mpr returns, month, same'.days.trans same.days,
        same'.hour.trans same.hour, same'.minute.trans same.minute, same'.second.trans same.second⟩

/-- The time that the fields stand for, each taken for what it says. -/
def total (t : Time) : Int := t.second + t.minute * 60 + t.hour * 3600 + dayCount t * 86400

lemma kernMktime_iff (month : t.month < 12) (year : (carry t).year + (carry t).day < 2 ^ 16) :
    KernMktime t r ↔ r = (total (carry t)).bmod (2 ^ 32) := by
  have tidy : Tidy (carry t, daysInFeb (carry t).year) := ⟨month, rfl, year⟩
  obtain ⟨v, returns, lt, days, hour, minute, second⟩ := tidy.returns
  have sum : (v.second + v.minute * 60 + v.hour * 3600 + dayCount v * 86400 : Int) =
      total (carry t) := by
    rw [days, hour, minute, second]
    rfl
  constructor
  · rintro ⟨v', n, returns', eq, rfl⟩
    obtain rfl := returns.unique returns'
    obtain rfl := Option.some.inj ((mktimeDays_eq lt).symm.trans eq)
    rw [sum]
  · rintro rfl
    exact ⟨v, _, returns, mktimeDays_eq lt, by rw [sum]⟩

/-! ## Calendar time -/

variable {a b : Moment}

/-- The moment as `kern_mktime` takes it, with the year counted from 1900. -/
def ofMoment (a : Moment) : Time := ⟨a.year - 1900, a.month, a.day, a.hour, a.minute, a.second⟩

lemma dayCount_eq (year : 1900 + t.year = a.year) (month : t.month = a.month)
    (day : t.day = a.day) :
    dayCount t = a.dayNumber - daysBeforeYear 1970 := by
  have pos := a.day_pos
  rw [dayCount, Moment.dayNumber, year, month, day]
  omega

/-- The times of the years 1970 to 2037 fit into 32 bits, with days to spare. -/
lemma unixTime_bounds (first : 1970 ≤ a.year) (last : a.year ≤ 2037) :
    0 ≤ a.unixTime ∧ a.unixTime + 1000000 < 2 ^ 31 := by
  have low := daysBeforeYear_mono first
  have high := a.dayNumber_lt_year.trans_le (daysBeforeYear_mono (Nat.succ_le_succ last))
  have hour := a.hour_lt
  have minute := a.minute_lt
  have second := a.second_lt
  have day : a.dayNumber = daysBeforeYear a.year + daysBeforeMonth a.year a.month + (a.day - 1) :=
    rfl
  rw [daysBeforeYear_eq (Nat.succ _)] at high
  rw [Moment.unixTime, daysBeforeYear_eq 1970] at *
  omega

lemma carry_of_hour_lt (second : t.second < 60) (minute : t.minute < 60) (hour : t.hour < 24)
    (month : t.month < 12) : carry t = t := by
  simp [carry, Nat.not_lt.mpr (Nat.le_of_lt_succ second), Nat.not_lt.mpr (Nat.le_of_lt_succ minute),
    Nat.not_lt.mpr (Nat.le_of_lt_succ hour), Nat.not_lt.mpr (Nat.le_of_lt_succ month)]

lemma kernMktime_ofMoment (first : 1970 ≤ a.year) (last : a.year ≤ 2037) :
    KernMktime (ofMoment a) r ↔ r = a.unixTime := by
  have day := a.day_le.trans (monthLength_le ..)
  have year : 1900 + (ofMoment a).year = a.year := Nat.add_sub_cancel' (by omega)
  have plain := carry_of_hour_lt (t := ofMoment a) a.second_lt a.minute_lt a.hour_lt a.month_lt
  have same : total (ofMoment a) = a.unixTime := by
    rw [total, dayCount_eq year rfl rfl, Moment.unixTime]
    change (a.second + a.minute * 60 + a.hour * 3600 + _ : Int) = _
    ring
  obtain ⟨low, high⟩ := unixTime_bounds first last
  rw [kernMktime_iff a.month_lt, plain, same, Int.bmod_eq_of_le (by omega) (by omega)]
  rw [plain]
  exact Nat.lt_of_le_of_lt (Nat.add_le_add_left day _) (by omega)

/-- From 1970 to 2037 `kern_mktime` returns the time by the calendar, and so later times for later
moments. -/
theorem kernMktime_unixTime (first : 1970 ≤ a.year) (last : a.year ≤ 2037) (first' : 1970 ≤ b.year)
    (last' : b.year ≤ 2037) : (∀ r, KernMktime (ofMoment a) r ↔ r = a.unixTime) ∧
      (a.fields < b.fields → ∃ r r', KernMktime (ofMoment a) r ∧
        KernMktime (ofMoment b) r' ∧ r < r') :=
  ⟨fun _ => kernMktime_ofMoment first last, fun before => ⟨_, _,
    (kernMktime_ofMoment first last).mpr rfl, (kernMktime_ofMoment first' last').mpr rfl,
    Moment.unixTime_lt_of_fields_lt before⟩⟩

/-- The last second of February 2000. -/
def lastOfFebruary : Moment := ⟨2000, 1, 29, 23, 59, 59, by decide, by decide, by decide, by decide,
  by decide, by decide⟩

theorem kernMktime_lastOfFebruary : KernMktime (ofMoment lastOfFebruary) 951868799 := by
  have time : lastOfFebruary.unixTime = 951868799 := by
    simp [lastOfFebruary, Moment.unixTime, Moment.dayNumber, daysBeforeYear_eq, daysBeforeMonth,
      monthLength]
  have year : 1970 ≤ lastOfFebruary.year ∧ lastOfFebruary.year ≤ 2037 := by simp [lastOfFebruary]
  exact ((kernMktime_unixTime year.1 year.2 year.1 year.2).1 _).mpr time.symm

/-! ## The real-time clock -/

def bcdToBin (x : Nat) : Nat := x / 16 * 10 + (x &&& 0xf)

/-- The conversion of a field, unless the clock is a binary one. -/
def convert (binary : Bool) (x : Nat) : Nat := if binary then x else bcdToBin x

/-- The conversion of the hour; on the 12-hour clock, bit 7 stands for PM. -/
def convertHour (binary is24Hour : Bool) (hour : Nat) : Nat :=
  let timeIsPm := !is24Hour && hour.testBit 7
  let hour := convert binary (if timeIsPm then hour &&& 0x7f else hour)
  if timeIsPm then if hour = 12 then 0 else hour + 12 else hour

/-- `rtc_reformat`, with the bits of status register B. Only a clock in BCD gets its century. -/
def rtcReformat (binary is24Hour : Bool) (t : Time) : Time where
  year := if binary then t.year else bcdToBin t.year + if bcdToBin t.year < 12 then 2100 else 2000
  month := convert binary t.month
  day := convert binary t.day
  hour := convertHour binary is24Hour t.hour
  minute := convert binary t.minute
  second := convert binary t.second

/-- A round of `get_time`, which ends at two equal readings. -/
def getTimeStep (readings : Nat → Time) (s : Nat × Time) : (Nat × Time) ⊕ Time :=
  if readings s.1 = s.2 then .inr s.2 else .inl (s.1 + 1, readings s.1)

/-- `gettimeofday` sets `tv_sec` to `r`, for these readings of the registers. -/
def Gettimeofday (binary is24Hour : Bool) (readings : Nat → Time) (r : Int) : Prop :=
  ∃ fuel raw, loop (getTimeStep readings) fuel (0, ⟨0, 0, 0, 0, 0, 0⟩) = some raw ∧
    let t := rtcReformat binary is24Hour raw
    0 < t.month ∧ KernMktime { t with
      year := (t.year + 63636) % 2 ^ 16, month := t.month - 1, hour := (t.hour + 1) % 2 ^ 8 } r

/-- A number in a register. -/
def shown (binary : Bool) (n : Nat) : Nat := if binary then n else n / 10 * 16 + n % 10

/-- The hours of the 12-hour clock are 12, 1, …, 11, before and after noon. -/
def shownHour (binary is24Hour : Bool) (hour : Nat) : Nat :=
  if is24Hour then shown binary hour
  else shown binary (if hour % 12 = 0 then 12 else hour % 12) + if hour < 12 then 0 else 0x80

/-- The registers of the clock at a moment. -/
def registers (binary is24Hour : Bool) (a : Moment) : Time where
  year := shown binary (a.year % 100)
  month := shown binary (a.month + 1)
  day := shown binary a.day
  hour := shownHour binary is24Hour a.hour
  minute := shown binary a.minute
  second := shown binary a.second

/-- The hour that is read: on the 12-hour clock, noon and midnight change places. -/
def hourRead (is24Hour : Bool) (hour : Nat) : Nat :=
  if is24Hour then hour else if hour = 0 then 12 else if hour = 12 then 0 else hour

variable {binary is24Hour : Bool}

lemma bcdToBin_shown (n : Nat) : bcdToBin (shown false n) = n := by
  have low := Nat.and_two_pow_sub_one_eq_mod (n / 10 * 16 + n % 10) 4
  simp only [shown, bcdToBin]
  norm_num at low ⊢
  omega

lemma convert_shown (n : Nat) : convert binary (shown binary n) = n := by
  cases binary with
  | false => exact bcdToBin_shown n
  | true => rfl

lemma convertHour_shownHour (binary is24Hour : Bool) : ∀ hour < 24,
    convertHour binary is24Hour (shownHour binary is24Hour hour) = hourRead is24Hour hour := by
  cases binary <;> cases is24Hour <;> decide

lemma rtcReformat_registers (first : 2012 ≤ a.year) (last : a.year ≤ 2036) :
    rtcReformat binary is24Hour (registers binary is24Hour a) =
      ⟨if binary then a.year % 100 else a.year, a.month + 1, a.day, hourRead is24Hour a.hour,
        a.minute, a.second⟩ := by
  simp only [rtcReformat, registers, Time.mk.injEq]
  refine ⟨?_, convert_shown _, convert_shown _, convertHour_shownHour _ _ _ a.hour_lt,
    convert_shown _, convert_shown _⟩
  cases binary with
  | true => rfl
  | false =>
    have late : ¬ a.year % 100 < 12 := by omega
    simp only [bcdToBin_shown, late, if_false]
    norm_num
    omega

lemma loop_getTimeStep {raw x : Time} (ne : raw ≠ ⟨0, 0, 0, 0, 0, 0⟩) :
    (∃ fuel, loop (getTimeStep fun _ => raw) fuel (0, ⟨0, 0, 0, 0, 0, 0⟩) = some x) ↔ x = raw := by
  have ran : loop (getTimeStep fun _ => raw) 2 (0, ⟨0, 0, 0, 0, 0, 0⟩) = some raw := by
    simp [loop, getTimeStep, ne]
  constructor
  · rintro ⟨_, ran'⟩
    exact loop_unique ran' ran
  · rintro rfl
    exact ⟨2, ran⟩

/-- The hour 24 counts in full, and as a day as well. -/
lemma kernMktime_of_hour_le (second : t.second < 60) (minute : t.minute < 60) (hour : t.hour ≤ 24)
    (day : t.day ≤ 31) (month : t.month < 12) (year : t.year + 32 < 2 ^ 16) :
    KernMktime t r ↔ r = (total t + if t.hour = 24 then 86400 else 0).bmod (2 ^ 32) := by
  by_cases midnight : t.hour = 24
  · have next : carry t = { t with day := t.day + 1 } := by
      simp [carry, Nat.not_lt.mpr (Nat.le_of_lt_succ second),
        Nat.not_lt.mpr (Nat.le_of_lt_succ minute),
        midnight, Nat.not_lt.mpr (Nat.le_of_lt_succ month)]
      omega
    have more : total { t with day := t.day + 1 } = total t + 86400 := by
      simp only [total, dayCount]
      push_cast
      ring
    rw [kernMktime_iff month (by rw [next]; dsimp only; omega), next, more, if_pos midnight]
  · have same := carry_of_hour_lt second minute (by omega) month
    rw [kernMktime_iff month (by rw [same]; omega), same, if_neg midnight, add_zero]

lemma eq_bmod_iff {x : Int} (low : 0 ≤ r) (high : r < 2 ^ 31) :
    r = x.bmod (2 ^ 32) ↔ (x - r) % 2 ^ 32 = 0 := by
  rw [Int.bmod_def]
  norm_num at *
  split_ifs <;> omega

/-- Without its century the year wraps, which adds the days of 63536 years. -/
lemma dayCount_binary (first : 2012 ≤ a.year) (last : a.year ≤ 2036)
    (year : 1900 + t.year = a.year + 63536) (month : t.month = a.month) (day : t.day = a.day) :
    dayCount t = a.dayNumber - daysBeforeYear 1970 + 23206047 := by
  have leap : LeapYear (a.year + 63536) ↔ LeapYear a.year := by
    unfold LeapYear
    omega
  have pos := a.day_pos
  rw [dayCount, year, month, day, daysBeforeMonth_congr leap, Moment.dayNumber,
    daysBeforeYear_eq (a.year + _), daysBeforeYear_eq a.year]
  omega

/-- What is wrong: the hour, the day that is counted twice, and the century. -/
def clockError (binary is24Hour : Bool) (hour : Nat) : Int :=
  ((hourRead is24Hour hour : Int) - hour) * 3600 +
    (if hourRead is24Hour hour + 1 = 24 then 86400 else 0) +
    if binary then 23206047 * 86400 else 0

lemma clockError_emod (binary is24Hour : Bool) : ∀ hour < 24,
    clockError binary is24Hour hour % 2 ^ 32 = 0 ↔
      binary = false ∧ hour ≠ 23 ∧ (is24Hour = true ∨ hour ≠ 0 ∧ hour ≠ 12) := by
  cases binary <;> cases is24Hour <;> decide

lemma hourRead_lt (is24Hour : Bool) : ∀ hour < 24, hourRead is24Hour hour < 24 := by
  cases is24Hour <;> decide

lemma registers_ne_zero : registers binary is24Hour a ≠ ⟨0, 0, 0, 0, 0, 0⟩ := by
  intro zero
  have read : convert binary (shown binary (a.month + 1)) = a.month + 1 := convert_shown _
  rw [show shown binary (a.month + 1) = 0 from congrArg Time.month zero] at read
  cases binary <;> cases read

lemma gettimeofday_registers (first : 2012 ≤ a.year) (last : a.year ≤ 2036) :
    Gettimeofday binary is24Hour (fun _ => registers binary is24Hour a) r ↔
      r = (a.unixTime + 3600 + clockError binary is24Hour a.hour).bmod (2 ^ 32) := by
  have day := a.day_le.trans (monthLength_le ..)
  have hour := hourRead_lt is24Hour a.hour a.hour_lt
  have hour' : (hourRead is24Hour a.hour + 1) % 2 ^ 8 = hourRead is24Hour a.hour + 1 := by omega
  obtain ⟨y, eq⟩ : ∃ y, y = ((if binary then a.year % 100 else a.year) + 63636) % 2 ^ 16 := ⟨_, rfl⟩
  have year : 1900 + y = a.year + if binary then 63536 else 0 := by split_ifs at eq ⊢ <;> omega
  have lt : y + 32 < 2 ^ 16 := by split_ifs at eq <;> omega
  have count : dayCount ⟨y, a.month, a.day, hourRead is24Hour a.hour + 1, a.minute, a.second⟩ =
      a.dayNumber - daysBeforeYear 1970 + if binary then 23206047 else 0 := by
    cases binary with
    | false => exact (dayCount_eq year rfl rfl).trans (add_zero _).symm
    | true => exact dayCount_binary first last year rfl rfl
  simp only [Gettimeofday, exists_comm (α := Nat), exists_and_right,
    loop_getTimeStep registers_ne_zero,
    exists_eq_left, rtcReformat_registers first last, ← eq, hour', Nat.add_sub_cancel, Nat.succ_pos,
    true_and]
  rw [kernMktime_of_hour_le a.second_lt a.minute_lt (Nat.succ_le_of_lt hour) day a.month_lt lt,
    total, count, Moment.unixTime, clockError]
  congr! 2
  push_cast
  split_ifs <;> ring

/-- The time that `gettimeofday` returns is one hour ahead exactly on a clock in BCD, before eleven
in the evening, and on the 12-hour clock neither in the hour after midnight nor in the hour after
noon. -/
theorem gettimeofday_iff (first : 2012 ≤ a.year) (last : a.year ≤ 2036) :
    Gettimeofday binary is24Hour (fun _ => registers binary is24Hour a) (a.unixTime + 3600) ↔
      binary = false ∧ a.hour ≠ 23 ∧ (is24Hour = true ∨ a.hour ≠ 0 ∧ a.hour ≠ 12) := by
  obtain ⟨low, high⟩ := unixTime_bounds (a := a) (by omega) (by omega)
  rw [gettimeofday_registers first last, eq_bmod_iff (by omega) (by omega), add_sub_cancel_left]
  exact clockError_emod _ _ _ a.hour_lt

/-- A quarter past nine in the evening of a leap day. -/
def leapDay : Moment :=
  ⟨2024, 1, 29, 21, 15, 0, by decide, by decide, by decide, by decide, by decide, by decide⟩

theorem gettimeofday_leapDay : Gettimeofday false false (fun _ => registers false false leapDay)
    (leapDay.unixTime + 3600) :=
  (gettimeofday_iff (by simp [leapDay]) (by simp [leapDay])).mpr (by simp [leapDay])

/-- Eleven in the evening of that day. -/
def leapDayEvening : Moment := { leapDay with hour := 23, hour_lt := by decide }

/-- The day is counted twice in the result. -/
theorem gettimeofday_evening : Gettimeofday false true
    (fun _ => registers false true leapDayEvening)
    (leapDayEvening.unixTime + 3600 + 86400) := by
  have year : 2012 ≤ leapDayEvening.year ∧ leapDayEvening.year ≤ 2036 := by
    simp [leapDayEvening, leapDay]
  obtain ⟨low, high⟩ := unixTime_bounds (a := leapDayEvening) (by omega) (by omega)
  rw [gettimeofday_registers year.1 year.2, eq_bmod_iff (by omega) (by omega)]
  simp [clockError, hourRead, leapDayEvening]

end ExscapeOS.Clock
