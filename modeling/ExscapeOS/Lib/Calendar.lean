import Mathlib.Tactic

/-!
# The Gregorian calendar

Days are counted from the beginning of the year 0, months from 0 and the days of a month from 1. A
`Moment` is a valid date with a time of day; its `unixTime` is strictly increasing, and every number
of seconds is the time of one.
-/
namespace ExscapeOS.Lib

def LeapYear (y : Nat) : Prop := y % 4 = 0 ∧ (y % 100 ≠ 0 ∨ y % 400 = 0)

instance (y : Nat) : Decidable (LeapYear y) := inferInstanceAs (Decidable (_ ∧ _))

def yearLength (y : Nat) : Nat := if LeapYear y then 366 else 365

def monthLength (y : Nat) : Nat → Nat
  | 1 => if LeapYear y then 29 else 28
  | 3 | 5 | 8 | 10 => 30
  | _ => 31

/-- The days before the year `y`. -/
def daysBeforeYear : Nat → Nat
  | 0 => 0
  | y + 1 => daysBeforeYear y + yearLength y

/-- The days of the year `y` before its month `m`. -/
def daysBeforeMonth (y : Nat) : Nat → Nat
  | 0 => 0
  | m + 1 => daysBeforeMonth y m + monthLength y m

variable {y m d : Nat}

lemma monthLength_ge (y m : Nat) : 28 ≤ monthLength y m := by
  unfold monthLength
  split
  · split_ifs <;> omega
  all_goals omega

lemma monthLength_le (y m : Nat) : monthLength y m ≤ 31 := by
  unfold monthLength
  split
  · split_ifs <;> omega
  all_goals omega

lemma daysBeforeMonth_congr {y' : Nat} (same : LeapYear y ↔ LeapYear y') :
    daysBeforeMonth y m = daysBeforeMonth y' m := by
  induction m with
  | zero => rfl
  | succ m ih => simp only [daysBeforeMonth, ih, monthLength, same]

lemma daysBeforeMonth_twelve (y : Nat) : daysBeforeMonth y 12 = yearLength y := by
  simp only [daysBeforeMonth, monthLength, yearLength]
  split_ifs <;> rfl

lemma daysBeforeYear_succ (y : Nat) : daysBeforeYear (y + 1) =
    daysBeforeYear y + yearLength y := rfl

lemma daysBeforeYear_eq (y : Nat) :
    daysBeforeYear y = 365 * y + (y + 3) / 4 + (y + 399) / 400 - (y + 99) / 100 := by
  induction y with
  | zero => rfl
  | succ y ih =>
    rw [daysBeforeYear, ih, yearLength]
    split_ifs with leap <;> unfold LeapYear at leap <;> omega

lemma daysBeforeYear_mono : Monotone daysBeforeYear :=
  monotone_nat_of_le_succ fun _ => Nat.le_add_right _ _

lemma daysBeforeMonth_mono (y : Nat) : Monotone (daysBeforeMonth y) :=
  monotone_nat_of_le_succ fun _ => Nat.le_add_right _ _

-- terms such as `daysBeforeYear 1970` are not to be unfolded
attribute [irreducible] daysBeforeYear

/-- A valid date with a time of day. -/
structure Moment where
  year : Nat
  month : Nat
  day : Nat
  hour : Nat
  minute : Nat
  second : Nat
  month_lt : month < 12
  day_pos : 1 ≤ day
  day_le : day ≤ monthLength year month
  hour_lt : hour < 24
  minute_lt : minute < 60
  second_lt : second < 60

namespace Moment

variable {a b : Moment}

def dayNumber (a : Moment) : Nat :=
  daysBeforeYear a.year + daysBeforeMonth a.year a.month + (a.day - 1)

/-- The seconds from 1970-01-01 00:00:00 to the moment. -/
def unixTime (a : Moment) : Int :=
  ((a.dayNumber : Int) - daysBeforeYear 1970) * 86400 + a.hour * 3600 + a.minute * 60 + a.second

/-- Calendar order is the lexicographic order of these lists. -/
def fields (a : Moment) : List Nat := [a.year, a.month, a.day, a.hour, a.minute, a.second]

lemma dayNumber_lt_month (a : Moment) :
    a.dayNumber < daysBeforeYear a.year + daysBeforeMonth a.year (a.month + 1) := by
  have pos := a.day_pos
  have le := a.day_le
  rw [dayNumber, daysBeforeMonth]
  omega

lemma dayNumber_lt_year (a : Moment) : a.dayNumber < daysBeforeYear (a.year + 1) := by
  have lt := a.dayNumber_lt_month
  have le := daysBeforeMonth_mono a.year (show a.month + 1 ≤ 12 from a.month_lt)
  rw [daysBeforeMonth_twelve] at le
  rw [daysBeforeYear_succ]
  omega

lemma unixTime_lt_of_fields_lt (before : a.fields < b.fields) : a.unixTime < b.unixTime := by
  have ha := a.dayNumber_lt_year
  have hm := a.dayNumber_lt_month
  have hour := a.hour_lt
  have minute := a.minute_lt
  have second := a.second_lt
  have pos := a.day_pos
  have day : b.dayNumber = daysBeforeYear b.year + daysBeforeMonth b.year b.month + (b.day - 1) :=
    rfl
  have day' : a.dayNumber = daysBeforeYear a.year + daysBeforeMonth a.year a.month + (a.day - 1) :=
    rfl
  simp only [fields, List.cons_lt_cons_iff, lt_self_iff_false, and_false, or_false] at before
  rw [unixTime, unixTime]
  rcases before with lt | ⟨eq, lt | ⟨eq', rest⟩⟩
  · have le := daysBeforeYear_mono (show a.year + 1 ≤ b.year from lt)
    omega
  · have le := daysBeforeMonth_mono b.year (show a.month + 1 ≤ b.month from lt)
    rw [eq] at hm
    omega
  · rw [eq, eq'] at day'
    omega

lemma exists_date (n : Nat) : ∃ y m d, m < 12 ∧ 1 ≤ d ∧ d ≤ monthLength y m ∧
    daysBeforeYear y + daysBeforeMonth y m + (d - 1) = n := by
  induction n with
  | zero => exact ⟨0, 0, 1, by decide, le_rfl, by decide, by simp [daysBeforeYear_eq,
      daysBeforeMonth]⟩
  | succ n ih =>
    -- the day after: in the same month, in the same year, or on the first of January
    obtain ⟨y, m, d, month, pos, le, eq⟩ := ih
    by_cases last : d = monthLength y m
    · by_cases december : m = 11
      · subst december
        have twelve := daysBeforeMonth_twelve y
        rw [daysBeforeMonth] at twelve
        refine ⟨y + 1, 0, 1, by omega, le_rfl, (by decide : 1 ≤ 28).trans (monthLength_ge ..), ?_⟩
        rw [daysBeforeYear_succ, daysBeforeMonth]
        omega
      · refine ⟨y, m + 1, 1, by omega, le_rfl, (by decide : 1 ≤ 28).trans (monthLength_ge ..), ?_⟩
        rw [daysBeforeMonth]
        omega
    · exact ⟨y, m, d + 1, month, by omega, by omega, by omega⟩

/-- Every number of seconds since the year 0 is the time of a moment. -/
theorem exists_unixTime {n : Int} (ge : -(daysBeforeYear 1970 * 86400 : Int) ≤ n) :
    ∃ a : Moment, a.unixTime = n := by
  obtain ⟨k, eq⟩ := Int.eq_ofNat_of_zero_le (a := n + daysBeforeYear 1970 * 86400) (by omega)
  obtain ⟨y, m, d, month, pos, le, day⟩ := exists_date (k / 86400)
  refine ⟨⟨y, m, d, k % 86400 / 3600, k % 3600 / 60, k % 60, month, pos, le, by omega, by omega,
    by omega⟩, ?_⟩
  rw [unixTime, dayNumber, day]
  dsimp only
  omega

end Moment

end ExscapeOS.Lib
