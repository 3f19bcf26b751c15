import ExscapeOS.Kernel.Time

/-!
# Times of files on FAT

`fat_calc_time` of `kernel/fat/fat.c`. The date on the disk is not checked: its month is shifted by
one in a byte, and `validate_structure` looks up a month before it reduces it.
-/
namespace ExscapeOS.Fat

open Lib Clock

/-- `fat32_date_t`, with fields of 7, 4 and 5 bits. -/
structure DiskDate where
  year : Fin 128
  month : Fin 16
  day : Fin 32

/-- `fat32_time_t`, with fields of 5, 6 and 5 bits. -/
structure DiskTime where
  hour : Fin 32
  minute : Fin 64
  second : Fin 32

/-- The times of a directory entry. -/
structure DiskTimes where
  createTime : DiskTime
  createDate : DiskDate
  accessDate : DiskDate
  modTime : DiskTime
  modDate : DiskDate

/-- `FAT_MTIME`, `FAT_CTIME` and `FAT_ATIME` -/
inductive TimeType where
  | mtime
  | ctime
  | atime

/-- The date and the time of day; there is none for the last access. -/
def DiskTimes.pick (e : DiskTimes) : TimeType → DiskDate × Option DiskTime
  | .mtime => (e.modDate, some e.modTime)
  | .ctime => (e.createDate, some e.createTime)
  | .atime => (e.accessDate, none)

def DiskTimes.time (e : DiskTimes) (type : TimeType) : Clock.Time where
  year := 1980 + (e.pick type).1.year - 1900
  month := ((e.pick type).1.month + 255) % 2 ^ 8
  day := (e.pick type).1.day
  hour := (e.pick type).2.elim 0 (·.hour)
  minute := (e.pick type).2.elim 0 (·.minute)
  second := (e.pick type).2.elim 0 (·.second * 2)

/-- `fat_calc_time` returns `r`. -/
def FatCalcTime (e : DiskTimes) (type : TimeType) (r : Int) : Prop := KernMktime (e.time type) r

/-- A month that is not in the table is looked up all the same. -/
lemma not_kernMktime {t : Clock.Time} {r : Int} (large : 12 ≤ t.month) : ¬ KernMktime t r := by
  rintro ⟨v, -, returns, -⟩
  refine not_returns_of_none ?_ returns
  have none : daysInMonth[t.month]? = none := List.getElem?_eq_none large
  simp [validateStep, monthDays, carry, none, show t.month ≠ 1 by omega]

lemma carry_day_lt {t : Clock.Time} (day : t.day < 256) : (carry t).day < 256 := by
  simp only [carry]
  split_ifs <;> omega

/-- `fat_calc_time` returns the time of a moment exactly if the month on the disk is one. -/
theorem fatCalcTime_iff (e : DiskTimes) (type : TimeType) :
    (∃ r, FatCalcTime e type r ∧ ∃ a : Moment, a.unixTime = r) ↔
      1 ≤ (e.pick type).1.month.val ∧ (e.pick type).1.month.val ≤ 12 := by
  have month : (e.time type).month = ((e.pick type).1.month + 255) % 2 ^ 8 := rfl
  have lt := (e.pick type).1.month.isLt
  constructor
  · rintro ⟨r, returns, -⟩
    by_contra outside
    exact not_kernMktime (by omega) returns
  · intro inside
    have year : (carry (e.time type)).year = 1980 + (e.pick type).1.year - 1900 :=
      if_neg (by omega)
    have day := carry_day_lt (t := e.time type) ((e.pick type).1.day.isLt.trans (by decide))
    refine ⟨_, (kernMktime_iff (by omega) (by omega)).mpr rfl, Moment.exists_unixTime ?_⟩
    refine le_trans ?_ (Int.le_bmod (by decide))
    rw [daysBeforeYear_eq]
    decide

/-- An entry without a date of the last access. -/
def zeroDates : DiskTimes :=
  ⟨⟨0, 0, 0⟩, ⟨0, 0, 0⟩, ⟨0, 0, 0⟩, ⟨0, 0, 0⟩, ⟨0, 0, 0⟩⟩

/-- The month 0 is looked up as the month 255. -/
theorem zeroDates_not_returns : ¬ ∃ r, FatCalcTime zeroDates .atime r := by
  rintro ⟨r, returns⟩
  exact not_kernMktime (by decide) returns

end ExscapeOS.Fat
