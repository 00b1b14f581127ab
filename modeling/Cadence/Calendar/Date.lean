/-!
The proleptic Gregorian calendar with a year 0. A date and the number of days since 1970-01-01 are two views of the
same day: `Date.dayNumber` counts, `Date.ofDayNumber` finds the date. Both work with years that begin in March, so
that a leap day is the last day of its year.
-/

namespace Cadence

structure Date where
  year : Int
  month : Int
  day : Int
deriving DecidableEq

namespace Calendar

def isLeapYear (year : Int) : Bool :=
  year % 4 == 0 && (year % 100 != 0 || year % 400 == 0)

def monthLength (year month : Int) : Int :=
  if month = 2 then (if isLeapYear year then 29 else 28)
  else if month = 4 ∨ month = 6 ∨ month = 9 ∨ month = 11 then 30
  else 31

theorem monthLength_bounds (year month : Int) : 28 ≤ monthLength year month ∧ monthLength year month ≤ 31 := by
  simp only [monthLength]
  split
  · split <;> omega
  · split <;> omega

/-- Days from 1 March of year 0 to the first day of a year that begins in March. -/
def daysBeforeMarchYear (year : Int) : Int :=
  365 * year + year / 4 - year / 100 + year / 400

def daysBeforeMarchMonth (month : Int) : Int :=
  (153 * month + 2) / 5

def unixDay : Int := 719468

end Calendar

namespace Date

open Calendar

def Valid (d : Date) : Prop :=
  1 ≤ d.month ∧ d.month ≤ 12 ∧ 1 ≤ d.day ∧ d.day ≤ monthLength d.year d.month

instance (d : Date) : Decidable d.Valid := by unfold Valid; infer_instance

/-- Days since 1970-01-01. -/
def dayNumber (d : Date) : Int :=
  let marchYear := if d.month ≤ 2 then d.year - 1 else d.year
  let marchMonth := if d.month ≤ 2 then d.month + 9 else d.month - 3
  daysBeforeMarchYear marchYear + daysBeforeMarchMonth marchMonth + (d.day - 1) - unixDay

/-- A day of a span of four hundred years, as a year of the span (0 to 399) and a day of that year (0 to 365). The
last year of a century, and the last of four, may take one day more than the division gives them. -/
def splitEra (dayOfEra : Int) : Int × Int :=
  let century := min (dayOfEra / 36524) 3
  let dayOfCentury := dayOfEra - 36524 * century
  let leapSpan := dayOfCentury / 1461
  let dayOfSpan := dayOfCentury - 1461 * leapSpan
  let year := min (dayOfSpan / 365) 3
  (100 * century + 4 * leapSpan + year, dayOfSpan - 365 * year)

theorem splitEra_spec {n : Int} (low : 0 ≤ n) (high : n < 146097) :
    0 ≤ (splitEra n).1 ∧ (splitEra n).1 < 400 ∧ 0 ≤ (splitEra n).2 ∧ (splitEra n).2 ≤ 365 ∧
      n = daysBeforeMarchYear (splitEra n).1 + (splitEra n).2 := by
  have quotients : ∀ c q r : Int, 0 ≤ c → c ≤ 3 → 0 ≤ q → q ≤ 24 → 0 ≤ r → r ≤ 3 →
      daysBeforeMarchYear (100 * c + 4 * q + r) = 36524 * c + 1461 * q + 365 * r := by
    intro c q r _ _ _ _ _ _
    have fourth : (100 * c + 4 * q + r) / 4 = 25 * c + q := by omega
    have hundredth : (100 * c + 4 * q + r) / 100 = c := by omega
    have four_hundredth : (100 * c + 4 * q + r) / 400 = 0 := by omega
    rw [daysBeforeMarchYear, fourth, hundredth, four_hundredth]
    omega
  simp only [splitEra]
  rw [quotients _ _ _ (by omega) (by omega) (by omega) (by omega) (by omega) (by omega)]
  omega

theorem daysBeforeMarchYear_add_eras (era year : Int) :
    daysBeforeMarchYear (400 * era + year) = 146097 * era + daysBeforeMarchYear year := by
  have fourth : (400 * era + year) / 4 = 100 * era + year / 4 := by omega
  have hundredth : (400 * era + year) / 100 = 4 * era + year / 100 := by omega
  have four_hundredth : (400 * era + year) / 400 = era + year / 400 := by omega
  rw [daysBeforeMarchYear, daysBeforeMarchYear, fourth, hundredth, four_hundredth]
  omega

def splitMarchYear (dayOfYear : Int) : Int × Int :=
  let month := (5 * dayOfYear + 2) / 153
  (month, dayOfYear - daysBeforeMarchMonth month + 1)

theorem splitMarchYear_spec {n : Int} (low : 0 ≤ n) (high : n ≤ 365) :
    0 ≤ (splitMarchYear n).1 ∧ (splitMarchYear n).1 ≤ 11 ∧
      1 ≤ (splitMarchYear n).2 ∧ (splitMarchYear n).2 ≤ 31 ∧
      n = daysBeforeMarchMonth (splitMarchYear n).1 + ((splitMarchYear n).2 - 1) := by
  simp only [splitMarchYear, daysBeforeMarchMonth]
  omega

def ofDayNumber (n : Int) : Date :=
  let shifted := n + unixDay
  let era := shifted / 146097
  let inEra := splitEra (shifted % 146097)
  let inYear := splitMarchYear inEra.2
  let marchYear := 400 * era + inEra.1
  if inYear.1 ≤ 9 then ⟨marchYear, inYear.1 + 3, inYear.2⟩
  else ⟨marchYear + 1, inYear.1 - 9, inYear.2⟩

theorem dayNumber_ofDayNumber (n : Int) : (ofDayNumber n).dayNumber = n := by
  have low : 0 ≤ (n + unixDay) % 146097 := Int.emod_nonneg _ (by omega)
  have high : (n + unixDay) % 146097 < 146097 := Int.emod_lt_of_pos _ (by omega)
  have era := splitEra_spec low high
  have year := splitMarchYear_spec era.2.2.1 era.2.2.2.1
  simp only [ofDayNumber]
  split
  · simp only [dayNumber]
    rw [if_neg (by omega), if_neg (by omega), daysBeforeMarchYear_add_eras, Int.add_sub_cancel]
    omega
  · simp only [dayNumber]
    rw [if_pos (by omega), if_pos (by omega), Int.sub_add_cancel, Int.add_sub_cancel,
      daysBeforeMarchYear_add_eras]
    omega

def daysSinceMonday (dayNumber : Int) : Int := (dayNumber + 3) % 7

def monthIndex (d : Date) : Int := 12 * d.year + (d.month - 1)

/-- The date some months later, or earlier if `months` is negative, on the same day of the month or, where that month
is shorter, on its last day. -/
def addMonths (d : Date) (months : Int) : Date :=
  let index := d.monthIndex + months
  let year := index / 12
  let month := index % 12 + 1
  ⟨year, month, min d.day (monthLength year month)⟩

theorem addMonths_monthIndex (d : Date) (months : Int) :
    (d.addMonths months).monthIndex = d.monthIndex + months := by
  simp only [addMonths, monthIndex]
  omega

theorem addMonths_valid {d : Date} (h : d.Valid) (months : Int) : (d.addMonths months).Valid := by
  obtain ⟨_, _, day_pos, _⟩ := h
  have length := monthLength_bounds ((d.monthIndex + months) / 12) ((d.monthIndex + months) % 12 + 1)
  simp only [Valid, addMonths]
  omega

end Date

end Cadence
