import Cadence.Calendar.Date

/-!
Dates in their order. Every day number stands for a date that the calendar has (`ofDayNumber_valid`), the months follow
one another without a gap (`monthStart_succ`), and so a later month comes with a greater day number
(`dayNumber_lt_of_monthIndex_lt`).
-/

namespace Cadence.Date

open Calendar

theorem isLeapYear_iff (year : Int) : isLeapYear year = true ↔ year % 4 = 0 ∧ (year % 100 ≠ 0 ∨ year % 400 = 0) := by
  simp [isLeapYear, bne]

theorem daysBeforeMarchYear_succ (year : Int) :
    daysBeforeMarchYear (year + 1) = daysBeforeMarchYear year + 337 + monthLength (year + 1) 2 := by
  have leap := isLeapYear_iff (year + 1)
  simp only [daysBeforeMarchYear, monthLength, if_true]
  split
  · have := leap.mp (by assumption)
    omega
  · have := mt leap.mpr (by assumption)
    omega

def monthStart (index : Int) : Int := dayNumber ⟨index / 12, index % 12 + 1, 1⟩

theorem monthStart_succ (index : Int) :
    monthStart (index + 1) = monthStart index + monthLength (index / 12) (index % 12 + 1) := by
  have months : index % 12 = 0 ∨ index % 12 = 1 ∨ index % 12 = 2 ∨ index % 12 = 3 ∨ index % 12 = 4 ∨ index % 12 = 5 ∨
      index % 12 = 6 ∨ index % 12 = 7 ∨ index % 12 = 8 ∨ index % 12 = 9 ∨ index % 12 = 10 ∨ index % 12 = 11 := by omega
  have turn := daysBeforeMarchYear_succ (index / 12 - 1)
  rw [Int.sub_add_cancel] at turn
  simp only [monthStart]
  rcases months with h | h | h | h | h | h | h | h | h | h | h | h
  all_goals
    first
      | rw [show (index + 1) / 12 = index / 12 by omega, show (index + 1) % 12 = index % 12 + 1 by omega, h]
      | rw [show (index + 1) / 12 = index / 12 + 1 by omega, show (index + 1) % 12 = 0 by omega, h]
    simp [dayNumber, daysBeforeMarchMonth, monthLength] at *
    try omega

theorem monthStart_le {a b : Int} (h : a ≤ b) : monthStart a ≤ monthStart b := by
  obtain ⟨gap, rfl⟩ : ∃ gap : Nat, b = a + gap := ⟨(b - a).toNat, by omega⟩
  induction gap with
  | zero => simp
  | succ gap ih =>
      have step := monthStart_succ (a + gap)
      have bounds := monthLength_bounds ((a + gap) / 12) ((a + gap) % 12 + 1)
      have before := ih (by omega)
      rw [show a + ((gap + 1 : Nat) : Int) = a + gap + 1 by omega]
      omega

theorem dayNumber_eq_monthStart (d : Date) (h : 1 ≤ d.month ∧ d.month ≤ 12) :
    d.dayNumber = monthStart d.monthIndex + (d.day - 1) := by
  have year : d.monthIndex / 12 = d.year := by simp only [monthIndex]; omega
  have month : d.monthIndex % 12 + 1 = d.month := by simp only [monthIndex]; omega
  simp only [monthStart, year, month, dayNumber]
  omega

theorem dayNumber_lt_of_monthIndex_lt {a b : Date} (ha : a.Valid) (hb : b.Valid) (h : a.monthIndex < b.monthIndex) :
    a.dayNumber < b.dayNumber := by
  obtain ⟨a_low, a_high, _, a_length⟩ := ha
  obtain ⟨b_low, b_high, _, _⟩ := hb
  rw [dayNumber_eq_monthStart a ⟨a_low, a_high⟩, dayNumber_eq_monthStart b ⟨b_low, b_high⟩]
  have next := monthStart_succ a.monthIndex
  have later := monthStart_le (show a.monthIndex + 1 ≤ b.monthIndex by omega)
  have year : a.monthIndex / 12 = a.year := by simp only [monthIndex]; omega
  have month : a.monthIndex % 12 + 1 = a.month := by simp only [monthIndex]; omega
  rw [year, month] at next
  omega

theorem splitEra_leap {n : Int} (low : 0 ≤ n) (high : n < 146097) (last : (splitEra n).2 = 365) :
    isLeapYear ((splitEra n).1 + 1) = true := by
  have quotients : ∀ c q r : Int, 0 ≤ c → c ≤ 3 → 0 ≤ q → q ≤ 24 → r = 3 → (q = 24 → c = 3) →
      isLeapYear (100 * c + 4 * q + r + 1) = true := by
    intro c q r _ _ _ _ _ _
    rw [isLeapYear_iff]
    omega
  simp only [splitEra] at *
  exact quotients _ _ _ (by omega) (by omega) (by omega) (by omega) (by omega) (by omega)

theorem isLeapYear_add_eras (era year : Int) : isLeapYear (400 * era + year) = isLeapYear year := by
  have h := isLeapYear_iff (400 * era + year)
  have h' := isLeapYear_iff year
  rw [Bool.eq_iff_iff, h, h']
  omega

theorem splitMarchYear_length {n : Int} (low : 0 ≤ n) (high : n ≤ 365) (year : Int) :
    ((splitMarchYear n).1 ≤ 9 → (splitMarchYear n).2 ≤ monthLength year ((splitMarchYear n).1 + 3)) ∧
      (9 < (splitMarchYear n).1 → (n = 365 → isLeapYear year = true) →
        (splitMarchYear n).2 ≤ monthLength year ((splitMarchYear n).1 - 9)) := by
  have months : (5 * n + 2) / 153 = 0 ∨ (5 * n + 2) / 153 = 1 ∨ (5 * n + 2) / 153 = 2 ∨ (5 * n + 2) / 153 = 3 ∨
      (5 * n + 2) / 153 = 4 ∨ (5 * n + 2) / 153 = 5 ∨ (5 * n + 2) / 153 = 6 ∨ (5 * n + 2) / 153 = 7 ∨
      (5 * n + 2) / 153 = 8 ∨ (5 * n + 2) / 153 = 9 ∨ (5 * n + 2) / 153 = 10 ∨ (5 * n + 2) / 153 = 11 := by omega
  simp only [splitMarchYear, daysBeforeMarchMonth]
  rcases months with h | h | h | h | h | h | h | h | h | h | h | h <;> simp [h, monthLength]
  all_goals try omega
  all_goals
    intro leap
    split
    · omega
    · have := mt leap (by assumption)
      omega

theorem ofDayNumber_valid (n : Int) : (ofDayNumber n).Valid := by
  have low : 0 ≤ (n + unixDay) % 146097 := Int.emod_nonneg _ (by omega)
  have high : (n + unixDay) % 146097 < 146097 := Int.emod_lt_of_pos _ (by omega)
  have era := splitEra_spec low high
  have year := splitMarchYear_spec era.2.2.1 era.2.2.2.1
  have leap := splitEra_leap low high
  have length := splitMarchYear_length era.2.2.1 era.2.2.2.1
  simp only [ofDayNumber]
  split
  · rename_i early
    exact ⟨by simp only; omega, by simp only; omega, year.2.2.1, (length _).1 early⟩
  · rename_i late
    refine ⟨by simp only; omega, by simp only; omega, year.2.2.1, (length _).2 (by omega) fun last => ?_⟩
    rw [Int.add_assoc, isLeapYear_add_eras]
    exact leap last

theorem ofDayNumber_dayNumber {d : Date} (h : d.Valid) : ofDayNumber d.dayNumber = d := by
  have valid := ofDayNumber_valid d.dayNumber
  have same := dayNumber_ofDayNumber d.dayNumber
  generalize ofDayNumber d.dayNumber = other at *
  have month : other.monthIndex = d.monthIndex := by
    rcases Int.lt_trichotomy other.monthIndex d.monthIndex with less | equal | more
    · have := dayNumber_lt_of_monthIndex_lt valid h less
      omega
    · exact equal
    · have := dayNumber_lt_of_monthIndex_lt h valid more
      omega
  rw [dayNumber_eq_monthStart _ ⟨valid.1, valid.2.1⟩, dayNumber_eq_monthStart _ ⟨h.1, h.2.1⟩, month] at same
  cases other
  cases d
  simp only [monthIndex, Valid] at *
  simp only [Date.mk.injEq]
  omega

end Cadence.Date
