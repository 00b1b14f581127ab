import Cadence.Calendar.Order
import Cadence.Schedule.Truncate
import Cadence.Schedule.Shift

/-!
The days on which units of the calendar begin. A move of the date by whole units divides all days into stretches, each
of which has a first day (`DateMove.startDay`): every day is in one stretch (`DateMove.startDay_stretch`), and moves
lead from one first day to another (`CivilTime.move?_midnight`). The stretches of a unit begin on the dates on which
the unit begins (`CalendarUnit.begins_iff`), and with them what is found by truncation
(`CivilTime.truncate_eq_ok_iff`). A midnight is in the calendar if its day is (`CivilTime.exists_midnight?_iff`).
-/

namespace Cadence

open Calendar

namespace Date

variable {day index a b : Int}

theorem monthStart_lt (h : a < b) : monthStart a < monthStart b := by
  have next := monthStart_succ a
  have length := monthLength_bounds (a / 12) (a % 12 + 1)
  have later := monthStart_le (show a + 1 ≤ b by omega)
  omega

theorem dayNumber_first {year month : Int} (h : 1 ≤ month ∧ month ≤ 12) :
    dayNumber ⟨year, month, 1⟩ = monthStart (12 * year + (month - 1)) := by
  rw [dayNumber_eq_monthStart _ h, Int.sub_self, Int.add_zero]
  rfl

theorem eq_monthStart_iff :
    day = monthStart index ↔ (ofDayNumber day).day = 1 ∧ (ofDayNumber day).monthIndex = index := by
  have valid := ofDayNumber_valid day
  constructor
  · intro first
    have date : (⟨index / 12, index % 12 + 1, 1⟩ : Date).Valid := by
      have length := monthLength_bounds (index / 12) (index % 12 + 1)
      simp only [Valid]
      omega
    rw [first, monthStart, ofDayNumber_dayNumber date]
    simp only [monthIndex, true_and]
    omega
  · rintro ⟨first, rfl⟩
    have place := dayNumber_eq_monthStart _ ⟨valid.1, valid.2.1⟩
    rw [dayNumber_ofDayNumber, first] at place
    omega

theorem monthStart_bounds (day : Int) : monthStart (ofDayNumber day).monthIndex ≤ day ∧
    day < monthStart ((ofDayNumber day).monthIndex + 1) := by
  obtain ⟨low, high, first, last⟩ := ofDayNumber_valid day
  have place := dayNumber_eq_monthStart _ ⟨low, high⟩
  have next := monthStart_succ (ofDayNumber day).monthIndex
  have year : (ofDayNumber day).monthIndex / 12 = (ofDayNumber day).year := by simp only [monthIndex]; omega
  have month : (ofDayNumber day).monthIndex % 12 + 1 = (ofDayNumber day).month := by simp only [monthIndex]; omega
  rw [dayNumber_ofDayNumber] at place
  rw [year, month] at next
  omega

end Date

namespace DateMove

variable {move : DateMove} {day k l : Int}

/-- The first day of each of the stretches into which a move divides all days. Days are counted from a Monday, months
from the year 0. -/
def startDay : DateMove → Int → Int
  | days n, k => n * k - 3
  | months n, k => Date.monthStart (n * k)

def stretch : DateMove → Int → Int
  | days n, day => (day + 3) / n
  | months n, day => (Date.ofDayNumber day).monthIndex / n

theorem eq_startDay_months_iff {n : Int} : (∃ k, day = (months n).startDay k) ↔
    (Date.ofDayNumber day).day = 1 ∧ n ∣ (Date.ofDayNumber day).monthIndex := by
  simp only [startDay, Date.eq_monthStart_iff, exists_and_left, Dvd.dvd]

section Forward

variable (forward : move.IsForward)
include forward

theorem startDay_lt (less : k < l) : move.startDay k < move.startDay l := by
  cases move with
  | days n =>
    have := Int.mul_lt_mul_of_pos_left less forward
    simp only [startDay]
    omega
  | months n => exact Date.monthStart_lt (Int.mul_lt_mul_of_pos_left less forward)

theorem startDay_lt_iff : move.startDay k < move.startDay l ↔ k < l := by
  refine ⟨fun less => Int.not_le.mp fun le => ?_, startDay_lt forward⟩
  obtain same | later := Int.le_iff_eq_or_lt.mp le
  · rw [same] at less
    omega
  · have := startDay_lt forward later
    omega

theorem startDay_stretch (day : Int) :
    move.startDay (move.stretch day) ≤ day ∧ day < move.startDay (move.stretch day + 1) := by
  cases move with
  | days n =>
    have low := Int.mul_ediv_self_le (x := day + 3) (Int.ne_of_gt forward)
    have high := Int.lt_mul_ediv_self_add (x := day + 3) forward
    simp only [startDay, stretch, Int.mul_add, Int.mul_one]
    omega
  | months n =>
    have bounds := Date.monthStart_bounds day
    have low := Int.mul_ediv_self_le (x := (Date.ofDayNumber day).monthIndex) (Int.ne_of_gt forward)
    have high := Int.lt_mul_ediv_self_add (x := (Date.ofDayNumber day).monthIndex) forward
    have earlier := Date.monthStart_le low
    have later := Date.monthStart_le (Int.add_one_le_of_lt high)
    simp only [startDay, stretch, Int.mul_add, Int.mul_one]
    omega

theorem eq_stretch (low : move.startDay k ≤ day) (high : day < move.startDay (k + 1)) : k = move.stretch day := by
  have bounds := startDay_stretch forward day
  have first := (startDay_lt_iff forward (k := k) (l := move.stretch day + 1)).mp (by omega)
  have last := (startDay_lt_iff forward (k := move.stretch day) (l := k + 1)).mp (by omega)
  omega

end Forward

end DateMove

namespace CivilTime

variable {c m : CivilTime} {move : DateMove} {day k : Int}

theorem midnight?_eq_some : midnight? day = some m ↔ m.toMoment = ⟨day * nanosPerDay, false⟩ := ofMoment?_eq_some

theorem exists_midnight?_iff : (∃ m, midnight? day = some m) ↔ firstDay ≤ day ∧ day ≤ lastDay := by
  have inside : InRange (day * nanosPerDay) ↔ firstDay ≤ day ∧ day ≤ lastDay := by
    simp only [InRange, firstNanos, lastNanos, firstDay, lastDay, nanosPerDay]
    omega
  rw [← inside]
  constructor
  · rintro ⟨m, midnight⟩
    have range := m.inRange
    rwa [midnight?_eq_some.mp midnight] at range
  · exact fun range => ⟨⟨_, range⟩, midnight?_eq_some.mpr rfl⟩

theorem dayNumber_bounds (c : CivilTime) : firstDay ≤ c.dayNumber ∧ c.dayNumber ≤ lastDay := by
  have range := c.inRange
  simp only [InRange, firstNanos, lastNanos] at range
  simp only [firstDay, lastDay, Moment.dayNumber, nanosPerDay]
  omega

theorem dayNumber_of_midnight? (midnight : midnight? day = some m) : m.dayNumber = day := by
  rw [midnight?_eq_some.mp midnight]
  simp only [Moment.dayNumber, nanosPerDay]
  omega

theorem midnight?_dayNumber_iff : midnight? c.dayNumber = some c ↔ c.leap = false ∧ c.timeOfDay = 0 := by
  have split := c.toMoment.day_add_timeOfDay
  rw [midnight?_eq_some]
  constructor
  · intro place
    have nanos : c.nanos = c.dayNumber * nanosPerDay := congrArg Moment.nanos place
    exact ⟨congrArg Moment.leap place, by omega⟩
  · rintro ⟨leap, time⟩
    rw [time, Int.add_zero] at split
    rw [split, ← leap]

theorem lt_midnight_iff (midnight : midnight? day = some m) : c < m ↔ c.dayNumber < day := by
  have length := c.toMoment.leapNanos_bounds
  change c.rank < m.rank ↔ _
  rw [midnight?_eq_some.mp midnight]
  simp only [Moment.rank, Moment.seconds, Moment.dayNumber, Moment.leapNanos, nanosPerDay, nanosPerSecond,
    Bool.false_eq_true, if_false] at *
  omega

theorem midnight_le_iff (midnight : midnight? day = some m) : m ≤ c ↔ day ≤ c.dayNumber := by
  have before := lt_midnight_iff (c := c) midnight
  rw [← Int.not_lt, ← before]
  exact Int.not_lt.symm

theorem move?_midnight (start : midnight? (move.startDay k) = some c) (count : Int) :
    c.move? (move.scale count) = midnight? (move.startDay (k + count)) := by
  have day := dayNumber_of_midnight? start
  have place := midnight?_eq_some.mp start
  have time : c.timeOfDay = 0 := by
    rw [place]
    simp only [Moment.timeOfDay, nanosPerDay]
    omega
  have leap : c.leap = false := by rw [place]
  have moved : ∀ target, c.onDay target = ⟨target * nanosPerDay, false⟩ := by
    intro target
    rw [Moment.onDay, time, leap, Int.add_zero]
  cases move with
  | days n =>
    have target : c.dayNumber + count * n = n * (k + count) - 3 := by
      rw [day, DateMove.startDay, Int.mul_add, Int.mul_comm count n]
      omega
    simp only [DateMove.scale, move?, addDays?, moved, target]
    rfl
  | months n =>
    obtain ⟨first, index⟩ := Date.eq_monthStart_iff.mp day
    have target : (c.date.addMonths (count * n)).dayNumber = Date.monthStart (n * (k + count)) := by
      have length := monthLength_bounds ((n * k + count * n) / 12) ((n * k + count * n) % 12 + 1)
      have same : n * k + count * n = n * (k + count) := by rw [Int.mul_add, Int.mul_comm count n]
      change (Date.addMonths (Date.ofDayNumber c.dayNumber) (count * n)).dayNumber = _
      simp only [Date.addMonths, first, index]
      rw [Int.min_eq_left (by omega), same]
      rfl
    simp only [DateMove.scale, move?, addMonths?, moved, target]
    rfl

end CivilTime

/-- The date is the first day of a unit. Decades, centuries and millennia begin in the years that their lengths
divide. -/
def CalendarUnit.Begins (d : Date) : CalendarUnit → Prop
  | days => True
  | weeks => Date.daysSinceMonday d.dayNumber = 0
  | months => d.day = 1
  | years => d.month = 1 ∧ d.day = 1
  | decades => d.year % 10 = 0 ∧ d.month = 1 ∧ d.day = 1
  | centuries => d.year % 100 = 0 ∧ d.month = 1 ∧ d.day = 1
  | millennia => d.year % 1000 = 0 ∧ d.month = 1 ∧ d.day = 1

namespace CalendarUnit

theorem move_isForward (u : CalendarUnit) : u.move.IsForward := by
  cases u <;> simp [move, DateMove.IsForward]

theorem begins_iff (u : CalendarUnit) (day : Int) : u.Begins (Date.ofDayNumber day) ↔ ∃ k, day = u.move.startDay k := by
  have valid := Date.ofDayNumber_valid day
  cases u with
  | days => exact iff_of_true trivial ⟨day + 3, by simp only [move, DateMove.startDay]; omega⟩
  | weeks =>
    simp only [Begins, Date.dayNumber_ofDayNumber, Date.daysSinceMonday, move, DateMove.startDay]
    constructor
    · exact fun monday => ⟨(day + 3) / 7, by omega⟩
    · rintro ⟨k, rfl⟩
      omega
  | _ =>
    simp only [Begins, move, DateMove.eq_startDay_months_iff, Date.monthIndex]
    have low := valid.1
    have high := valid.2.1
    omega

example : weeks.Begins ⟨2024, 1, 1⟩ := by
  change Date.daysSinceMonday (Date.dayNumber ⟨2024, 1, 1⟩) = 0
  decide

theorem firstDay_eq (u : CalendarUnit) (day : Int) :
    u.firstDay (Date.ofDayNumber day) = u.move.startDay (u.move.stretch day) := by
  obtain ⟨low, high, -⟩ := Date.ofDayNumber_valid day
  cases u with
  | days =>
    simp only [firstDay, move, DateMove.startDay, DateMove.stretch, Date.dayNumber_ofDayNumber]
    omega
  | weeks =>
    simp only [firstDay, move, DateMove.startDay, DateMove.stretch, Date.dayNumber_ofDayNumber,
      Date.daysSinceMonday]
    omega
  | months =>
    simp only [firstDay, move, DateMove.startDay, DateMove.stretch]
    rw [Date.dayNumber_first ⟨low, high⟩, Int.ediv_one, Int.one_mul, Date.monthIndex]
  | _ =>
    simp only [firstDay, move, DateMove.startDay, DateMove.stretch]
    rw [Date.dayNumber_first (by decide)]
    congr 1
    simp only [Date.monthIndex]
    omega

end CalendarUnit

theorem CivilTime.truncate_eq_ok_iff {c s : CivilTime} {u : CalendarUnit} :
    c.truncate (.calendar u) = .ok s ↔ midnight? (u.move.startDay (u.move.stretch c.dayNumber)) = some s := by
  rw [← u.firstDay_eq]
  change _ ↔ midnight? (u.firstDay c.date) = some s
  rw [truncate]
  cases midnight? (u.firstDay c.date) <;> simp

end Cadence
