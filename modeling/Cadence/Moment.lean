import Cadence.Calendar.Range

/-!
Readings of a calendar and a clock, to the nanosecond. Days have 86400 seconds, and any second may be followed by a leap
second, for which a count of seconds has no room: a moment in a leap second is the moment one second earlier together
with a mark. Moments are ordered as a clock with leap seconds shows them, by `rank`, in which every second has room for
a leap second behind it. Only a moment in a leap second knows of that second: `shift` leaves it when its end or its
begin is passed, and never enters one (`shift_of_ordinary`). To shift forward always leads to a moment that is later
(`rank_lt_shift`).
-/

namespace Cadence

open Calendar

structure Moment where
  nanos : Int
  leap : Bool
deriving DecidableEq

namespace Moment

def seconds (m : Moment) : Int := m.nanos / nanosPerSecond

def nanosOfSecond (m : Moment) : Int := m.nanos % nanosPerSecond

def dayNumber (m : Moment) : Int := m.nanos / nanosPerDay

def timeOfDay (m : Moment) : Int := m.nanos % nanosPerDay

def date (m : Moment) : Date := Date.ofDayNumber m.dayNumber

def leapNanos (m : Moment) : Int := if m.leap then nanosPerSecond else 0

/-- The count in which a leap second coincides with the second after it. -/
def stamp (m : Moment) : Int := m.nanos + m.leapNanos

/-- The place in the order of all moments. -/
def rank (m : Moment) : Int := m.nanos + m.seconds * nanosPerSecond + m.leapNanos

/-- The reading, at the same moment, of a clock that is so many seconds ahead. -/
def ahead (seconds : Int) (m : Moment) : Moment := { m with nanos := m.nanos + seconds * nanosPerSecond }

def onDay (dayNumber : Int) (m : Moment) : Moment := { m with nanos := dayNumber * nanosPerDay + m.timeOfDay }

def shift (nanos : Int) (m : Moment) : Moment :=
  if m.leap ∧ m.nanosOfSecond + nanos < 0 then ⟨m.stamp + nanos, false⟩
  else ⟨m.nanos + nanos, m.leap && m.nanosOfSecond + nanos < nanosPerSecond⟩

/-- The nanoseconds from one moment to another. The leap second of one of them is passed on the way where the other has
a later time of day, whatever the days are. -/
def since (later earlier : Moment) : Int :=
  later.stamp - earlier.stamp +
    (if earlier.timeOfDay / nanosPerSecond < later.timeOfDay / nanosPerSecond then earlier.leapNanos else 0) -
    (if later.timeOfDay / nanosPerSecond < earlier.timeOfDay / nanosPerSecond then later.leapNanos else 0)

theorem leapNanos_bounds (m : Moment) : 0 ≤ m.leapNanos ∧ m.leapNanos ≤ nanosPerSecond := by
  rw [leapNanos]
  split <;> decide

theorem timeOfDay_bounds (m : Moment) : 0 ≤ m.timeOfDay ∧ m.timeOfDay < nanosPerDay := by
  simp only [timeOfDay, nanosPerDay]
  omega

theorem day_add_timeOfDay (m : Moment) : m.dayNumber * nanosPerDay + m.timeOfDay = m.nanos := by
  simp only [dayNumber, timeOfDay, nanosPerDay]
  omega

theorem onDay_dayNumber (m : Moment) : m.onDay m.dayNumber = m := by
  rw [onDay, day_add_timeOfDay]

theorem timeOfDay_onDay (day : Int) (m : Moment) : (m.onDay day).timeOfDay = m.timeOfDay := by
  have bounds := m.timeOfDay_bounds
  simp only [onDay, timeOfDay, nanosPerDay] at *
  omega

theorem seconds_ahead (offset : Int) (m : Moment) : (m.ahead offset).seconds = m.seconds + offset := by
  simp only [ahead, seconds, nanosPerSecond]
  omega

theorem ahead_neg_ahead (offset : Int) (m : Moment) : (m.ahead (-offset)).ahead offset = m := by
  simp only [ahead, Int.neg_mul, Int.neg_add_cancel_right]

theorem rank_injective {m n : Moment} (h : m.rank = n.rank) : m = n := by
  obtain ⟨a, p⟩ := m
  obtain ⟨b, q⟩ := n
  cases p <;> cases q <;> simp [rank, leapNanos, seconds, nanosPerSecond] at h <;>
    simp only [mk.injEq, and_true] <;> omega

theorem rank_lt_iff_of_leap_eq {m n : Moment} (same : m.leap = n.leap) : m.rank < n.rank ↔ m.nanos < n.nanos := by
  simp only [rank, leapNanos, seconds, nanosPerSecond, same]
  omega

theorem rank_lt_onDay (m : Moment) {day : Int} (later : m.dayNumber < day) : m.rank < (m.onDay day).rank := by
  have same : m.leap = (m.onDay day).leap := rfl
  have whole := m.day_add_timeOfDay
  rw [rank_lt_iff_of_leap_eq same]
  simp only [onDay, nanosPerDay] at *
  omega

theorem shift_of_ordinary {m : Moment} (ordinary : m.leap = false) (nanos : Int) :
    m.shift nanos = ⟨m.nanos + nanos, false⟩ := by
  simp [shift, ordinary]

theorem shift_zero (m : Moment) : m.shift 0 = m := by
  obtain ⟨a, p⟩ := m
  cases p
  · simp [shift]
  · simp only [shift, nanosOfSecond, nanosPerSecond, Int.add_zero]
    rw [if_neg (by omega)]
    simp only [mk.injEq, true_and, Bool.true_and, decide_eq_true_eq]
    omega

theorem rank_lt_shift (m : Moment) {nanos : Int} (positive : 0 < nanos) : m.rank < (m.shift nanos).rank := by
  obtain ⟨a, p⟩ := m
  cases p
  · simp only [shift, rank, leapNanos, seconds, nanosPerSecond, Bool.false_eq_true, false_and, if_false,
      Bool.false_and]
    omega
  · have stays : ¬ (a % 1000000000 + nanos < 0) := by omega
    by_cases within : a % 1000000000 + nanos < 1000000000
    · simp only [shift, rank, leapNanos, seconds, nanosOfSecond, nanosPerSecond, stays, within, and_false, if_false,
        if_true, Bool.true_and, decide_true]
      omega
    · simp only [shift, rank, leapNanos, seconds, nanosOfSecond, nanosPerSecond, stays, within, and_false, if_false,
        if_true, Bool.true_and, decide_false, Bool.false_eq_true]
      omega

theorem since_of_ordinary {later earlier : Moment} (h : later.leap = false) (k : earlier.leap = false) :
    later.since earlier = later.nanos - earlier.nanos := by
  simp [since, stamp, leapNanos, h, k]

theorem since_bounds (later earlier : Moment) :
    later.nanos - earlier.nanos - 2 * nanosPerSecond ≤ later.since earlier ∧
      later.since earlier ≤ later.nanos - earlier.nanos + 2 * nanosPerSecond := by
  have a := later.leapNanos_bounds
  have b := earlier.leapNanos_bounds
  simp only [since, stamp]
  constructor <;> split <;> split <;> omega

end Moment

end Cadence
