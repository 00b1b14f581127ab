import Cadence.Duration
import Cadence.Moment

/-!
An `Instant` is a moment of absolute time, read in UTC, and a `CivilTime` one that a calendar and a clock on the wall
show. They share one range, and what leads out of it fails (`ofMoment?_eq_some`). Two instants always have a distance.
-/

namespace Cadence

open Calendar

structure Instant extends Moment where
  inRange : InRange nanos
deriving DecidableEq

namespace Instant

def ofMoment? (m : Moment) : Option Instant := if h : InRange m.nanos then some ⟨m, h⟩ else none

theorem ofMoment?_eq_some {m : Moment} {i : Instant} : ofMoment? m = some i ↔ i.toMoment = m := by
  simp only [ofMoment?]
  constructor
  · intro h
    split at h
    · exact (Option.some.inj h) ▸ rfl
    · exact absurd h (by simp)
  · rintro rfl
    rw [dif_pos i.inRange]

theorem ofMoment?_eq_none {m : Moment} : ofMoment? m = none ↔ ¬ InRange m.nanos := by
  simp only [ofMoment?]
  split <;> simp_all

theorem ext {a b : Instant} (h : a.toMoment = b.toMoment) : a = b := by
  cases a; cases b; cases h; rfl

instance : LT Instant := ⟨fun a b => a.rank < b.rank⟩
instance : LE Instant := ⟨fun a b => a.rank ≤ b.rank⟩
instance (a b : Instant) : Decidable (a < b) := inferInstanceAs (Decidable (a.rank < b.rank))
instance (a b : Instant) : Decidable (a ≤ b) := inferInstanceAs (Decidable (a.rank ≤ b.rank))

@[simp] theorem le_refl (a : Instant) : a ≤ a := Int.le_refl a.rank

theorem le_trans {a b c : Instant} (h : a ≤ b) (k : b ≤ c) : a ≤ c := Int.le_trans h k

theorem lt_of_le_of_lt {a b c : Instant} (h : a ≤ b) (k : b < c) : a < c := Int.lt_of_le_of_lt h k

theorem le_antisymm {a b : Instant} (h : a ≤ b) (k : b ≤ a) : a = b :=
  ext (Moment.rank_injective (Int.le_antisymm h k))

theorem not_lt {a b : Instant} : ¬ a < b ↔ b ≤ a := Int.not_lt

theorem lt_iff_of_ordinary {a b : Instant} (ha : a.leap = false) (hb : b.leap = false) : a < b ↔ a.nanos < b.nanos :=
  Moment.rank_lt_iff_of_leap_eq (ha.trans hb.symm)

def add? (i : Instant) (d : Duration) : Option Instant := ofMoment? (i.shift d.nanos)

theorem add?_eq_some {i j : Instant} {d : Duration} : i.add? d = some j ↔ j.toMoment = i.shift d.nanos :=
  ofMoment?_eq_some

theorem lt_of_add? {i j : Instant} {d : Duration} (positive : 0 < d.nanos) (h : i.add? d = some j) : i < j := by
  change i.rank < j.rank
  rw [add?_eq_some.mp h]
  exact i.rank_lt_shift positive

def since (i j : Instant) : Duration := ⟨i.toMoment.since j.toMoment, by
  have a := i.inRange
  have b := j.inRange
  have bounds := i.toMoment.since_bounds j.toMoment
  simp only [InRange, firstNanos, lastNanos, nanosPerSecond] at a b bounds
  omega⟩

theorem since_nanos {i j : Instant} (hi : i.leap = false) (hj : j.leap = false) :
    (i.since j).nanos = i.nanos - j.nanos :=
  Moment.since_of_ordinary hi hj

end Instant

structure CivilTime extends Moment where
  inRange : InRange nanos
deriving DecidableEq

namespace CivilTime

def ofMoment? (m : Moment) : Option CivilTime := if h : InRange m.nanos then some ⟨m, h⟩ else none

theorem ofMoment?_eq_some {m : Moment} {c : CivilTime} : ofMoment? m = some c ↔ c.toMoment = m := by
  simp only [ofMoment?]
  constructor
  · intro h
    split at h
    · exact (Option.some.inj h) ▸ rfl
    · exact absurd h (by simp)
  · rintro rfl
    rw [dif_pos c.inRange]

theorem ext {a b : CivilTime} (h : a.toMoment = b.toMoment) : a = b := by
  cases a; cases b; cases h; rfl

instance : LT CivilTime := ⟨fun a b => a.rank < b.rank⟩
instance : LE CivilTime := ⟨fun a b => a.rank ≤ b.rank⟩
instance (a b : CivilTime) : Decidable (a < b) := inferInstanceAs (Decidable (a.rank < b.rank))
instance (a b : CivilTime) : Decidable (a ≤ b) := inferInstanceAs (Decidable (a.rank ≤ b.rank))

theorem le_antisymm {a b : CivilTime} (h : a ≤ b) (k : b ≤ a) : a = b :=
  ext (Moment.rank_injective (Int.le_antisymm h k))

def midnight? (dayNumber : Int) : Option CivilTime := ofMoment? ⟨dayNumber * nanosPerDay, false⟩

def addDays? (c : CivilTime) (days : Int) : Option CivilTime := ofMoment? (c.onDay (c.dayNumber + days))

def addMonths? (c : CivilTime) (months : Int) : Option CivilTime :=
  ofMoment? (c.onDay (c.date.addMonths months).dayNumber)

end CivilTime

end Cadence
