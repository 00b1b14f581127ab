import Cadence.Error
import Cadence.Zone.Known

/-!
Zones and the two conversions between absolute instants and local time. Every zone has a table of offsets, which is the
host's for `system` and the same offset at all times for UTC and for fixed offsets.

Back from local time, a time that happens twice is the earlier of its two instants, and a time that was skipped is
read with the offset that held a day before, so that it moves forward by the length of the gap. A result outside the
calendar is an error; a local time outside the calendar ends the computation (`Error.offCalendar`).
-/

namespace Cadence

open Calendar

/-- Seconds east of UTC, less than a day in either direction. -/
structure Offset where
  seconds : Int
  inRange : -86400 < seconds ∧ seconds < 86400
deriving DecidableEq

def Offset.ofSeconds? (n : Int) : Option Offset :=
  if h : -86400 < n ∧ n < 86400 then some ⟨n, h⟩ else none

theorem Offset.ofSeconds?_eq_some {n : Int} {o : Offset} : ofSeconds? n = some o ↔ o.seconds = n := by
  simp only [ofSeconds?]
  constructor
  · intro h
    split at h
    · exact (Option.some.inj h) ▸ rfl
    · exact absurd h (by simp)
  · rintro rfl
    rw [dif_pos o.inRange]

inductive Zone
  | system
  | utc
  | fixed (offset : Offset)
  | region (place : Region)
deriving DecidableEq

namespace Zone

def ofSeconds (n : Int) : Except Error Zone :=
  match Offset.ofSeconds? n with
  | some o => .ok (fixed o)
  | none => .error (.invalidZone (.offset n))

section Host

variable [Host]

def table : Zone → OffsetTable
  | system => Host.table
  | utc => .constant 0
  | fixed o => .constant o.seconds
  | region place => place.table

def offsetAt (z : Zone) (second : Int) : Int := z.table.offsetAt second

/-- Seconds east of UTC at a second of local time, if the local clock shows that second. -/
def localOffset? (z : Zone) (second : Int) : Option Int := z.table.localOffset? second

def toCivil (z : Zone) (i : Instant) : Except Error CivilTime :=
  match CivilTime.ofMoment? (i.ahead (z.offsetAt i.seconds)) with
  | some c => .ok c
  | none => .error .offCalendar

theorem toCivil_moment {z : Zone} {i : Instant} {c : CivilTime} (h : z.toCivil i = .ok c) :
    c.toMoment = i.ahead (z.offsetAt i.seconds) := by
  simp only [toCivil] at h
  split at h
  · rename_i found
    cases h
    exact CivilTime.ofMoment?_eq_some.mp found
  · cases h

theorem toCivil_utc (i : Instant) : utc.toCivil i = .ok ⟨i.toMoment, i.inRange⟩ := by
  have found : CivilTime.ofMoment? i.toMoment = some ⟨i.toMoment, i.inRange⟩ := CivilTime.ofMoment?_eq_some.mpr rfl
  simp [toCivil, offsetAt, table, OffsetTable.constant, OffsetTable.offsetAt, OffsetTable.offsetFrom, Moment.ahead,
    found]

/-- The earliest instant at which the local clock shows a time, with the offset that holds then. -/
def showing? (z : Zone) (c : CivilTime) : Option (Instant × Int) :=
  match z.localOffset? c.seconds with
  | none => none
  | some o => (Instant.ofMoment? (c.ahead (-o))).map fun i => (i, o)

def fromCivil (z : Zone) (c : CivilTime) : Except Error Instant :=
  match z.showing? c with
  | some (i, _) => .ok i
  | none =>
    match CivilTime.ofMoment? (c.shift (-nanosPerDay)) with
    | none => .error (.overflow (.civilRange c))
    | some dayBefore =>
      match z.showing? dayBefore with
      | none => .error (.overflow (.civilOffset c))
      | some (_, o) =>
        match Instant.ofMoment? (c.shift (-(o * nanosPerSecond))) with
        | none => .error (.overflow (.civilRange c))
        | some i => .ok i

theorem fromCivil_utc (c : CivilTime) : utc.fromCivil c = .ok ⟨c.toMoment, c.inRange⟩ := by
  have found : Instant.ofMoment? c.toMoment = some ⟨c.toMoment, c.inRange⟩ := Instant.ofMoment?_eq_some.mpr rfl
  simp [fromCivil, showing?, localOffset?, table, OffsetTable.constant, OffsetTable.localOffset?, OffsetTable.coverFrom,
    Moment.ahead, found]

end Host

end Zone

end Cadence
