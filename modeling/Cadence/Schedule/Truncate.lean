import Cadence.Zone.Basic

/-!
The start of the unit of time that a moment lies in. Clock units, and days of 24 hours, divide absolute time from the
start of 1970 on, where a leap second counts like the second after it; a signed 64-bit word must hold that count.
Calendar units divide local time: weeks begin on Monday, decades, centuries and millennia in the years divisible by 10,
100 and 1000.
-/

namespace Cadence

open Calendar

def TimeUnit.width? : TimeUnit → Option Int
  | clock u => some (u.millisecondCount * nanosPerMilli)
  | calendar .days => some nanosPerDay
  | _ => none

def Instant.floor? (i : Instant) (width : Int) : Option Instant :=
  if FitsWord i.stamp then ofMoment? (i.shift (-(i.stamp % width))) else none

def Instant.truncate (i : Instant) (u : TimeUnit) : Except Error Instant :=
  match u.width? with
  | none => .error (.unsupportedUnit u)
  | some width =>
    match i.floor? width with
    | some start => .ok start
    | none => .error (.overflow (.truncateInstant i u))

def CalendarUnit.firstDay (d : Date) : CalendarUnit → Int
  | days => d.dayNumber
  | weeks => d.dayNumber - Date.daysSinceMonday d.dayNumber
  | months => Date.dayNumber ⟨d.year, d.month, 1⟩
  | years => Date.dayNumber ⟨d.year, 1, 1⟩
  | decades => Date.dayNumber ⟨d.year - d.year % 10, 1, 1⟩
  | centuries => Date.dayNumber ⟨d.year - d.year % 100, 1, 1⟩
  | millennia => Date.dayNumber ⟨d.year - d.year % 1000, 1, 1⟩

def CivilTime.truncate (c : CivilTime) : TimeUnit → Except Error CivilTime
  | .calendar u =>
    match midnight? (u.firstDay c.date) with
    | some start => .ok start
    | none => .error (.overflow (.truncateCivil c u))
  | u => .error (.unsupportedUnit u)

/-- On absolute time for clock units, on local time for all others. -/
def truncate [Host] (zone : Zone) (u : TimeUnit) (base : Instant) : Except Error Instant :=
  if u.isClock then base.truncate u
  else do
    let civil ← zone.toCivil base
    let start ← civil.truncate u
    zone.fromCivil start

end Cadence
