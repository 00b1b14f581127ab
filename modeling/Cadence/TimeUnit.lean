import Cadence.Text.Blank

/-!
Units of time. A clock unit is a fixed number of milliseconds; the length of a calendar unit depends on the calendar
and on the zone. Eras and "forever" are names without a length. A unit is read by its name in any case, with blanks
around it (`TimeUnit.ofText?_name`).
-/

namespace Cadence

inductive ClockUnit
  | millis | seconds | minutes | hours | halfDays
deriving DecidableEq

inductive CalendarUnit
  | days | weeks | months | years | decades | centuries | millennia
deriving DecidableEq

inductive TimeUnit
  | clock (unit : ClockUnit)
  | calendar (unit : CalendarUnit)
  | eras
  | forever
deriving DecidableEq

namespace ClockUnit

def millisecondCount : ClockUnit → Int
  | millis => 1
  | seconds => 1000
  | minutes => 60000
  | hours => 3600000
  | halfDays => 43200000

theorem millisecondCount_pos (u : ClockUnit) : 0 < u.millisecondCount := by
  cases u <;> decide

def name : ClockUnit → String
  | millis => "MILLIS"
  | seconds => "SECONDS"
  | minutes => "MINUTES"
  | hours => "HOURS"
  | halfDays => "HALF_DAYS"

end ClockUnit

namespace CalendarUnit

/-- Mean length in the Gregorian calendar. -/
def meanSeconds : CalendarUnit → Int
  | days => 86400
  | weeks => 604800
  | months => 2629746
  | years => 31556952
  | decades => 315569520
  | centuries => 3155695200
  | millennia => 31556952000

def name : CalendarUnit → String
  | days => "DAYS"
  | weeks => "WEEKS"
  | months => "MONTHS"
  | years => "YEARS"
  | decades => "DECADES"
  | centuries => "CENTURIES"
  | millennia => "MILLENNIA"

end CalendarUnit

namespace TimeUnit

def name : TimeUnit → String
  | clock u => u.name
  | calendar u => u.name
  | eras => "ERAS"
  | forever => "FOREVER"

def all : List TimeUnit :=
  [clock .millis, clock .seconds, clock .minutes, clock .hours, clock .halfDays, calendar .days, calendar .weeks,
    calendar .months, calendar .years, calendar .decades, calendar .centuries, calendar .millennia, eras, forever]

theorem mem_all (u : TimeUnit) : u ∈ all := by
  cases u with
  | clock u => cases u <;> simp [all]
  | calendar u => cases u <;> simp [all]
  | eras => simp [all]
  | forever => simp [all]

def isClock : TimeUnit → Bool
  | clock _ => true
  | _ => false

def isCalendar : TimeUnit → Bool
  | calendar _ => true
  | _ => false

def isSupported (u : TimeUnit) : Bool := u.isClock || u.isCalendar

def millisecondCount? : TimeUnit → Option Int
  | clock u => some u.millisecondCount
  | _ => none

def ofName? (text : String) : Option TimeUnit := all.find? (fun u => u.name == text)

theorem ofName?_name (u : TimeUnit) : ofName? u.name = some u := by
  cases u with
  | clock u => cases u <;> decide
  | calendar u => cases u <;> decide
  | eras => decide
  | forever => decide

def ofText? (text : String) : Option TimeUnit :=
  ofName? (String.ofList (Text.upper (Text.trim text.toList)))

theorem ofText?_name (u : TimeUnit) : ofText? u.name = some u := by
  cases u with
  | clock u => cases u <;> decide +kernel
  | calendar u => cases u <;> decide +kernel
  | eras => decide +kernel
  | forever => decide +kernel

/-- How many of the unit make up the next coarser unit that intervals are counted from; 1 for units whose intervals
are not counted. -/
def alignmentBase : TimeUnit → Nat
  | calendar .months => 12
  | clock .hours => 24
  | clock .minutes => 60
  | clock .seconds => 60
  | _ => 1

def isAligned (factor : Nat) (u : TimeUnit) : Bool := 1 < factor && u.alignmentBase % factor == 0

theorem isAligned_le_base {factor : Nat} {u : TimeUnit} (h : isAligned factor u = true) : factor ≤ u.alignmentBase := by
  simp only [isAligned, Bool.and_eq_true, decide_eq_true_eq, beq_iff_eq] at h
  have positive : 0 < u.alignmentBase := by
    cases u with
    | clock u => cases u <;> decide
    | calendar u => cases u <;> decide
    | eras => decide
    | forever => decide
  exact Nat.le_of_dvd positive (Nat.dvd_of_mod_eq_zero h.2)

end TimeUnit

end Cadence
