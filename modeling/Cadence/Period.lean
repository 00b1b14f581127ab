import Cadence.Duration
import Cadence.TimeUnit

/-!
Periods. A `Period` is a factor and a unit as they were written down; an `Amount` is what it comes to: a fixed length of
time, or a number of calendar units whose length depends on where they are applied.
-/

namespace Cadence

structure Period where
  factor : Nat
  unit : TimeUnit
deriving DecidableEq

structure CalendarStep where
  factor : Nat
  unit : CalendarUnit
  factor_pos : 0 < factor
deriving DecidableEq

inductive Amount
  | duration (length : Duration)
  | calendar (step : CalendarStep)
deriving DecidableEq

def Period.text (p : Period) : String :=
  String.ofList (Text.Decimal.digits p.factor ++ ' ' :: p.unit.name.toList)

namespace Amount

/-- A fixed length in whole milliseconds, a calendar amount as its period. -/
def text : Amount → String
  | duration d => String.ofList (Text.Decimal.signed d.wholeMillis ++ ['m', 's'])
  | calendar step => Period.text ⟨step.factor, .calendar step.unit⟩

def isCalendar : Amount → Bool
  | duration _ => false
  | calendar _ => true

/-- The length with calendar units at their mean length, where a duration can hold it. -/
def nominal? : Amount → Option Duration
  | duration d => some d
  | calendar step =>
    let seconds := step.unit.meanSeconds * step.factor
    if seconds ≤ 9223372036854775 then Duration.ofNanos? (seconds * 1000000000) else none

end Amount

end Cadence
