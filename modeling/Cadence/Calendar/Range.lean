import Cadence.Calendar.Date

/-!
The span of time that this library can represent: from the first nanosecond of the year -262143 to the last
nanosecond of the year 262142. It bounds absolute instants and wall-clock readings alike.
-/

namespace Cadence.Calendar

def nanosPerMilli : Int := 1000000
def nanosPerSecond : Int := 1000000000
def nanosPerDay : Int := 86400000000000

def firstDay : Int := -96465292
def lastDay : Int := 95026236

theorem dayNumber_firstDay : Date.dayNumber ⟨-262143, 1, 1⟩ = firstDay := by decide
theorem dayNumber_lastDay : Date.dayNumber ⟨262142, 12, 31⟩ = lastDay := by decide

def firstNanos : Int := -8334601228800000000000

def lastNanos : Int := 8210266876799999999999

theorem firstNanos_eq : firstNanos = firstDay * nanosPerDay := by decide
theorem lastNanos_eq : lastNanos = (lastDay + 1) * nanosPerDay - 1 := by decide

abbrev InRange (nanos : Int) : Prop := firstNanos ≤ nanos ∧ nanos ≤ lastNanos

end Cadence.Calendar
