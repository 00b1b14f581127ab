import Cadence.Period
import Cadence.Text.Timestamp

/-!
What can go wrong, by cause. `Error.message` is the one place where the wording is.
-/

namespace Cadence

inductive Overflow
  | asDuration (period : Period)
  | shift (base : Instant) (forward : Bool) (amount : Amount)
  | nonPositive (amount : Amount)
  | multiple (amount : Amount) (count : Int)
  | jump (base : Instant) (length : Duration)
  | stuck (amount : Amount) (current : Instant)
  | align (base : Instant) (period : Period)
  | truncateInstant (base : Instant) (unit : TimeUnit)
  | truncateCivil (civil : CivilTime) (unit : CalendarUnit)
  | civilRange (civil : CivilTime)
  | civilOffset (civil : CivilTime)
deriving DecidableEq

inductive ZoneFault
  | text (written : String)
  | offset (seconds : Int)
deriving DecidableEq

inductive FileFault
  | notFound
  | isDirectory
  | notDirectory
  | alreadyThere
  | notText
deriving DecidableEq

inductive ConfigFault
  | unknownUnit (written : String)
  | endNotAfterStart (finish start : Instant)
  | unreadableText
  | unwritable
  | unreadableFile (path : String) (fault : FileFault)
  | inFile (path : String) (fault : ConfigFault)
deriving DecidableEq

inductive Error
  | invalidFactor (factor : Nat)
  | unsupportedUnit (unit : TimeUnit)
  | invalidZone (fault : ZoneFault)
  | overflow (cause : Overflow)
  | aborted (reason : String)
  | fieldReserved (field : String)
  | invalidLease (field : String)
  | typeMismatch (field expected : String)
  | deleted
  | useAfterDestroy
  | unsupported (operation : String)
  | config (fault : ConfigFault)
  | file (fault : FileFault)
  /-- A local clock would have to show a time outside the calendar. Unlike the other errors it is not reported to the
  caller: it ends the computation that met it. -/
  | offCalendar
deriving DecidableEq

private def instantText (i : Instant) : String := String.ofList (Text.Timestamp.instantProse i)
private def civilText (c : CivilTime) : String := String.ofList (Text.Timestamp.civilProse c)
private def intText (n : Int) : String := String.ofList (Text.Decimal.signed n)

namespace Overflow

def message : Overflow → String
  | asDuration p => p.text ++ " as duration"
  | shift i forward a => instantText i ++ (if forward then " + " else " - ") ++ a.text
  | nonPositive a => "non-positive period " ++ a.text
  | multiple a count => a.text ++ " x " ++ intText count
  | jump i d => instantText i ++ " + " ++ String.ofList d.text
  | stuck a i => "period " ++ a.text ++ " does not advance past " ++ instantText i
  | align i p => "aligning " ++ instantText i ++ " to " ++ p.text
  | truncateInstant i u =>
    "truncating " ++ instantText i ++ " to " ++ u.name ++ ": timestamp exceeds num_nanoseconds limit"
  | truncateCivil c u => "truncating " ++ civilText c ++ " to " ++ u.name
  | civilRange c => "civil time " ++ civilText c ++ " out of range"
  | civilOffset c => "no offset for civil time " ++ civilText c

end Overflow

namespace ZoneFault

def message : ZoneFault → String
  | text written => written
  | offset seconds => "offset " ++ intText seconds ++ "s out of range"

end ZoneFault

namespace FileFault

def message : FileFault → String
  | notFound => "No such file or directory (os error 2)"
  | alreadyThere => "File exists (os error 17)"
  | notDirectory => "Not a directory (os error 20)"
  | isDirectory => "Is a directory (os error 21)"
  | notText => "stream did not contain valid UTF-8"

end FileFault

namespace ConfigFault

def message : ConfigFault → String
  | unknownUnit written => "unknown temporal unit '" ++ written ++ "'"
  | endNotAfterStart finish start =>
    "end_time " ++ instantText finish ++ " must be after start_time " ++ instantText start
  | unreadableText => "Failed to parse timer config: ..."
  | unwritable => "Failed to serialize timer config: ..."
  | unreadableFile path fault => "Failed to read config file '" ++ path ++ "': " ++ fault.message
  | inFile path fault => fault.message ++ " (" ++ path ++ ")"

end ConfigFault

namespace Error

def message : Error → String
  | invalidFactor n => "Invalid period factor: " ++ intText n ++ " (must be > 0)"
  | unsupportedUnit u => "Unsupported temporal unit: " ++ u.name
  | invalidZone fault => "Invalid timezone: " ++ fault.message
  | overflow cause => "Temporal overflow: " ++ cause.message
  | aborted reason => "Snapshot aborted: " ++ reason
  | fieldReserved field => "Field " ++ field ++ " is reserved for exclusive access"
  | invalidLease field => "Invalid lease for field " ++ field
  | typeMismatch field expected => "Type mismatch for field " ++ field ++ ": expected " ++ expected
  | deleted => "Configuration resource deleted"
  | useAfterDestroy => "Timer used after destroy"
  | unsupported operation => "Unsupported operation: " ++ operation
  | config fault => "Configuration error: " ++ fault.message
  | file fault => "I/O error: " ++ fault.message
  | offCalendar => "Local time out of range"

/-- Goes away by itself: the next trigger tries again. -/
def isTransient : Error → Bool
  | aborted _ => true
  | _ => false

/-- Stays until the configuration is corrected. -/
def isConfiguration : Error → Bool
  | invalidFactor _ => true
  | unsupportedUnit _ => true
  | invalidZone _ => true
  | config _ => true
  | _ => false

theorem not_isConfiguration_of_isTransient {e : Error} (h : e.isTransient = true) : e.isConfiguration = false := by
  cases e <;> simp_all [isTransient, isConfiguration]

end Error

namespace Period

/-- What a period comes to. A factor of zero is refused before the unit is looked at. -/
def amount (p : Period) : Except Error Amount :=
  if factor_zero : p.factor = 0 then .error (.invalidFactor p.factor)
  else match p.unit with
    | .clock u =>
      match Duration.ofMillis? (p.factor * u.millisecondCount) with
      | some d => .ok (.duration d)
      | none => .error (.overflow (.asDuration p))
    | .calendar u => .ok (.calendar ⟨p.factor, u, Nat.pos_of_ne_zero factor_zero⟩)
    | .eras => .error (.unsupportedUnit .eras)
    | .forever => .error (.unsupportedUnit .forever)

variable {p : Period} {d : Duration} {step : CalendarStep}

theorem amount_eq_duration (h : p.amount = .ok (.duration d)) :
    0 < p.factor ∧ ∃ u, p.unit = .clock u ∧ d.nanos = p.factor * u.millisecondCount * 1000000 := by
  simp only [amount] at h
  split at h
  · cases h
  · rename_i some_units
    split at h
    · rename_i u unit
      split at h
      · rename_i found
        cases h
        exact ⟨Nat.pos_of_ne_zero some_units, u, unit, Duration.ofNanos?_eq_some.mp found⟩
      · cases h
    · cases h
    · cases h
    · cases h

theorem amount_eq_calendar (h : p.amount = .ok (.calendar step)) :
    p.factor = step.factor ∧ p.unit = .calendar step.unit := by
  simp only [amount] at h
  split at h
  · cases h
  · split at h
    · split at h <;> cases h
    · rename_i unit
      cases h
      exact ⟨rfl, unit⟩
    · cases h
    · cases h

theorem amount_duration_pos (h : p.amount = .ok (.duration d)) : 0 < d.nanos := by
  obtain ⟨some_units, u, -, length⟩ := amount_eq_duration h
  rw [length]
  exact Int.mul_pos (Int.mul_pos (Int.natCast_pos.mpr some_units) u.millisecondCount_pos) (by decide)

end Period

theorem toOption_eq_some {ε α : Type} {result : Except ε α} {a : α} : result.toOption = some a ↔ result = .ok a := by
  cases result <;> simp [Except.toOption]

theorem bind_eq_ok_iff {ε α β : Type} {first : Except ε α} {next : α → Except ε β} {b : β} :
    first >>= next = .ok b ↔ ∃ a, first = .ok a ∧ next a = .ok b := by
  cases first <;> simp [bind, Except.bind]

theorem bind_eq_error_iff {ε α β : Type} {first : Except ε α} {next : α → Except ε β} {e : ε} :
    first >>= next = .error e ↔ first = .error e ∨ ∃ a, first = .ok a ∧ next a = .error e := by
  cases first <;> simp [bind, Except.bind]

theorem exists_error_iff {ε α : Type} {result : Except ε α} : (∃ e, result = .error e) ↔ ¬ ∃ a, result = .ok a := by
  cases result <;> simp

end Cadence
