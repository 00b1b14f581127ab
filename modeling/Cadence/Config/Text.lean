import Cadence.Config.Configuration
import Cadence.Toml.Document
import Cadence.Zone.Text

/-!
Configurations as TOML text. Moments and the zone are strings; the period is a table with a factor and the name of a
unit, and may be read from an array of the two as well. What is absent is left out, and unknown keys are ignored. A
factor that is no word of 64 bits with a sign cannot be written.
-/

namespace Cadence

open Toml

namespace Configuration

/-- A table or an array without content, which may stand for the absent content of a unit. -/
def isEmptyNode : Node → Bool
  | .array items => items.isEmpty
  | .inline t => t.entries.isEmpty
  | .table t => t.entries.isEmpty
  | _ => false

def unitOfEntries? : List (Key × Node) → Option TimeUnit
  | [(k, n)] => if isEmptyNode n then TimeUnit.ofName? (String.ofList k) else none
  | _ => none

/-- A unit is its name, or a table with its name as the only key. -/
def unit? : Node → Option TimeUnit
  | .scalar (.string name) => TimeUnit.ofName? (String.ofList name)
  | .inline t => unitOfEntries? t.entries
  | .table t => unitOfEntries? t.entries
  | _ => none

def factor? : Node → Option Nat
  | .scalar (.integer n) => if 0 ≤ n then some n.toNat else none
  | _ => none

def periodOfParts? (factor unit : Node) : Option Period := do
  let factor ← factor? factor
  let unit ← unit? unit
  some ⟨factor, unit⟩

def periodOfTable? (t : Table) : Option Period := do
  let factor ← t.find? "factor".toList
  let unit ← t.find? "unit".toList
  periodOfParts? factor unit

def period? : Node → Option Period
  | .inline t => periodOfTable? t
  | .table t => periodOfTable? t
  | .array (factor :: unit :: _) => periodOfParts? factor unit
  | _ => none

def instant? : Node → Option Instant
  | .scalar (.string text) => Text.Timestamp.instant? text
  | _ => none

def zone? [TzDatabase] : Node → Option Zone
  | .scalar (.string text) => (Zone.ofText (String.ofList text)).toOption
  | _ => none

def boolean? : Node → Option Bool
  | .scalar (.boolean b) => some b
  | _ => none

/-- The value under a key: nothing where the key is absent, a failure where its value has another form. -/
def valueOf? {α : Type} (read? : Node → Option α) (key : String) (t : Table) : Option (Option α) :=
  match t.find? key.toList with
  | none => some none
  | some node => (read? node).map some

def ofTable? [TzDatabase] (t : Table) : Option Configuration := do
  let startTime ← valueOf? instant? Field.startTime.name t
  let endTime ← valueOf? instant? Field.endTime.name t
  let timezone ← valueOf? zone? Field.timezone.name t
  let nextExecution ← valueOf? instant? Field.nextExecution.name t
  let active ← valueOf? boolean? "active" t
  let period ← valueOf? period? Field.period.name t
  some ⟨⟨period, startTime, endTime, timezone, nextExecution⟩, active.getD true⟩

def ofText [TzDatabase] (text : String) : Except Error Configuration :=
  match (document? text.toList).bind ofTable? with
  | none => .error (.config .unreadableText)
  | some c => c.settings.validate.map fun _ => c

def entryText (key : String) (value : List Char) : List Char := key.toList ++ [' ', '=', ' '] ++ value ++ ['\n']

def optionalText {α : Type} (key : String) (write : α → List Char) : Option α → List Char
  | none => []
  | some a => entryText key (write a)

def instantText (i : Instant) : List Char := quote (Text.Timestamp.instantText i)

def periodText (p : Period) : List Char :=
  ['\n'] ++ "[period]\n".toList ++ entryText "factor" (Text.Decimal.digits p.factor) ++
    entryText "unit" (quote p.unit.name.toList)

def text (c : Configuration) : List Char :=
  optionalText Field.startTime.name instantText c.settings.startTime ++
    optionalText Field.endTime.name instantText c.settings.endTime ++
    optionalText Field.timezone.name (fun z : Zone => quote z.text.toList) c.settings.timezone ++
    optionalText Field.nextExecution.name instantText c.settings.nextExecution ++
    entryText "active" (if c.active then "true".toList else "false".toList) ++
    (c.settings.period.map periodText).getD []

def IsWritable (c : Configuration) : Prop := ∀ p, c.settings.period = some p → p.factor ≤ 9223372036854775807

instance (c : Configuration) : Decidable c.IsWritable :=
  match h : c.settings.period with
  | none => .isTrue fun p found => by simp [h] at found
  | some p =>
    if fits : p.factor ≤ 9223372036854775807 then .isTrue fun q found => by rw [h] at found; cases found; exact fits
    else .isFalse fun all => fits (all p h)

def toText (c : Configuration) : Except Error String :=
  if c.IsWritable then .ok (String.ofList c.text) else .error (.config .unwritable)

def template : String :=
  "# Periodic timer configuration\n" ++
  "#\n" ++
  "# Anchor of the schedule (RFC 3339). Defaults to the moment the timer is\n" ++
  "# created, aligned to the period.\n" ++
  "# start_time = \"2024-01-01T00:00:00Z\"\n" ++
  "\n" ++
  "# The timer destroys itself once this instant has passed.\n" ++
  "# end_time = \"2025-01-01T00:00:00Z\"\n" ++
  "\n" ++
  "# Zone used for calendar arithmetic: \"system\", \"UTC\", an offset like \"+02:00\"\n" ++
  "# or an IANA id like \"Europe/Berlin\".\n" ++
  "# timezone = \"UTC\"\n" ++
  "\n" ++
  "active = true\n" ++
  "\n" ++
  "# Period of the timer. Without it the timer stays idle.\n" ++
  "# unit is one of MILLIS, SECONDS, MINUTES, HOURS, HALF_DAYS, DAYS, WEEKS,\n" ++
  "# MONTHS, YEARS, DECADES, CENTURIES, MILLENNIA\n" ++
  "# [period]\n" ++
  "# factor = 15\n" ++
  "# unit = \"MINUTES\"\n"

end Configuration

end Cadence
