import Cadence.Zone.Basic

/-!
Zones as text. `SYSTEM`, `UTC`, an offset `+02:00` (with seconds where there are some) or the name of a place. Reading
takes the first two, with the other words for them, in any case, an offset as `+02:00`, `+0200` or `+02`, with colons
anywhere, and the names that are in the tz database.
-/

namespace Cadence

open Text.Decimal

namespace Offset

def text (o : Offset) : String :=
  let size := o.seconds.natAbs
  let clock := padded 2 (size / 3600) ++ ':' :: padded 2 (size / 60 % 60)
  let rest := if size % 60 = 0 then [] else ':' :: padded 2 (size % 60)
  String.ofList ((if o.seconds < 0 then '-' else '+') :: (clock ++ rest))

def hoursMinutes? : List Char → Option (Nat × Nat)
  | [a, b] => some (value [a, b], 0)
  | [a, b, c, d] => some (value [a, b], value [c, d])
  | _ => none

def ofUnsigned? (sign : Int) (cs : List Char) : Option Offset :=
  let ds := cs.filter (· != ':')
  if ds.all isDigit then
    match hoursMinutes? ds with
    | some (hours, minutes) => if minutes < 60 then ofSeconds? (sign * (3600 * hours + 60 * minutes)) else none
    | none => none
  else none

def ofText? : List Char → Option Offset
  | '+' :: rest => ofUnsigned? 1 rest
  | '-' :: rest => ofUnsigned? (-1) rest
  | _ => none

end Offset

namespace Zone

def text : Zone → String
  | system => "SYSTEM"
  | utc => "UTC"
  | fixed o => o.text
  | region place => place.name

def ofKeyword? (word : List Char) : Option Zone :=
  if word = ['S', 'Y', 'S', 'T', 'E', 'M'] ∨ word = ['L', 'O', 'C', 'A', 'L'] then some system
  else if word = ['U', 'T', 'C'] ∨ word = ['Z'] ∨ word = ['G', 'M', 'T'] then some utc
  else none

section TzDatabase

variable [TzDatabase]

def ofTrimmed? (cs : List Char) : Option Zone :=
  ofKeyword? (Text.upper cs) <|> (Offset.ofText? cs).map fixed <|>
    (TzDatabase.place? (String.ofList cs)).map region

def ofText (written : String) : Except Error Zone :=
  match ofTrimmed? (Text.trim written.toList) with
  | some z => .ok z
  | none => .error (.invalidZone (.text written))

end TzDatabase

end Zone

end Cadence
