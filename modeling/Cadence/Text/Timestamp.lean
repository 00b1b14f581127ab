import Cadence.Instant
import Cadence.Text.Blank

/-!
Moments as text. Written form: `2024-01-01T00:00:00.500Z` with a fraction of 3, 6 or 9 digits, the fewest that lose
nothing, and a sign before years that do not have four digits. Reading follows RFC 3339 and is more generous: numbers
may lack their leading zeros, blanks may stand around the parts, a year may have a sign and any number of digits, and
digits after the ninth of the fraction are dropped. Second 60 of a minute is a leap second. A moment in UTC needs its
offset, and a blank or a small `t` may stand for its `T`; a civil time has no offset and only the `T`.
-/

namespace Cadence.Text.Timestamp

open Decimal Calendar

def yearText (year : Int) : List Char :=
  if 0 ≤ year ∧ year ≤ 9999 then padded 4 year.toNat
  else (if year < 0 then '-' else '+') :: padded 4 year.natAbs

def dateText (d : Date) : List Char :=
  yearText d.year ++ '-' :: padded 2 d.month.toNat ++ '-' :: padded 2 d.day.toNat

def fractionText (nanos : Nat) : List Char :=
  if nanos = 0 then []
  else if nanos % 1000000 = 0 then '.' :: padded 3 (nanos / 1000000)
  else if nanos % 1000 = 0 then '.' :: padded 6 (nanos / 1000)
  else '.' :: padded 9 nanos

/-- A leap second is numbered like a second more. -/
def clockText (timeOfDay : Nat) (leap : Bool) : List Char :=
  let seconds := timeOfDay / 1000000000
  padded 2 (seconds / 3600) ++ ':' :: padded 2 (seconds / 60 % 60) ++
    ':' :: padded 2 (seconds % 60 + if leap then 1 else 0) ++ fractionText (timeOfDay % 1000000000)

def momentText (between : Char) (m : Moment) : List Char :=
  dateText m.date ++ between :: clockText m.timeOfDay.toNat m.leap

def instantText (i : Instant) : List Char := momentText 'T' i.toMoment ++ ['Z']

def civilText (c : CivilTime) : List Char := momentText 'T' c.toMoment

def instantProse (i : Instant) : List Char := momentText ' ' i.toMoment ++ [' ', 'U', 'T', 'C']

def civilProse (c : CivilTime) : List Char := momentText ' ' c.toMoment

def literal? (c : Char) : List Char → Option (List Char)
  | [] => none
  | d :: rest => if c = d then some rest else none

def year? (cs : List Char) : Option (Int × List Char) :=
  match trimStart cs with
  | '-' :: rest => (number? rest.length rest).map fun (n, rest) => (-(n : Int), rest)
  | '+' :: rest => (number? rest.length rest).map fun (n, rest) => ((n : Int), rest)
  | rest => (number? 4 rest).map fun (n, rest) => ((n : Int), rest)

def field? (least most : Nat) (cs : List Char) : Option (Nat × List Char) :=
  match number? 2 (trimStart cs) with
  | some (n, rest) => if least ≤ n ∧ n ≤ most then some (n, rest) else none
  | none => none

def date? (cs : List Char) : Option (Date × List Char) := do
  let (year, cs) ← year? cs
  let cs ← literal? '-' (trimStart cs)
  let (month, cs) ← field? 1 12 cs
  let cs ← literal? '-' (trimStart cs)
  let (day, cs) ← field? 1 31 cs
  if (day : Int) ≤ monthLength year month then some (⟨year, month, day⟩, cs) else none

/-- The nanoseconds of a fraction with its point; zero where there is none. -/
def fraction? : List Char → Option (Nat × List Char)
  | '.' :: rest =>
    match run 9 rest with
    | ([], _) => none
    | (ds, rest) => some (value ds * powerOfTen (9 - ds.length), rest.dropWhile isDigit)
  | rest => some (0, rest)

def clockOn? (date : Date) (cs : List Char) : Option (Moment × List Char) := do
  let (hour, cs) ← field? 0 23 cs
  let cs ← literal? ':' (trimStart cs)
  let (minute, cs) ← field? 0 59 cs
  let cs ← literal? ':' (trimStart cs)
  let (second, cs) ← field? 0 60 cs
  let (nanos, cs) ← fraction? cs
  let seconds : Int := date.dayNumber * 86400 + 3600 * hour + 60 * minute + min second 59
  some (⟨seconds * nanosPerSecond + nanos, second = 60⟩, cs)

def twoDigits? : List Char → Option (Nat × List Char)
  | a :: b :: rest => if isDigit a && isDigit b then some (value [a, b], rest) else none
  | _ => none

def signless? (cs : List Char) : Option (Nat × List Char) := do
  let (hours, cs) ← twoDigits? cs
  let (minutes, cs) ← twoDigits? (cs.dropWhile fun c => c == ':' || isBlank c)
  if hours ≤ 23 ∧ minutes ≤ 59 then some (3600 * hours + 60 * minutes, cs) else none

/-- Seconds east of UTC. The minus may also be U+2212. -/
def offset? (cs : List Char) : Option (Int × List Char) :=
  match upper (cs.take 3), cs with
  | ['U', 'T', 'C'], _ => some (0, cs.drop 3)
  | _, 'Z' :: rest => some (0, rest)
  | _, 'z' :: rest => some (0, rest)
  | _, '+' :: rest => (signless? rest).map fun (n, rest) => ((n : Int), rest)
  | _, '-' :: rest => (signless? rest).map fun (n, rest) => (-(n : Int), rest)
  | _, '\u2212' :: rest => (signless? rest).map fun (n, rest) => (-(n : Int), rest)
  | _, _ => none

def separator? : List Char → Option (List Char)
  | 'T' :: rest => some rest
  | 't' :: rest => some rest
  | ' ' :: rest => some rest
  | _ => none

def instant? (cs : List Char) : Option Instant := do
  let (date, cs) ← date? cs
  let (moment, cs) ← clockOn? date (← separator? cs)
  let civil ← CivilTime.ofMoment? moment
  let (offset, cs) ← offset? (trimStart cs)
  if (trimStart cs).isEmpty then Instant.ofMoment? (civil.ahead (-offset)) else none

def civil? (cs : List Char) : Option CivilTime := do
  let (date, cs) ← date? cs
  let (moment, cs) ← clockOn? date (← literal? 'T' (trimStart cs))
  if (trimStart cs).isEmpty then CivilTime.ofMoment? moment else none

end Cadence.Text.Timestamp
