import Cadence.Calendar.Date
import Cadence.Duration
import Cadence.Toml.Quoted

/-!
TOML values without parts. Integers are words of 64 bits, in decimal or, without a sign, in hexadecimal, octal or
binary digits. Of floats and date-times only the form is checked. A value that begins like a number is first tried as a
date or a time, then as a float, then as an integer.
-/

namespace Cadence.Toml

open Text.Decimal

inductive Scalar
  | string (text : List Char)
  | integer (value : Int)
  | float
  | boolean (value : Bool)
  | dateTime
deriving DecidableEq

/-- Digits after a first one, with single underscores between them. An underscore must stand between digits. -/
def moreDigits? (isDigit : Char → Bool) : List Char → Option (List Char × List Char)
  | [] => some ([], [])
  | '_' :: d :: rest => if isDigit d then (moreDigits? isDigit rest).map fun (ds, rest) => (d :: ds, rest) else none
  | '_' :: [] => none
  | d :: rest =>
    if isDigit d then (moreDigits? isDigit rest).map fun (ds, rest) => (d :: ds, rest) else some ([], d :: rest)

def someDigits? (isDigit : Char → Bool) : List Char → Option (List Char × List Char)
  | [] => none
  | d :: rest => if isDigit d then (moreDigits? isDigit rest).map fun (ds, rest) => (d :: ds, rest) else none

def wholeDigits? : List Char → Option (List Char × List Char)
  | '0' :: rest => some (['0'], rest)
  | cs => someDigits? isDigit cs

def sign : List Char → Int × List Char
  | '+' :: rest => (1, rest)
  | '-' :: rest => (-1, rest)
  | cs => (1, cs)

def word? (n : Int) : Option Scalar := if FitsWord n then some (.integer n) else none

def radix? (base : Nat) (cs : List Char) : Option (Scalar × List Char) := do
  let (ds, rest) ← someDigits? (fun c => (hexDigit? c).any (· < base)) cs
  let n := ds.foldl (fun n c => base * n + (hexDigit? c).getD 0) 0
  let value ← word? n
  some (value, rest)

def exponent? (cs : List Char) : Option (Int × List Char) := do
  let (sign, cs) := sign cs
  let (ds, rest) ← someDigits? isDigit cs
  some (sign * value ds, rest)

/-- Halfway from the greatest number of double precision to 2^1024. -/
def doubleLimit : Nat := (1 <<< 1024) - (1 <<< 970)

/-- Rounds to a number in the range of double precision. -/
def isFinite (mantissa : Nat) (exponent : Int) : Bool :=
  let size := (digits mantissa).length
  if mantissa = 0 ∨ size + exponent ≤ 308 then true
  else if 310 ≤ size + exponent then false
  else if 0 ≤ exponent then mantissa * powerOfTen exponent.toNat < doubleLimit
  else mantissa < doubleLimit * powerOfTen (-exponent).toNat

def floatTail? (negative : Bool) (whole : List Char) (cs : List Char) : Option (Scalar × List Char) := do
  let (fraction, cs) ← match cs with
    | '.' :: rest => someDigits? isDigit rest
    | _ => some ([], cs)
  let (exponent, rest) ← match cs with
    | 'e' :: rest => exponent? rest
    | 'E' :: rest => exponent? rest
    | _ => some (0, cs)
  if negative || isFinite (value (whole ++ fraction)) (exponent - fraction.length) then some (.float, rest) else none

def beginsFloatTail : List Char → Bool
  | c :: _ => c == '.' || c == 'e' || c == 'E'
  | [] => false

def number? (cs : List Char) : Option (Scalar × List Char) :=
  match cs with
  | '0' :: 'x' :: rest => radix? 16 rest
  | '0' :: 'o' :: rest => radix? 8 rest
  | '0' :: 'b' :: rest => radix? 2 rest
  | _ =>
    match sign cs with
    | (_, 'i' :: 'n' :: 'f' :: rest) => some (.float, rest)
    | (_, 'n' :: 'a' :: 'n' :: rest) => some (.float, rest)
    | (sign, cs) => do
      let (ds, rest) ← wholeDigits? cs
      if beginsFloatTail rest then floatTail? (sign < 0) ds rest
      else do
        let value ← word? (sign * value ds)
        some (value, rest)

def fixedField? (width least most : Nat) (cs : List Char) : Option (Nat × List Char) :=
  let (ds, rest) := run width cs
  if ds.length = width ∧ least ≤ value ds ∧ value ds ≤ most then some (value ds, rest) else none

def expect? (c : Char) : List Char → Option (List Char)
  | d :: rest => if d = c then some rest else none
  | [] => none

def date? (cs : List Char) : Option (List Char) := do
  let (year, cs) ← fixedField? 4 0 9999 cs
  let cs ← expect? '-' cs
  let (month, cs) ← fixedField? 2 1 12 cs
  let cs ← expect? '-' cs
  let (day, cs) ← fixedField? 2 1 31 cs
  if (day : Int) ≤ Calendar.monthLength year month then some cs else none

def fraction (cs : List Char) : List Char :=
  match cs with
  | '.' :: d :: rest => if isDigit d then rest.dropWhile isDigit else cs
  | _ => cs

def time? (cs : List Char) : Option (List Char) := do
  let (_, cs) ← fixedField? 2 0 23 cs
  let cs ← expect? ':' cs
  let (_, cs) ← fixedField? 2 0 59 cs
  let cs ← expect? ':' cs
  let (_, cs) ← fixedField? 2 0 60 cs
  some (fraction cs)

def hourMinute? (cs : List Char) : Option (List Char) := do
  let (_, cs) ← fixedField? 2 0 23 cs
  let cs ← expect? ':' cs
  let (_, cs) ← fixedField? 2 0 59 cs
  some cs

def offset (cs : List Char) : List Char :=
  match cs with
  | 'Z' :: rest => rest
  | 'z' :: rest => rest
  | '+' :: rest => (hourMinute? rest).getD cs
  | '-' :: rest => (hourMinute? rest).getD cs
  | _ => cs

def isDateSeparator (c : Char) : Bool := c == 'T' || c == 't' || c == ' '

/-- The text after a date, a time, or both with or without an offset. -/
def dateTime? (cs : List Char) : Option (List Char) :=
  match date? cs with
  | some afterDate =>
    match afterDate with
    | c :: rest => if isDateSeparator c then some (((time? rest).map offset).getD afterDate) else some afterDate
    | [] => some []
  | none => time? cs

def numeral? (cs : List Char) : Option (Scalar × List Char) :=
  match dateTime? cs with
  | some rest => some (.dateTime, rest)
  | none => number? cs

def scalar? (cs : List Char) : Option (Scalar × List Char) :=
  match cs with
  | 't' :: 'r' :: 'u' :: 'e' :: rest => some (.boolean true, rest)
  | 'f' :: 'a' :: 'l' :: 's' :: 'e' :: rest => some (.boolean false, rest)
  | 'i' :: _ => number? cs
  | 'n' :: _ => number? cs
  | c :: _ =>
    if c == '"' || c == '\'' then (string? cs).map fun (text, rest) => (.string text, rest)
    else if isDigit c || c == '+' || c == '-' then numeral? cs
    else none
  | [] => none

end Cadence.Toml
