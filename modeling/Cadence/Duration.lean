import Cadence.Text.Decimal

/-!
Signed lengths of time in nanoseconds. The longest is 2^63 - 1 milliseconds in either direction. Two views leave the
exact length: `wholeMillis` cuts toward zero, and `wordNanos?` is the number of nanoseconds where a signed 64-bit word
can hold it.
-/

namespace Cadence

abbrev FitsWord (n : Int) : Prop := -9223372036854775808 ≤ n ∧ n ≤ 9223372036854775807

structure Duration where
  nanos : Int
  inRange : -9223372036854775807000000 ≤ nanos ∧ nanos ≤ 9223372036854775807000000
deriving DecidableEq

namespace Duration

def ofNanos? (n : Int) : Option Duration :=
  if h : -9223372036854775807000000 ≤ n ∧ n ≤ 9223372036854775807000000 then some ⟨n, h⟩ else none

theorem ofNanos?_eq_some {n : Int} {d : Duration} : ofNanos? n = some d ↔ d.nanos = n := by
  simp only [ofNanos?]
  constructor
  · intro h
    split at h
    · exact (Option.some.inj h) ▸ rfl
    · exact absurd h (by simp)
  · rintro rfl
    rw [dif_pos d.inRange]

def ofMillis? (n : Int) : Option Duration := ofNanos? (n * 1000000)

def zero : Duration := ⟨0, by decide⟩

/-- Whole milliseconds, cut toward zero. -/
def wholeMillis (d : Duration) : Int := d.nanos.tdiv 1000000

/-- The nanoseconds, where a signed 64-bit word holds them. -/
def wordNanos? (d : Duration) : Option Int := if FitsWord d.nanos then some d.nanos else none

def neg (d : Duration) : Duration := ⟨-d.nanos, by have := d.inRange; omega⟩

def atLeastZero (d : Duration) : Duration := if d.nanos < 0 then zero else d

instance : LT Duration := ⟨fun a b => a.nanos < b.nanos⟩
instance : LE Duration := ⟨fun a b => a.nanos ≤ b.nanos⟩
instance (a b : Duration) : Decidable (a < b) := inferInstanceAs (Decidable (a.nanos < b.nanos))
instance (a b : Duration) : Decidable (a ≤ b) := inferInstanceAs (Decidable (a.nanos ≤ b.nanos))

open Text.Decimal in
/-- The fewest digits after the point that lose nothing, with the point; nothing for a whole number. -/
def fractionText (nanos : Nat) : List Char :=
  if nanos = 0 then []
  else '.' :: ((padded 9 nanos).reverse.dropWhile (· == '0')).reverse

/-- As a period of seconds: `PT1.5S`, `-PT90S`, and `P0D` for no time. -/
def text (d : Duration) : List Char :=
  let size := d.nanos.natAbs
  let body := if size = 0 then ['0', 'D']
    else 'T' :: (Text.Decimal.digits (size / 1000000000) ++ fractionText (size % 1000000000) ++ ['S'])
  (if d.nanos < 0 then ['-'] else []) ++ 'P' :: body

end Duration

end Cadence
