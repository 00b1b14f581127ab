import Cadence.Zone.OffsetTable

/-!
Transitions that recur every year on a certain Sunday, or on a day counted from it, at a fixed time of UTC.
`YearlyRule.expand` writes them out for a span of years.
-/

namespace Cadence

open Calendar

inductive SundayOfMonth
  | first | second | last
deriving DecidableEq

namespace SundayOfMonth

def onOrAfter (dayNumber : Int) : Int := dayNumber + (6 - Date.daysSinceMonday dayNumber)

def dayNumber (year month : Int) : SundayOfMonth → Int
  | first => onOrAfter (Date.dayNumber ⟨year, month, 1⟩)
  | second => onOrAfter (Date.dayNumber ⟨year, month, 1⟩) + 7
  | last => onOrAfter (Date.dayNumber ⟨year, month, monthLength year month⟩ - 6)

end SundayOfMonth

structure YearlyRule where
  month : Int
  sunday : SundayOfMonth
  daysAfter : Int
  secondOfDay : Int
  offset : Int

namespace YearlyRule

def transition (rule : YearlyRule) (year : Int) : Transition :=
  ⟨(rule.sunday.dayNumber year rule.month + rule.daysAfter) * 86400 + rule.secondOfDay, rule.offset⟩

/-- The transitions of `count` years, in each year in the order of the rules. -/
def expand (rules : List YearlyRule) (first : Int) (count : Nat) : List Transition :=
  (List.range count).flatMap fun k => rules.map fun rule => rule.transition (first + k)

end YearlyRule

end Cadence
