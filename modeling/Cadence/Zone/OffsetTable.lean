import Cadence.Calendar.Range

/-!
The offsets of a place from UTC through time. A table gives the offset before the first transition and, for each
transition, the second of UTC from which a new offset holds. `offsetAt` looks up a second of UTC. `localOffset?` looks
up a second on the local clock: a stretch of one offset covers the local seconds from its begin to its end, each moved
by that offset, so a local second may lie in no stretch (the clock was set forward past it) or in two (it was set
back), and then the earlier stretch counts. Which places there are, and which table the host has, is up to whoever
runs a program (`TzDatabase`, `Host`).
-/

namespace Cadence

structure Transition where
  second : Int
  offset : Int
deriving DecidableEq

structure OffsetTable where
  initial : Int
  transitions : List Transition
deriving DecidableEq

namespace OffsetTable

def constant (offset : Int) : OffsetTable := ⟨offset, []⟩

def offsetFrom (current : Int) : List Transition → Int → Int
  | [], _ => current
  | t :: rest, second => if second < t.second then current else offsetFrom t.offset rest second

def offsetAt (table : OffsetTable) (second : Int) : Int := offsetFrom table.initial table.transitions second

/-- Searches the stretches from the one that began at `begin` with offset `current`. -/
def coverFrom (current : Int) (begin : Option Int) : List Transition → Int → Option Int
  | [], second => if begin.all (· ≤ second - current) then some current else none
  | t :: rest, second =>
    if begin.all (· ≤ second - current) && second - current < t.second then some current
    else coverFrom t.offset (some t.second) rest second

def localOffset? (table : OffsetTable) (second : Int) : Option Int :=
  coverFrom table.initial none table.transitions second

theorem offsetFrom_of_coverFrom {current : Int} {begin : Option Int} {ts : List Transition} {second offset : Int}
    (ordered : ts.Pairwise (fun a b => a.second < b.second))
    (after : ∀ b, begin = some b → ∀ t ∈ ts, b < t.second)
    (h : coverFrom current begin ts second = some offset) :
    offsetFrom current ts (second - offset) = offset ∧ begin.all (· ≤ second - offset) = true := by
  induction ts generalizing current begin with
  | nil =>
      simp only [coverFrom] at h
      split at h
      · rename_i reached
        cases h
        exact ⟨rfl, reached⟩
      · cases h
  | cons t rest ih =>
      simp only [coverFrom] at h
      split at h
      · rename_i inside
        cases h
        simp only [Bool.and_eq_true, decide_eq_true_eq] at inside
        exact ⟨by rw [offsetFrom, if_pos inside.2], inside.1⟩
      · have split := List.pairwise_cons.mp ordered
        -- The stretch is a later one, which begins at `t` or after it.
        have later := ih split.2 (by intro b begins u member; cases begins; exact split.1 u member) h
        have reached : t.second ≤ second - offset := by simpa using later.2
        constructor
        · rw [offsetFrom, if_neg (by omega)]
          exact later.1
        · cases begin with
          | none => rfl
          | some b =>
              have := after b rfl t (by simp)
              simp only [Option.all_some, decide_eq_true_eq]
              omega

end OffsetTable

structure Region where
  name : String
  table : OffsetTable
deriving DecidableEq

/-- The machine that a program runs on. It has a zone of its own. -/
class Host where
  table : OffsetTable

/-- Finds places by their names. -/
class TzDatabase where
  place? : String → Option Region

end Cadence
