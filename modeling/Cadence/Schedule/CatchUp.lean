import Cadence.Schedule.Shift

/-!
The first occurrence after a moment. From a base that is not after `now`, a duration skips all the periods that fit
between the two in one multiplication, and then both kinds of amounts go one period at a time until they are past
`now`. Every step must lead forward, which bounds the walk by the time that is left; what the walk returns is after
`now` (`stepPast_after`).
-/

namespace Cadence

namespace Duration

/-- How many whole periods an elapsed time holds. Nanoseconds count where both lengths fit a word, else milliseconds. -/
def wholePeriods (elapsed period : Duration) : Int :=
  let inMillis := if 0 < period.wholeMillis then elapsed.wholeMillis.tdiv period.wholeMillis else 0
  match elapsed.wordNanos?, period.wordNanos? with
  | some e, some p => if 0 < p then e.tdiv p else inMillis
  | _, _ => inMillis

/-- A multiple, computed in nanoseconds where the length and the product fit a word, else in milliseconds. -/
def times? (d : Duration) (count : Int) : Option Duration :=
  let inMillis := if FitsWord (d.wholeMillis * count) then ofMillis? (d.wholeMillis * count) else none
  match d.wordNanos? with
  | some n => if FitsWord (n * count) then ofNanos? (n * count) else inMillis
  | none => inMillis

end Duration

namespace Amount

/-- The start of the walk: a duration leaves out the periods that have passed since `base`. -/
def jump (amount : Amount) (base now : Instant) : Except Error Instant :=
  match amount with
  | calendar _ => .ok base
  | duration d =>
    if d ≤ Duration.zero then .error (.overflow (.nonPositive amount))
    else
      let missed := (now.since base).wholePeriods d
      if missed ≤ 0 then .ok base
      else match d.times? missed with
        | none => .error (.overflow (.multiple amount missed))
        | some skipped =>
          match base.add? skipped with
          | none => .error (.overflow (.jump base skipped))
          | some i => .ok i

def stepPast [Host] (zone : Zone) (amount : Amount) (now current : Instant) : Except Error Instant :=
  if _past : now < current then .ok current
  else match amount.after zone current with
    | .error e => .error e
    | .ok next =>
      if _forward : next ≤ current then .error (.overflow (.stuck amount current)) else stepPast zone amount now next
termination_by (now.rank + 1 - current.rank).toNat
decreasing_by
  change ¬ now.rank < current.rank at _past
  change ¬ next.rank ≤ current.rank at _forward
  omega

theorem stepPast_after [Host] {zone : Zone} {amount : Amount} {now current i : Instant}
    (h : stepPast zone amount now current = .ok i) : now < i := by
  induction current using stepPast.induct zone amount now with
  | case1 current past =>
      rw [stepPast, dif_pos past] at h
      cases h
      exact past
  | case2 current _ e failed =>
      rw [stepPast, dif_neg (by assumption), failed] at h
      cases h
  | case3 current _ next found stuck =>
      rw [stepPast, dif_neg (by assumption), found] at h
      simp [stuck] at h
  | case4 current _ next found forward ih =>
      rw [stepPast, dif_neg (by assumption), found] at h
      simp only [forward, dite_false] at h
      exact ih h

/-- `base` itself where it is after `now`, else the first later occurrence that is. -/
def advancePast [Host] (zone : Zone) (amount : Amount) (base now : Instant) : Except Error Instant :=
  if now < base then .ok base
  else do
    let start ← amount.jump base now
    amount.stepPast zone now start

theorem advancePast_after [Host] {zone : Zone} {amount : Amount} {base now i : Instant}
    (h : advancePast zone amount base now = .ok i) : now < i := by
  simp only [advancePast] at h
  split at h
  · cases h
    assumption
  · cases found : amount.jump base now with
    | error e => simp [found, bind, Except.bind] at h
    | ok start =>
        simp only [found, bind, Except.bind] at h
        exact stepPast_after h

end Amount

end Cadence
