import Cadence.Proofs.Schedule.Grid

/-!
Walks to the first occurrence after a moment. A walk may rest at any earlier moment and go on from there: it arrives at
the same occurrence (`stepPast_of_stepPast`). To catch up is to walk, although a duration leaves out the periods that
were missed (`advancePast_eq_ok_iff`), and so it does not matter how often one has caught up before
(`advancePast_in_stages`). The count of missed periods takes a leap second at its end for the second after it, which
only a period that is shorter than a second can notice.
-/

namespace Cadence

open Calendar

namespace Moment

variable {m n : Moment} {a : Int}

theorem nanos_shift (m : Moment) (forward : 0 ≤ a) : (m.shift a).nanos = m.nanos + a := by
  obtain ⟨nanos, leap⟩ := m
  cases leap with
  | false => rw [shift_of_ordinary rfl]
  | true => rw [shift_of_leap nanos forward]

theorem rank_shift_le (le : m.rank ≤ n.rank) (forward : 0 ≤ a) (fits : a ≤ n.nanos - m.nanos) :
    (m.shift a).rank ≤ n.rank := by
  have length := n.leapNanos_bounds
  obtain ⟨x, p⟩ := m
  cases p with
  | false =>
    rw [shift_of_ordinary rfl]
    simp only [rank, leapNanos, seconds, nanosPerSecond, Bool.false_eq_true, if_false] at *
    omega
  | true =>
    rw [shift_of_leap x forward]
    by_cases within : x % nanosPerSecond + a < nanosPerSecond
    · rw [decide_eq_true within]
      cases marked : n.leap <;>
        simp only [rank, leapNanos, seconds, nanosPerSecond, marked, Bool.false_eq_true, if_false, if_true] at * <;>
        omega
    · rw [decide_eq_false within]
      simp only [rank, leapNanos, seconds, nanosPerSecond, Bool.false_eq_true, if_false, if_true] at *
      omega

theorem since_le (later earlier : Moment) : later.since earlier ≤ later.nanos - earlier.nanos + later.leapNanos := by
  have length := later.leapNanos_bounds
  have length' := earlier.leapNanos_bounds
  simp only [since, stamp]
  split <;> split <;> omega

end Moment

namespace Amount

variable {zone : Zone} {amount : Amount} {d : Duration} {base now later m i : Instant}

/-- The periods that have passed until now are counted exactly: no leap second is in the way, or the periods are long
enough to afford one. -/
def IsExactAt (now : Instant) : Amount → Prop
  | duration d => now.leap = false ∨ nanosPerSecond ≤ d.nanos
  | calendar _ => True

instance (now : Instant) (amount : Amount) : Decidable (amount.IsExactAt now) :=
  match amount with
  | duration _ => inferInstanceAs (Decidable (_ ∨ _))
  | calendar _ => inferInstanceAs (Decidable True)

theorem stepPast_of_past [Host] (past : now < base) : stepPast zone amount now base = .ok base := by
  rw [stepPast, dif_pos past]

theorem stepPast_of_after [Host] (reached : base ≤ now) (found : amount.after zone base = .ok i) (forward : base < i) :
    stepPast zone amount now base = stepPast zone amount now i := by
  rw [stepPast, dif_neg (Instant.not_lt.mpr reached), found]
  exact dif_neg (Int.not_le.mpr forward)

theorem stepPast_of_stepPast [Host] (le : now ≤ later) (rested : stepPast zone amount now base = .ok m) :
    stepPast zone amount later base = stepPast zone amount later m := by
  induction base using stepPast.induct zone amount now with
  | case1 base past =>
    rw [stepPast_of_past past] at rested
    cases rested
    rfl
  | case2 base reached e failed =>
    rw [stepPast, dif_neg reached, failed] at rested
    cases rested
  | case3 base reached next found stuck =>
    rw [stepPast, dif_neg reached, found] at rested
    simp [stuck] at rested
  | case4 base reached next found forward ih =>
    have ahead : base < next := Int.not_le.mp forward
    have reached_now : base ≤ now := Instant.not_lt.mp reached
    rw [stepPast_of_after reached_now found ahead] at rested
    rw [stepPast_of_after (Instant.le_trans reached_now le) found ahead]
    exact ih rested

theorem after_duration_eq_ok_iff [Host] : (duration d).after zone base = .ok i ↔ base.add? d = some i := by
  simp only [after, shift, if_true]
  cases base.add? d <;> simp

section Skipping

variable {count : Nat} (positive : 0 < d.nanos)
  (passed : ∀ k < count, (base.toMoment.shift (k * d.nanos)).rank ≤ now.rank)
include positive passed

theorem stepPast_skip [Host] (place : i.toMoment = base.toMoment.shift (count * d.nanos)) :
    stepPast zone (duration d) now base = stepPast zone (duration d) now i := by
  induction count generalizing base with
  | zero =>
    rw [Int.natCast_zero, Int.zero_mul, Moment.shift_zero] at place
    rw [Instant.ext place]
  | succ count ih =>
    have forward := Duration.count_mul_nonneg (Int.le_of_lt positive)
    have split : ∀ k : Nat, ((k + 1 : Nat) : Int) * d.nanos = d.nanos + k * d.nanos := by
      intro k
      rw [Int.natCast_add, Int.natCast_one, Int.add_mul, Int.one_mul, Int.add_comm]
    have reached : base ≤ now := by
      have here := passed 0 (Nat.succ_pos _)
      rwa [Int.natCast_zero, Int.zero_mul, Moment.shift_zero] at here
    have inRange : InRange (base.toMoment.shift d.nanos).nanos := by
      have low := base.inRange
      have high := i.inRange
      have rest := forward count
      rw [place, split, Moment.nanos_shift _ (by omega)] at high
      rw [Moment.nanos_shift _ (Int.le_of_lt positive)]
      omega
    let next : Instant := ⟨base.toMoment.shift d.nanos, inRange⟩
    have on : ∀ k : Nat, next.toMoment.shift (k * d.nanos) = base.toMoment.shift ((k + 1 : Nat) * d.nanos) := by
      intro k
      rw [split, ← Moment.shift_shift _ (Int.le_of_lt positive) (forward k)]
    have ahead : base < next := base.toMoment.rank_lt_shift positive
    have found : (duration d).after zone base = .ok next :=
      after_duration_eq_ok_iff.mpr (Instant.add?_eq_some.mpr rfl)
    -- The walk takes a step because the first occurrence has passed, and the others are left to skip.
    rw [stepPast_of_after reached found ahead]
    refine ih (fun k less => ?_) (place.trans (on count).symm)
    rw [on]
    exact passed (k + 1) (Nat.succ_lt_succ less)

theorem stepPast_ne_ok [Host] (out : ¬ InRange (base.toMoment.shift (count * d.nanos)).nanos) :
    stepPast zone (duration d) now base ≠ .ok i := by
  intro arrived
  obtain ⟨k, place⟩ := stepPast_onGrid positive arrived
  have past : now.rank < i.rank := stepPast_after arrived
  have forward := Duration.count_mul_nonneg (Int.le_of_lt positive)
  have far : count ≤ k := by
    apply Nat.not_lt.mp
    intro less
    have before := passed k less
    rw [← place] at before
    omega
  have further := Int.mul_le_mul_of_nonneg_right (Int.ofNat_le.mpr far) (Int.le_of_lt positive)
  have low := base.inRange
  have high := i.inRange
  rw [place, Moment.nanos_shift _ (forward k)] at high
  rw [Moment.nanos_shift _ (forward count)] at out
  have count_forward := forward count
  omega

end Skipping

/-- What the jump skips are whole periods, all of whose occurrences have passed. -/
def SkipsOnlyPassed (d : Duration) (base now : Instant) : Prop :=
  ∃ count : Nat, d.skipped (now.since base) = count * d.nanos ∧
    ∀ k < count, (base.toMoment.shift (k * d.nanos)).rank ≤ now.rank

theorem skipsOnlyPassed_of_isExactAt (positive : 0 < d.nanos) (reached : base ≤ now)
    (exact : (duration d).IsExactAt now) (counted : (now.since base).CountsExactly d) :
    SkipsOnlyPassed d base now := by
  obtain ⟨count, periods⟩ := Duration.exists_skipped_eq positive counted
  refine ⟨count, periods, fun k less => ?_⟩
  have forward := Duration.count_mul_nonneg (Int.le_of_lt positive) k
  have bound : d.skipped (now.since base) ≤ max 0 (now.since base).nanos := (Duration.skipped_bounds positive).2
  have distance : (now.since base).nanos ≤ now.nanos - base.nanos + now.leapNanos := Moment.since_le _ _
  have one_more := Int.mul_le_mul_of_nonneg_right (Int.ofNat_le.mpr (Nat.succ_le_of_lt less)) (Int.le_of_lt positive)
  rw [Nat.succ_eq_add_one, Int.natCast_add, Int.natCast_one, Int.add_mul, Int.one_mul, ← periods] at one_more
  have length := now.leapNanos_bounds
  have afforded : now.leapNanos ≤ d.nanos := by
    obtain ordinary | long := exact
    · simp only [Moment.leapNanos, ordinary, Bool.false_eq_true, if_false]
      omega
    · omega
  exact Moment.rank_shift_le reached forward (by omega)

theorem advancePast_duration_eq_ok_iff [Host] (positive : 0 < d.nanos) (sound : SkipsOnlyPassed d base now) :
    advancePast zone (duration d) base now = .ok i ↔ stepPast zone (duration d) now base = .ok i := by
  by_cases past : now < base
  · rw [advancePast, if_pos past, stepPast_of_past past]
  rw [advancePast, if_neg past]
  obtain ⟨count, periods, passed⟩ := sound
  cases jumped : (duration d).jump base now with
  | ok start =>
    have place := jump_eq_ok positive jumped
    rw [periods] at place
    rw [stepPast_skip positive passed place]
    exact Iff.rfl
  | error e =>
    have out := jump_duration positive base now
    rw [jumped, periods] at out
    constructor
    · intro arrived
      cases arrived
    · exact fun arrived => absurd arrived (stepPast_ne_ok positive passed (Instant.ofMoment?_eq_none.mp out.symm))

theorem advancePast_eq_ok_iff [Host] {p : Period} (usable : p.amount = .ok amount) (exact : amount.IsExactAt now) :
    advancePast zone amount base now = .ok i ↔ stepPast zone amount now base = .ok i := by
  by_cases past : now < base
  · rw [advancePast, if_pos past, stepPast_of_past past]
  cases amount with
  | calendar step =>
    rw [advancePast, if_neg past]
    exact Iff.rfl
  | duration d =>
    have positive := Period.amount_duration_pos usable
    have whole := Period.amount_duration_isWhole usable
    exact advancePast_duration_eq_ok_iff positive
      (skipsOnlyPassed_of_isExactAt positive (Instant.not_lt.mp past) exact (Or.inl whole))

theorem advancePast_foldlM [Host] {p : Period} (usable : p.amount = .ok amount) (exact : amount.IsExactAt later)
    {moments : List Instant} (before : ∀ now ∈ moments, now ≤ later ∧ amount.IsExactAt now)
    (rested : moments.foldlM (advancePast zone amount) base = .ok m) :
    advancePast zone amount m later = .ok i ↔ advancePast zone amount base later = .ok i := by
  induction moments generalizing base with
  | nil =>
    cases rested
    exact Iff.rfl
  | cons now moments ih =>
    obtain ⟨⟨le, exact_now⟩, others⟩ := List.forall_mem_cons.mp before
    rw [List.foldlM_cons] at rested
    cases first : advancePast zone amount base now with
    | error e =>
      rw [first] at rested
      cases rested
    | ok next =>
      rw [first] at rested
      have walked := (advancePast_eq_ok_iff usable exact_now).mp first
      rw [ih others rested, advancePast_eq_ok_iff usable exact, advancePast_eq_ok_iff usable exact,
        stepPast_of_stepPast le walked]

/-- Whoever has caught up before, at one earlier moment or at any number of them, arrives where he arrives who has not,
or neither arrives. -/
theorem advancePast_in_stages [Host] {p : Period} (usable : p.amount = .ok amount) (exact : amount.IsExactAt later) :
    (∀ now, now ≤ later → amount.IsExactAt now → advancePast zone amount base now = .ok m →
      (advancePast zone amount m later).toOption = (advancePast zone amount base later).toOption) ∧
    (∀ moments : List Instant, (∀ now ∈ moments, now ≤ later ∧ amount.IsExactAt now) →
      moments.foldlM (advancePast zone amount) base = .ok m →
      (advancePast zone amount m later).toOption = (advancePast zone amount base later).toOption) := by
  have stages : ∀ moments : List Instant, (∀ now ∈ moments, now ≤ later ∧ amount.IsExactAt now) →
      moments.foldlM (advancePast zone amount) base = .ok m →
      (advancePast zone amount m later).toOption = (advancePast zone amount base later).toOption := by
    intro moments before rested
    ext i
    rw [toOption_eq_some, toOption_eq_some]
    exact advancePast_foldlM usable exact before rested
  refine ⟨fun now le exact_now rested => ?_, stages⟩
  refine stages [now] (fun other member => ?_) ?_
  · rw [List.mem_singleton.mp member]
    exact ⟨le, exact_now⟩
  · rw [List.foldlM_cons, rested]
    rfl

def lastMinuteOf2016 (millis : Fin 60000) (leap : Bool) : Instant :=
  ⟨⟨1483228740000000000 + millis * 1000000, leap⟩, by simp only [InRange, firstNanos, lastNanos]; omega⟩

def newYear2017 (millis : Fin 60000) : Instant :=
  ⟨⟨1483228800000000000 + millis * 1000000, false⟩, by simp only [InRange, firstNanos, lastNanos]; omega⟩

theorem twenty_seconds_in_stages :
    ([lastMinuteOf2016 30000 false, lastMinuteOf2016 59500 true].foldlM
        (advancePast .utc (.duration ⟨20000000000, by decide⟩)) (lastMinuteOf2016 0 false)).toOption =
      some (newYear2017 0) ∧
    (advancePast .utc (.duration ⟨20000000000, by decide⟩) (newYear2017 0) (newYear2017 30000)).toOption =
      (advancePast .utc (.duration ⟨20000000000, by decide⟩) (lastMinuteOf2016 0 false)
        (newYear2017 30000)).toOption := by
  have rested : ([lastMinuteOf2016 30000 false, lastMinuteOf2016 59500 true].foldlM
      (advancePast .utc (.duration ⟨20000000000, by decide⟩)) (lastMinuteOf2016 0 false)).toOption =
      some (newYear2017 0) := by decide +kernel
  exact ⟨rested, (advancePast_in_stages (p := ⟨20, .clock .seconds⟩) rfl (by decide)).2 _ (by decide)
    (toOption_eq_some.mp rested)⟩

/-- The count of quarters of a second until the middle of the leap second takes it for the middle of the second after
it, and so the jump leads past two occurrences. -/
theorem quarter_seconds_in_stages_differ :
    (⟨250, .clock .millis⟩ : Period).amount = .ok (.duration ⟨250000000, by decide⟩) ∧
      lastMinuteOf2016 59900 false ≤ lastMinuteOf2016 59500 true ∧
      (advancePast .utc (.duration ⟨250000000, by decide⟩) (lastMinuteOf2016 58000 false)
        (lastMinuteOf2016 59900 false)).toOption = some (newYear2017 0) ∧
      (advancePast .utc (.duration ⟨250000000, by decide⟩) (newYear2017 0)
        (lastMinuteOf2016 59500 true)).toOption = some (newYear2017 0) ∧
      (advancePast .utc (.duration ⟨250000000, by decide⟩) (lastMinuteOf2016 58000 false)
        (lastMinuteOf2016 59500 true)).toOption = some (newYear2017 500) :=
  ⟨rfl, by decide +kernel⟩

end Amount

end Cadence
