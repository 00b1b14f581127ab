import Mathlib.Data.Nat.Find
import Cadence.Proofs.Schedule.Walk

/-!
The first occurrence after a moment, as a count of lengths from the start. There is always one (`exists_isFirstAfter`),
and a walk leads to it unless the calendar ends before (`stepPast_duration`). To catch up leads to the same occurrence
just where the jump goes over whole periods that have all passed (`advancePast_duration`). It does not where the
milliseconds to which the jump falls back lose a fraction of a period, which takes a period of no whole number of
milliseconds and nearly three hundred years, nor where the leap second in which one looks is taken for a part of the
next second, which takes a period of less than a second.
-/

namespace Cadence

open Calendar

namespace Instant

variable {start now : Instant} {d : Duration} {count : Nat}

/-- So many lengths after the start lies what is the first after a moment, or the start itself if it is after it. -/
structure IsFirstAfter (start : Instant) (d : Duration) (now : Instant) (count : Nat) : Prop where
  passed : ∀ k < count, (start.toMoment.shift (k * d.nanos)).rank ≤ now.rank
  past : now.rank < (start.toMoment.shift (count * d.nanos)).rank

theorem rank_add_le (start : Instant) (positive : 0 < d.nanos) (count : Nat) :
    start.rank + count ≤ (start.toMoment.shift (count * d.nanos)).rank := by
  induction count with
  | zero => exact Int.le_of_eq (by rw [Int.natCast_zero, Int.zero_mul, Moment.shift_zero, Int.add_zero])
  | succ count ih =>
    have forward := Duration.count_mul_nonneg (Int.le_of_lt positive) count
    have next := (start.toMoment.shift (count * d.nanos)).rank_lt_shift positive
    rw [Moment.shift_shift _ forward (Int.le_of_lt positive)] at next
    rw [Int.natCast_add, Int.natCast_one, Int.add_mul, Int.one_mul]
    omega

theorem exists_isFirstAfter (start now : Instant) (positive : 0 < d.nanos) :
    ∃ count, start.IsFirstAfter d now count := by
  have reached : ∃ count : Nat, now.rank < (start.toMoment.shift (count * d.nanos)).rank := by
    refine ⟨(now.rank + 1 - start.rank).toNat, ?_⟩
    have far := start.rank_add_le positive (now.rank + 1 - start.rank).toNat
    omega
  exact ⟨Nat.find reached, fun k less => Int.not_lt.mp (Nat.find_min reached less), Nat.find_spec reached⟩

theorem IsFirstAfter.pos (first : start.IsFirstAfter d now count) (reached : start ≤ now) : 1 ≤ count := by
  apply Nat.pos_of_ne_zero
  rintro rfl
  have past := first.past
  rw [Int.natCast_zero, Int.zero_mul, Moment.shift_zero] at past
  exact Int.not_lt.mpr reached past

end Instant

namespace Amount

variable {zone : Zone} {d : Duration} {base now i : Instant} {count : Nat}

theorem stepPast_duration [Host] (positive : 0 < d.nanos) (first : base.IsFirstAfter d now count) :
    (stepPast zone (duration d) now base).toOption =
      Instant.ofMoment? (base.toMoment.shift (count * d.nanos)) := by
  cases place : Instant.ofMoment? (base.toMoment.shift (count * d.nanos)) with
  | some i =>
    have there := Instant.ofMoment?_eq_some.mp place
    have past := first.past
    rw [← there] at past
    rw [stepPast_skip positive first.passed there, stepPast_of_past past]
    rfl
  | none =>
    cases walked : stepPast zone (duration d) now base with
    | ok i => exact absurd walked (stepPast_ne_ok positive first.passed (Instant.ofMoment?_eq_none.mp place))
    | error e => rfl

theorem skipsOnlyPassed_of_found [Host] (positive : 0 < d.nanos) (reached : base ≤ now)
    (first : base.IsFirstAfter d now count) (found : advancePast zone (duration d) base now = .ok i)
    (place : i.toMoment = base.toMoment.shift (count * d.nanos)) : SkipsOnlyPassed d base now := by
  rw [advancePast, if_neg (Instant.not_lt.mpr reached)] at found
  cases jumped : (duration d).jump base now with
  | error e =>
    rw [jumped] at found
    cases found
  | ok start =>
    rw [jumped] at found
    obtain ⟨walked, rest⟩ := stepPast_onGrid positive found
    have forward := Duration.count_mul_nonneg (Int.le_of_lt positive)
    have skipped : 0 ≤ d.skipped (now.since base) := (Duration.skipped_bounds positive).1
    -- What is skipped and what is walked make up the whole way, so what is skipped is a number of periods as well.
    have way := congrArg Moment.nanos place
    rw [rest, jump_eq_ok positive jumped, Moment.shift_shift _ skipped (forward walked),
      Moment.nanos_shift _ (Int.add_nonneg skipped (forward walked)), Moment.nanos_shift _ (forward count)] at way
    have less : walked ≤ count := by
      have lengths : (walked : Int) * d.nanos ≤ count * d.nanos := by omega
      exact Int.ofNat_le.mp (Int.le_of_mul_le_mul_right lengths positive)
    refine ⟨count - walked, ?_, fun k before => first.passed k (by omega)⟩
    rw [Int.ofNat_sub less, Int.sub_mul]
    omega

/-- To catch up from a moment that has not passed leads nowhere else. From any other it leads to the first occurrence
after now, or fails because that is outside the calendar, where the jump skips only what has passed; where it skips
anything else, what is found is not the first occurrence. -/
theorem advancePast_duration [Host] (positive : 0 < d.nanos) (zone : Zone) (base now : Instant) :
    ∃ count, base.IsFirstAfter d now count ∧
      (now < base → advancePast zone (duration d) base now = .ok base) ∧
      (base ≤ now → 1 ≤ count ∧
        (SkipsOnlyPassed d base now →
          (advancePast zone (duration d) base now).toOption =
              Instant.ofMoment? (base.toMoment.shift (count * d.nanos)) ∧
            (advancePast zone (duration d) base now).toOption = (stepPast zone (duration d) now base).toOption) ∧
        (¬ SkipsOnlyPassed d base now → ∀ i, advancePast zone (duration d) base now = .ok i →
          i.toMoment ≠ base.toMoment.shift (count * d.nanos)) ∧
        ((duration d).IsExactAt now → (now.since base).CountsExactly d → SkipsOnlyPassed d base now)) := by
  obtain ⟨count, first⟩ := base.exists_isFirstAfter now positive
  refine ⟨count, first, fun past => by rw [advancePast, if_pos past], fun reached => ⟨first.pos reached, ?_, ?_, ?_⟩⟩
  · intro sound
    have same : (advancePast zone (duration d) base now).toOption = (stepPast zone (duration d) now base).toOption := by
      ext i
      rw [toOption_eq_some, toOption_eq_some]
      exact advancePast_duration_eq_ok_iff positive sound
    exact ⟨same.trans (stepPast_duration positive first), same⟩
  · exact fun unsound i found place => unsound (skipsOnlyPassed_of_found positive reached first found place)
  · exact fun exact counted => skipsOnlyPassed_of_isExactAt positive reached exact counted

def newYear1600 : Instant := ⟨⟨-11676096000000000000, false⟩, by decide⟩

def newYear2000 : Instant := ⟨⟨946684800000000000, false⟩, by decide⟩

theorem hourly_from_1600 :
    0 < (⟨3600000000000, by decide⟩ : Duration).nanos ∧ newYear1600 ≤ newYear2000 ∧
      ∃ (count : Nat) (i : Instant), newYear1600.IsFirstAfter ⟨3600000000000, by decide⟩ newYear2000 count ∧
        advancePast .utc (.duration ⟨3600000000000, by decide⟩) newYear1600 newYear2000 = .ok i ∧
        i.toMoment = newYear1600.toMoment.shift (count * 3600000000000) := by
  have reached : newYear1600 ≤ newYear2000 := by decide
  refine ⟨by decide, reached, ?_⟩
  obtain ⟨count, first, -, found⟩ :=
    advancePast_duration (d := ⟨3600000000000, by decide⟩) (by decide) .utc newYear1600 newYear2000
  obtain ⟨-, right, -, sound⟩ := found reached
  have place := (right (sound (by decide) (Or.inl ⟨3600000, rfl⟩))).1
  have one : (advancePast .utc (.duration ⟨3600000000000, by decide⟩) newYear1600 newYear2000).toOption =
      some ⟨⟨946688400000000000, false⟩, by decide⟩ := by decide +kernel
  exact ⟨count, _, first, toOption_eq_some.mp one, Instant.ofMoment?_eq_some.mp (place.symm.trans one)⟩

/-- An hour and a nanosecond. The milliseconds lose the nanosecond of each of three and a half million periods, and what
is found is at an hour that no multiple of the period leads to. A quarter of a second, in the leap second that ended
2016: the eighth period after 23:59:58 ends at midnight, but the tenth is found. -/
theorem first_occurrence_is_missed :
    (newYear1600.IsFirstAfter ⟨3600000000001, by decide⟩ newYear2000 3506328 ∧
      (advancePast .utc (.duration ⟨3600000000001, by decide⟩) newYear1600 newYear2000).toOption =
        some ⟨⟨946688400000000001, false⟩, by decide⟩ ∧
      ∀ count : Nat, newYear1600.toMoment.shift (count * 3600000000001) ≠ ⟨946688400000000001, false⟩) ∧
    ((lastMinuteOf2016 58000 false).IsFirstAfter ⟨250000000, by decide⟩ (lastMinuteOf2016 59500 true) 8 ∧
      (advancePast .utc (.duration ⟨250000000, by decide⟩) (lastMinuteOf2016 58000 false)
        (lastMinuteOf2016 59500 true)).toOption = some (newYear2017 500)) := by
  refine ⟨⟨⟨fun k less => ?_, by decide +kernel⟩, by decide +kernel, fun count same => ?_⟩,
    ⟨by decide +kernel, by decide +kernel⟩, by decide +kernel⟩
  · rw [Moment.shift_of_ordinary rfl]
    simp only [newYear1600, newYear2000, Moment.rank, Moment.leapNanos, Moment.seconds, nanosPerSecond,
      Bool.false_eq_true, if_false]
    omega
  · rw [Moment.shift_of_ordinary rfl] at same
    simp only [newYear1600, Moment.mk.injEq, and_true] at same
    omega

end Amount

end Cadence
