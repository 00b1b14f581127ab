import Mathlib.Order.Bounds.Basic
import Cadence.Proofs.Zone.Resolve

/-!
From absolute time to local time and back, and the other way round. What the clock shows at an instant leads back to
the first instant at which it shows it: to the instant itself, unless the clock has been set back and shows for the
second time what it shows (`Zone.IsSteady.eq_of_not_repeats`, `Zone.IsSteady.moment_of_repeats`). A local time leads
to an instant at which it is shown, if there is any; a time that was skipped leads to one at which the clock shows as
much later as it was set forward by (`Zone.IsSteady.exists_toCivil_of_gap`). A leap second in a gap is an exception to
that: it is reckoned as an ordinary second, and it leads nowhere if the day before was skipped together with it. A
clock that is never turned shows every time once (`Zone.IsPlain.toCivil_of_fromCivil`, `Zone.IsPlain.eq_of_toCivil`).
-/

namespace Cadence

open Calendar

namespace Zone

/-- The clock was set back by so many seconds, and has not yet come to where it was before. -/
def Repeats [Host] (z : Zone) (i : Instant) (length : Int) : Prop :=
  ∃ second before after, z.Turns second before after ∧ second ≤ i.seconds ∧ i.seconds < second + length ∧
    before - after = length

/-- The clock shows a local time, but only off the calendar. -/
def ShowsOutside [Host] (z : Zone) (c : CivilTime) : Prop :=
  (∃ s, s + z.offsetAt s = c.seconds) ∧
    ∀ s, s + z.offsetAt s = c.seconds → s < OffsetTable.firstSecond ∨ OffsetTable.endSecond ≤ s

/-- A local time was skipped, and so was the same time of the day before. -/
def SkipsDayBefore [Host] (z : Zone) (c : CivilTime) : Prop :=
  z.Skips c.seconds ∧ z.Skips (c.shift (-nanosPerDay)).seconds

variable {z : Zone} {i j : Instant} {c : CivilTime} {second before after length : Int}

theorem showsOutside_iff [Host] : z.ShowsOutside c ↔ ¬ z.Skips c.seconds ∧ ¬ z.Shows c.toMoment := by
  constructor
  · rintro ⟨⟨s, shown⟩, outside⟩
    refine ⟨fun skipped => skipped s shown, ?_⟩
    rintro ⟨i, d, shows, same⟩
    have place := seconds_of_toCivil shows
    rw [same] at place
    have inside := (inRange_iff i.toMoment).mp i.inRange
    have := outside i.seconds place.symm
    omega
  · rintro ⟨unskipped, unshown⟩
    simp only [Skips, not_forall, not_not] at unskipped
    refine ⟨unskipped, fun s shown => ?_⟩
    by_contra inside
    exact unshown (shows_of_second (s := s) (by omega) (by omega) shown)

theorem nanos_of_same [Host] (here : z.toCivil i = .ok c) (there : z.toCivil j = .ok c) :
    j.nanos + z.offsetAt j.seconds * nanosPerSecond = i.nanos + z.offsetAt i.seconds * nanosPerSecond ∧
      j.leap = i.leap := by
  have first := nanos_of_toCivil here
  have second := nanos_of_toCivil there
  exact ⟨second.1.symm.trans first.1, second.2.symm.trans first.2⟩

theorem eq_of_offsetAt_eq [Host] (here : z.toCivil i = .ok c) (there : z.toCivil j = .ok c)
    (same : z.offsetAt j.seconds = z.offsetAt i.seconds) : j = i := by
  obtain ⟨nanos, leap⟩ := nanos_of_same here there
  rw [same] at nanos
  obtain ⟨⟨n, p⟩, _⟩ := i
  obtain ⟨⟨m, q⟩, _⟩ := j
  refine Instant.ext ?_
  simp only [Moment.mk.injEq]
  exact ⟨(Int.add_left_inj _).mp nanos, leap⟩

theorem IsSteady.eq_of_not_repeats [Host] (steady : z.IsSteady) (here : z.toCivil i = .ok c)
    (there : z.toCivil j = .ok c) (le : j ≤ i) (once : ∀ length, ¬ z.Repeats i length) : j = i := by
  by_contra differ
  have changed : z.offsetAt j.seconds ≠ z.offsetAt i.seconds := fun same => differ (eq_of_offsetAt_eq here there same)
  have shown := seconds_of_toCivil here
  have shown' := seconds_of_toCivil there
  have order : j.seconds ≤ i.seconds := Moment.seconds_le_of_rank_le le
  have bounds := steady.isRegular.offsetAt_bounds i.seconds
  have bounds' := steady.isRegular.offsetAt_bounds j.seconds
  obtain ⟨second, before, after, turn, above, below⟩ := steady.exists_turn (by omega) changed
  have first := turn.earlier j.seconds (by omega) above
  have last := turn.later i.seconds below (by omega)
  exact once _ ⟨second, before, after, turn, below, by omega, rfl⟩

theorem exists_first_pass [Host] (here : z.toCivil i = .ok c) (repeats : z.Repeats i length) :
    ∃ j : Instant, j < i ∧ z.toCivil j = .ok c ∧ j.toMoment = i.ahead (-length) := by
  obtain ⟨second, before, after, turn, passed, again, rfl⟩ := repeats
  have size := turn.size
  have room := turn.room
  have place := Moment.seconds_ahead (-(before - after)) i.toMoment
  have first := turn.earlier (i.seconds + -(before - after)) (by omega) (by omega)
  have last := turn.later i.seconds passed (by omega)
  have inside : InRange (i.ahead (-(before - after))).nanos := (inRange_iff _).mpr (by omega)
  refine ⟨⟨i.ahead (-(before - after)), inside⟩, ?_, ?_, rfl⟩
  · exact Moment.rank_lt_of_seconds_lt (by change (i.ahead _).seconds < _; omega)
  · rw [toCivil_eq_ok_iff]
    change c.toMoment = (i.ahead (-(before - after))).ahead (z.offsetAt (i.ahead (-(before - after))).seconds)
    rw [place, first, toCivil_moment here, last]
    simp only [Moment.ahead, Moment.mk.injEq, and_true, nanosPerSecond]
    omega

theorem IsSteady.moment_of_repeats [Host] (steady : z.IsSteady) (here : z.toCivil i = .ok c)
    (there : z.toCivil j = .ok c) (less : j < i) (repeats : z.Repeats i length) : j.toMoment = i.ahead (-length) := by
  obtain ⟨second, before, after, turn, passed, again, rfl⟩ := repeats
  have size := turn.size
  have shown := seconds_of_toCivil here
  have shown' := seconds_of_toCivil there
  have bounds := steady.isRegular.offsetAt_bounds j.seconds
  have bounds' := steady.isRegular.offsetAt_bounds i.seconds
  have last := turn.later i.seconds passed (by omega)
  have order : j.seconds ≤ i.seconds := Moment.seconds_le_of_rank_le (Int.le_of_lt less)
  have earlier : j.seconds < second := by
    apply Int.not_le.mp
    intro reached
    have same := turn.later j.seconds reached (by omega)
    rw [eq_of_offsetAt_eq here there (same.trans last.symm)] at less
    exact Int.lt_irrefl _ less
  have first := turn.earlier j.seconds (by omega) earlier
  obtain ⟨nanos, leap⟩ := nanos_of_same here there
  rw [first, last] at nanos
  obtain ⟨⟨n, p⟩, _⟩ := i
  obtain ⟨⟨m, q⟩, _⟩ := j
  simp only [Moment.ahead, Moment.mk.injEq, nanosPerSecond] at *
  exact ⟨by omega, leap⟩

theorem IsRegular.exists_isLeast [Host] (regular : z.IsRegular) (shown : z.Shows c.toMoment) :
    ∃ j, z.fromCivil c = .ok j ∧ IsLeast {k | z.toCivil k = .ok c} j := by
  obtain ⟨j, back, shows, -⟩ := regular.fromCivil_of_shows shown
  exact ⟨j, back, shows, fun k also => regular.fromCivil_le back also⟩

theorem IsSteady.exists_toCivil_of_gap [Host] (steady : z.IsSteady) (turn : z.Turns second before after)
    (begun : second + before ≤ c.seconds) (ends : c.seconds < second + after) (apart : ¬ z.SkipsDayBefore c) :
    ∃ i d, z.fromCivil c = .ok i ∧ z.toCivil i = .ok d ∧
      d.toMoment = (c.shift (-(before * nanosPerSecond))).ahead after := by
  have skipped := turn.skips steady begun ends
  have size := turn.size
  have room := turn.room
  obtain ⟨i, back, led⟩ := steady.fromCivil_of_skips turn begun ends fun also => apart ⟨skipped, also⟩
  have place := c.seconds_shift_neg before
  rw [← led] at place
  have last := turn.later i.seconds (by omega) (by omega)
  have bounds := steady.isRegular.offsetAt_bounds i.seconds
  have shown := Moment.seconds_ahead after i.toMoment
  have inside : InRange (i.ahead after).nanos := (inRange_iff _).mpr (by omega)
  refine ⟨i, ⟨i.ahead after, inside⟩, back, ?_, ?_⟩
  · rw [toCivil_eq_ok_iff, last]
  · change i.ahead after = _
    rw [led]

theorem ahead_of_gap (ordinary : c.leap = false) :
    (c.shift (-(before * nanosPerSecond))).ahead after = c.ahead (after - before) := by
  rw [Moment.shift_of_ordinary ordinary]
  simp only [Moment.ahead, Moment.mk.injEq, ordinary, and_true, nanosPerSecond]
  omega

/-- A clock that is never turned, as the one of UTC and those of fixed offsets. -/
structure IsPlain [Host] (z : Zone) : Prop where
  steady : z.IsSteady
  constant : ∀ a b, z.offsetAt a = z.offsetAt b

theorem isPlain_utc [Host] : IsPlain utc := ⟨isSteady_utc, fun _ _ => rfl⟩

theorem isPlain_fixed [Host] (o : Offset) : IsPlain (fixed o) := ⟨isSteady_fixed o, fun _ _ => rfl⟩

namespace IsPlain

variable [Host] {d : CivilTime} (plain : z.IsPlain)
include plain

theorem toCivil_of_fromCivil (back : z.fromCivil c = .ok i) : z.toCivil i = .ok c := by
  obtain shows | ⟨second, before, after, turn, begun, ends, -⟩ := plain.steady.fromCivil_cases back
  · exact shows
  · have first := turn.earlier (second - 1) (by omega) (by omega)
    have last := turn.later second (by omega) (by omega)
    have same := plain.constant (second - 1) second
    omega

theorem eq_of_toCivil (here : z.toCivil i = .ok c) (there : z.toCivil j = .ok c) : i = j :=
  (eq_of_offsetAt_eq here there (plain.constant j.seconds i.seconds)).symm

theorem le_of_toCivil (here : z.toCivil i = .ok c) (there : z.toCivil j = .ok d) (same : d.leap = c.leap)
    (le : d.nanos ≤ c.nanos) : j ≤ i := by
  have shown := nanos_of_toCivil here
  have shown' := nanos_of_toCivil there
  rw [plain.constant j.seconds i.seconds] at shown'
  have marks : j.leap = i.leap := by rw [← shown'.2, ← shown.2, same]
  refine (Moment.rank_le_iff_of_leap_eq marks).mpr ?_
  omega

end IsPlain

/-- What the clock shows at an instant leads back to the first instant at which it shows it, which is the same one or
the one of the first pass. Back from a local time there is no way if it is shown off the calendar only, nor from a
leap second that ends a skipped day. Otherwise the way leads to where the time is shown or, if it was skipped, to
where the clock shows a time that is later by the length of the gap, as far as it is no leap second. -/
theorem IsSteady.there_and_back [Host] (steady : z.IsSteady) :
    (∀ i c, z.toCivil i = .ok c → ∃ j, z.fromCivil c = .ok j ∧ IsLeast {k | z.toCivil k = .ok c} j ∧
      ((∀ length, ¬ z.Repeats i length) → j = i) ∧ ∀ length, z.Repeats i length → j.toMoment = i.ahead (-length)) ∧
    ∀ c : CivilTime,
      ((∃ e, z.fromCivil c = .error e) ↔ z.ShowsOutside c ∨ z.SkipsDayBefore c) ∧
      (∀ e, z.fromCivil c = .error e → ∃ cause, e = .overflow cause) ∧
      (z.SkipsDayBefore c → c.leap = true) ∧
      (z.Shows c.toMoment → ∃ i, z.fromCivil c = .ok i ∧ z.toCivil i = .ok c) ∧
      ∀ second before after, z.Turns second before after → second + before ≤ c.seconds → c.seconds < second + after →
        ¬ z.SkipsDayBefore c → ∃ i d, z.fromCivil c = .ok i ∧ z.toCivil i = .ok d ∧
          d.toMoment = (c.shift (-(before * nanosPerSecond))).ahead after ∧
          (c.leap = false → d.toMoment = c.ahead (after - before)) := by
  constructor
  · intro i c here
    obtain ⟨j, back, least⟩ := steady.isRegular.exists_isLeast ⟨i, c, here, rfl⟩
    refine ⟨j, back, least, steady.eq_of_not_repeats here least.1 (least.2 here), fun length repeats => ?_⟩
    obtain ⟨k, less, also, -⟩ := exists_first_pass here repeats
    exact steady.moment_of_repeats here least.1 (Instant.lt_of_le_of_lt (least.2 also) less) repeats
  · intro c
    refine ⟨?_, fun e failed => ?_, fun both => steady.leap_of_skips_dayBefore both.1 both.2, fun shown => ?_, ?_⟩
    · rw [steady.fromCivil_fails_iff, showsOutside_iff]
      rfl
    · obtain cause | cause := fromCivil_eq_error failed
      · exact ⟨_, cause⟩
      · exact ⟨_, cause⟩
    · obtain ⟨i, back, shows, -⟩ := steady.isRegular.fromCivil_of_shows shown
      exact ⟨i, back, shows⟩
    · intro second before after turn begun ends apart
      obtain ⟨i, d, back, shows, place⟩ := steady.exists_toCivil_of_gap turn begun ends apart
      exact ⟨i, d, back, shows, place, fun ordinary => place.trans (ahead_of_gap ordinary)⟩

def secondHalfPastTwo : Instant := ⟨⟨1635643800000000000, false⟩, by decide⟩

theorem second_half_past_two_in_berlin : IsSteady (.region .berlin) ∧ Repeats (.region .berlin) secondHalfPastTwo 3600 ∧
    ∃ c j, toCivil (.region .berlin) secondHalfPastTwo = .ok c ∧ fromCivil (.region .berlin) c = .ok j ∧
      j.toMoment = secondHalfPastTwo.ahead (-3600) := by
  have steady : IsSteady (.region .berlin) := isSteady_of_mem_all .berlin (by simp [Region.all])
  have repeats : Repeats (.region .berlin) secondHalfPastTwo 3600 := by
    obtain ⟨second, before, after, turn, above, below⟩ :=
      steady.exists_turn (a := 1635641999) (b := 1635642000) (by decide) (by decide +kernel)
    have last := turn.earlier 1635641999 (by omega) above
    have first := turn.later 1635642000 below (by omega)
    have summer : offsetAt (.region .berlin) 1635641999 = 7200 := by decide +kernel
    have winter : offsetAt (.region .berlin) 1635642000 = 3600 := by decide +kernel
    have here : secondHalfPastTwo.seconds = 1635643800 := by decide
    exact ⟨second, before, after, turn, by omega, by omega, by omega⟩
  have shows : toCivil (.region .berlin) secondHalfPastTwo = .ok ⟨⟨1635647400000000000, false⟩, by decide⟩ := rfl
  obtain ⟨j, back, -, -, first⟩ := steady.there_and_back.1 secondHalfPastTwo _ shows
  exact ⟨steady, repeats, _, j, shows, back, first 3600 repeats⟩

/-- 2011-12-30 23:59:60 in Apia, a day that was skipped. -/
def endOfSkippedDay : CivilTime := ⟨⟨1325289599000000000, true⟩, by decide, by decide⟩

/-- 2021-03-28 02:30:60 in Berlin, in an hour that was skipped. -/
def inSkippedHour : CivilTime := ⟨⟨1616898659000000000, true⟩, by decide⟩

/-- A leap second in a gap leads nowhere, though the instant to which it would lead is in the calendar, or to a time
that is not later by the length of the gap, whether or not the leap second is counted. -/
theorem leap_second_in_gap :
    (Skips (.region .apia) endOfSkippedDay.seconds ∧ ¬ ShowsOutside (.region .apia) endOfSkippedDay ∧
      fromCivil (.region .apia) endOfSkippedDay = .error (.overflow (.civilOffset endOfSkippedDay))) ∧
    Skips (.region .berlin) inSkippedHour.seconds ∧
      ∃ i d, fromCivil (.region .berlin) inSkippedHour = .ok i ∧ toCivil (.region .berlin) i = .ok d ∧
        d.toMoment ≠ inSkippedHour.ahead 3600 ∧ d.toMoment ≠ inSkippedHour.shift (3600 * nanosPerSecond) := by
  have apia : IsSteady (.region .apia) := isSteady_of_mem_all .apia (by simp [Region.all])
  have berlin : IsSteady (.region .berlin) := isSteady_of_mem_all .berlin (by simp [Region.all])
  have skipped : Skips (.region .apia) endOfSkippedDay.seconds := apia.isRegular.localOffset?_eq_none_iff.mp rfl
  refine ⟨⟨skipped, fun outside => (showsOutside_iff.mp outside).1 skipped, rfl⟩,
    berlin.isRegular.localOffset?_eq_none_iff.mp (by decide +kernel), ⟨⟨1616895060000000000, false⟩, by decide⟩,
    ⟨⟨1616902260000000000, false⟩, by decide⟩, by decide +kernel, by decide +kernel, by decide, by decide⟩

end Zone

end Cadence
