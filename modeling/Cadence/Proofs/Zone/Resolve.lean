import Cadence.Proofs.Zone.Steady

/-!
The way back from local time in a steady zone, for every local time. A time that the clock shows leads to the first
instant at which it does (`Zone.IsRegular.fromCivil_le`). A time that was skipped is read with the offset from before
the gap (`Zone.IsSteady.fromCivil_of_skips`). The offset is looked up a day earlier, and a leap second counts as the
second after it; so there is no offset for a leap second that ends a skipped day, since the day before it is reckoned
from is skipped as well (`Zone.IsSteady.fromCivil_of_skips_dayBefore`). Otherwise the way back fails only for a time
that is shown off the calendar (`Zone.IsSteady.fromCivil_of_outside`).
-/

namespace Cadence

open Calendar

namespace Calendar

theorem inRange_iff (m : Moment) :
    InRange m.nanos ↔ OffsetTable.firstSecond ≤ m.seconds ∧ m.seconds < OffsetTable.endSecond := by
  simp only [InRange, firstNanos, lastNanos, OffsetTable.firstSecond, OffsetTable.endSecond, firstDay, lastDay,
    Moment.seconds, nanosPerSecond]
  omega

end Calendar

namespace Moment

theorem nanosOfSecond_bounds (m : Moment) : 0 ≤ m.nanosOfSecond ∧ m.nanosOfSecond < nanosPerSecond := by
  simp only [nanosOfSecond, nanosPerSecond]
  omega

theorem rank_lt_of_seconds_lt {m n : Moment} (h : m.seconds < n.seconds) : m.rank < n.rank := by
  have length := m.leapNanos_bounds
  have length' := n.leapNanos_bounds
  simp only [rank, seconds, nanosPerSecond] at *
  omega

theorem seconds_le_of_rank_le {m n : Moment} (h : m.rank ≤ n.rank) : m.seconds ≤ n.seconds :=
  Int.not_lt.mp fun less => Int.not_lt.mpr h (rank_lt_of_seconds_lt less)

theorem rank_le_iff_of_leap_eq {m n : Moment} (same : m.leap = n.leap) : m.rank ≤ n.rank ↔ m.nanos ≤ n.nanos := by
  rw [← Int.not_lt, rank_lt_iff_of_leap_eq same.symm, Int.not_lt]

theorem shift_dayBefore (m : Moment) : m.shift (-nanosPerDay) = ⟨m.stamp - nanosPerDay, false⟩ := by
  have bounds := m.nanosOfSecond_bounds
  obtain ⟨n, p⟩ := m
  cases p with
  | false =>
    rw [shift_of_ordinary rfl]
    simp only [stamp, leapNanos, Bool.false_eq_true, if_false, Int.add_zero]
    rfl
  | true =>
    rw [shift, if_pos]
    · rfl
    · refine ⟨rfl, ?_⟩
      simp only [nanosPerSecond, nanosPerDay] at *
      omega

theorem seconds_shift_dayBefore (m : Moment) : m.seconds - 86400 ≤ (m.shift (-nanosPerDay)).seconds ∧
    (m.shift (-nanosPerDay)).seconds ≤ m.seconds - 86400 + 1 := by
  have length := m.leapNanos_bounds
  rw [shift_dayBefore]
  simp only [seconds, stamp, nanosPerDay, nanosPerSecond] at *
  omega

theorem leap_of_leap_shift {m : Moment} {nanos : Int} (h : (m.shift nanos).leap = true) : m.leap = true := by
  simp only [shift] at h
  split at h
  · cases h
  · exact (Bool.and_eq_true_iff.mp h).1

theorem seconds_shift_neg (m : Moment) (offset : Int) :
    m.seconds - offset ≤ (m.shift (-(offset * nanosPerSecond))).seconds ∧
      (m.shift (-(offset * nanosPerSecond))).seconds ≤ m.seconds - offset + 1 := by
  simp only [shift]
  split
  · rename_i leaves
    simp only [stamp, leapNanos, leaves.1, if_true, seconds, nanosPerSecond]
    omega
  · simp only [seconds, nanosPerSecond]
    omega

end Moment

theorem CivilTime.ofMoment?_eq_none {m : Moment} : ofMoment? m = none ↔ ¬ InRange m.nanos := by
  simp only [ofMoment?]
  split <;> simp_all

namespace Zone

variable {z : Zone} {i j : Instant} {c : CivilTime} {second before after s o : Int}

theorem toCivil_eq_ok_iff [Host] : z.toCivil i = .ok c ↔ c.toMoment = i.ahead (z.offsetAt i.seconds) := by
  refine ⟨toCivil_moment, fun led => ?_⟩
  rw [toCivil, CivilTime.ofMoment?_eq_some.mpr led]

theorem toCivil_eq_error [Host] {e : Error} (h : z.toCivil i = .error e) :
    e = .offCalendar ∧ ¬ InRange (i.ahead (z.offsetAt i.seconds)).nanos := by
  simp only [toCivil] at h
  split at h
  · cases h
  · rename_i out
    cases h
    exact ⟨rfl, CivilTime.ofMoment?_eq_none.mp out⟩

theorem fromCivil_eq_error [Host] {e : Error} (h : z.fromCivil c = .error e) :
    e = .overflow (.civilRange c) ∨ e = .overflow (.civilOffset c) := by
  simp only [fromCivil] at h
  repeat' split at h
  · cases h
  · exact .inl (Except.error.inj h).symm
  · exact .inr (Except.error.inj h).symm
  · exact .inl (Except.error.inj h).symm
  · cases h

theorem seconds_of_toCivil [Host] (shows : z.toCivil i = .ok c) : c.seconds = i.seconds + z.offsetAt i.seconds := by
  rw [toCivil_moment shows, Moment.seconds_ahead]

theorem nanos_of_toCivil [Host] (shows : z.toCivil i = .ok c) :
    c.nanos = i.nanos + z.offsetAt i.seconds * nanosPerSecond ∧ c.leap = i.leap := by
  rw [toCivil_moment shows]
  exact ⟨rfl, rfl⟩

theorem seconds_of_showing? [Host] (found : z.showing? c = some (i, o)) : i.seconds + o = c.seconds := by
  simp only [showing?] at found
  split at found
  · cases found
  · obtain ⟨_, led, same⟩ := Option.map_eq_some_iff.mp found
    cases same
    rw [Instant.ofMoment?_eq_some.mp led, Moment.seconds_ahead]
    omega

theorem shows_of_second [Host] (low : OffsetTable.firstSecond ≤ s) (high : s < OffsetTable.endSecond)
    (shown : s + z.offsetAt s = c.seconds) : z.Shows c.toMoment := by
  have place : (c.ahead (-z.offsetAt s)).seconds = s := by
    rw [Moment.seconds_ahead]
    omega
  have inside : InRange (c.ahead (-z.offsetAt s)).nanos := (inRange_iff _).mpr (by rw [place]; exact ⟨low, high⟩)
  refine ⟨⟨c.ahead (-z.offsetAt s), inside⟩, c, toCivil_eq_ok_iff.mpr ?_, rfl⟩
  change c.toMoment = (c.ahead (-z.offsetAt s)).ahead (z.offsetAt (c.ahead (-z.offsetAt s)).seconds)
  rw [place, Moment.ahead_neg_ahead]

theorem IsRegular.localOffset?_eq_none_iff [Host] (regular : z.IsRegular) {m : Int} :
    z.localOffset? m = none ↔ z.Skips m := by
  constructor
  · rintro none s rfl
    obtain ⟨o, found, -⟩ := regular.localOffset?_of_shown s
    rw [none] at found
    cases found
  · intro skipped
    cases found : z.localOffset? m with
    | none => rfl
    | some o =>
      have there := regular.offsetAt_of_localOffset? found
      exact absurd (by omega) (skipped (m - o))

theorem IsRegular.fromCivil_of_shows [Host] (regular : z.IsRegular) (shown : z.Shows c.toMoment) :
    ∃ i, z.fromCivil c = .ok i ∧ z.toCivil i = .ok c ∧ ∀ s, s + z.offsetAt s = c.seconds → i.seconds ≤ s := by
  obtain ⟨⟨i, o⟩, found⟩ := regular.showing?_of_shows shown
  refine ⟨i, by rw [fromCivil, found], regular.toCivil_of_showing? found, fun s also => ?_⟩
  obtain ⟨p, first, place⟩ := regular.localOffset?_of_shown s
  rw [also] at first place
  have same : i.seconds + p = c.seconds := by
    obtain ⟨k, -, rest⟩ := Option.map_eq_some_iff.mp (by simpa only [showing?, first] using found)
    cases rest
    exact seconds_of_showing? found
  omega

theorem IsRegular.fromCivil_le [Host] (regular : z.IsRegular) (back : z.fromCivil c = .ok i)
    (also : z.toCivil j = .ok c) : i ≤ j := by
  obtain ⟨k, led, shows, first⟩ := regular.fromCivil_of_shows ⟨j, c, also, rfl⟩
  cases back.symm.trans led
  have earlier := first j.seconds (seconds_of_toCivil also).symm
  have here := nanos_of_toCivil shows
  have there := nanos_of_toCivil also
  have second := seconds_of_toCivil shows
  have second' := seconds_of_toCivil also
  refine (Moment.rank_le_iff_of_leap_eq (here.2.symm.trans there.2)).mpr ?_
  simp only [nanosPerSecond] at here there
  omega

theorem IsSteady.localOffset?_dayBefore [Host] (steady : z.IsSteady) (turn : z.Turns second before after)
    (begun : second + before - 86400 ≤ s) (ends : s < second + before) : z.localOffset? s = some before := by
  have there := turn.earlier (s - before) (by omega) (by omega)
  have shown : s - before + z.offsetAt (s - before) = s := by omega
  obtain ⟨o, found, place⟩ := steady.isRegular.localOffset?_of_shown (s - before)
  rw [shown] at found place
  rw [found]
  -- The clock may have shown this time before only if it was turned twice within three days.
  have first := steady.isRegular.offsetAt_of_localOffset? found
  have bounds := steady.isRegular.offsetAt_bounds (s - o)
  have bounds' := steady.isRegular.offsetAt_bounds (s - before)
  have near := steady.offsetAt_near (a := s - o) (b := s - before) (by omega) (by omega)
  have within := turn.earlier (s - o) (by omega) (by omega)
  rw [← first, within]

section Gap

variable [Host] (steady : z.IsSteady) (turn : z.Turns second before after) (begun : second + before ≤ c.seconds)
  (ends : c.seconds < second + after)
include steady turn begun ends

theorem IsSteady.showing?_gap : z.showing? c = none := by
  have skipped := turn.skips steady begun ends
  rw [showing?, steady.isRegular.localOffset?_eq_none_iff.mpr skipped]

theorem IsSteady.exists_dayBefore : ∃ p : CivilTime, CivilTime.ofMoment? (c.shift (-nanosPerDay)) = some p ∧
    p.toMoment = c.shift (-nanosPerDay) ∧ second + before - 86400 ≤ p.seconds ∧ p.seconds ≤ second + before := by
  have bounds := steady.isRegular.offsetAt_bounds (second - 1)
  have last := turn.earlier (second - 1) (by omega) (by omega)
  have size := turn.size
  have room := turn.room
  have place := c.seconds_shift_dayBefore
  have inside : InRange (c.shift (-nanosPerDay)).nanos := (inRange_iff _).mpr (by omega)
  exact ⟨⟨_, inside⟩, CivilTime.ofMoment?_eq_some.mpr rfl, rfl, by change _ ≤ (c.shift _).seconds; omega,
    by change (c.shift _).seconds ≤ _; omega⟩

theorem IsSteady.fromCivil_of_skips (apart : ¬ z.Skips (c.shift (-nanosPerDay)).seconds) :
    ∃ i, z.fromCivil c = .ok i ∧ i.toMoment = c.shift (-(before * nanosPerSecond)) := by
  obtain ⟨p, made, moved, low, high⟩ := steady.exists_dayBefore turn begun ends
  have size := turn.size
  have room := turn.room
  have bounds := steady.isRegular.offsetAt_bounds (second - 1)
  have last := turn.earlier (second - 1) (by omega) (by omega)
  rw [← moved] at apart
  have shown : p.seconds < second + before := by
    refine Int.lt_iff_le_and_ne.mpr ⟨high, fun same => apart ?_⟩
    exact turn.skips steady (by omega) (by omega)
  have offset := steady.localOffset?_dayBefore turn low shown
  have inside : InRange (p.ahead (-before)).nanos := by
    rw [inRange_iff, Moment.seconds_ahead]
    omega
  have led : Instant.ofMoment? (p.ahead (-before)) = some ⟨_, inside⟩ := Instant.ofMoment?_eq_some.mpr rfl
  have found : z.showing? p = some (⟨p.ahead (-before), inside⟩, before) := by
    simp only [showing?, offset, led, Option.map_some]
  have place := c.seconds_shift_neg before
  have inside' : InRange (c.shift (-(before * nanosPerSecond))).nanos := (inRange_iff _).mpr (by omega)
  have led' : Instant.ofMoment? (c.shift (-(before * nanosPerSecond))) = some ⟨_, inside'⟩ :=
    Instant.ofMoment?_eq_some.mpr rfl
  refine ⟨⟨_, inside'⟩, ?_, rfl⟩
  simp only [fromCivil, steady.showing?_gap turn begun ends, made, found, led']

end Gap

theorem IsSteady.fromCivil_of_skips_dayBefore [Host] (steady : z.IsSteady) (skipped : z.Skips c.seconds)
    (also : z.Skips (c.shift (-nanosPerDay)).seconds) : z.fromCivil c = .error (.overflow (.civilOffset c)) := by
  obtain ⟨second, before, after, turn, begun, ends⟩ := steady.exists_gap skipped
  obtain ⟨p, made, moved, -, -⟩ := steady.exists_dayBefore turn begun ends
  rw [← moved] at also
  have none : z.showing? p = none := by rw [showing?, steady.isRegular.localOffset?_eq_none_iff.mpr also]
  simp only [fromCivil, steady.showing?_gap turn begun ends, made, none]

theorem IsSteady.fromCivil_of_outside [Host] (steady : z.IsSteady) (unshown : ¬ z.Shows c.toMoment)
    (unskipped : ¬ z.Skips c.seconds) : ∃ cause, z.fromCivil c = .error (.overflow cause) := by
  have lost : z.showing? c = none := by
    cases found : z.showing? c with
    | none => rfl
    | some at_i =>
      exact absurd ⟨at_i.1, c, steady.isRegular.toCivil_of_showing? found, rfl⟩ unshown
  rw [fromCivil, lost]
  simp only
  split
  · exact ⟨_, rfl⟩
  · rename_i p made
    split
    · exact ⟨_, rfl⟩
    · rename_i j o found
      split
      · exact ⟨_, rfl⟩
      · rename_i k there
        -- If the offset of the day before led into the calendar, the clock would show the time at that instant, or
        -- shortly before or after it, where it has been turned since.
        exfalso
        have day_ago := seconds_of_toCivil (steady.isRegular.toCivil_of_showing? found)
        have offset := seconds_of_showing? found
        have length := c.seconds_shift_dayBefore
        rw [← CivilTime.ofMoment?_eq_some.mp made] at length
        have place := c.seconds_shift_neg o
        rw [← Instant.ofMoment?_eq_some.mp there] at place
        have from_first := ((inRange_iff _).mp j.inRange).1
        have to_last := ((inRange_iff _).mp k.inRange).2
        by_cases same : z.offsetAt j.seconds = z.offsetAt (c.seconds - o)
        · exact unshown (shows_of_second (s := c.seconds - o) (by omega) (by omega) (by omega))
        · obtain ⟨second, before, after, turn, above, below⟩ := steady.exists_turn (by omega) same
          have earlier := turn.earlier j.seconds (by omega) above
          have room := turn.room
          have size := turn.size
          by_cases passed : second + after ≤ c.seconds
          · have later := turn.later (c.seconds - after) (by omega) (by omega)
            exact unshown (shows_of_second (s := c.seconds - after) (by omega) (by omega) (by omega))
          · exact unskipped (turn.skips steady (by omega) (Int.not_le.mp passed))

theorem IsSteady.leap_of_skips_dayBefore [Host] (steady : z.IsSteady) (skipped : z.Skips c.seconds)
    (also : z.Skips (c.shift (-nanosPerDay)).seconds) : c.leap = true := by
  obtain ⟨second, before, after, turn, begun, ends⟩ := steady.exists_gap skipped
  have size := turn.size
  cases marked : c.leap with
  | true => rfl
  | false =>
    have place : (c.shift (-nanosPerDay)).seconds = c.seconds - 86400 := by
      rw [Moment.shift_of_ordinary marked]
      simp only [Moment.seconds, nanosPerDay, nanosPerSecond]
      omega
    have earlier := turn.earlier (c.seconds - 86400 - before) (by omega) (by omega)
    exact absurd (by omega) (also (c.seconds - 86400 - before))

/-- Where the way back leads, and by which rule. -/
theorem IsSteady.fromCivil_cases [Host] (steady : z.IsSteady) (back : z.fromCivil c = .ok i) : z.toCivil i = .ok c ∨
    ∃ second before after, z.Turns second before after ∧ second + before ≤ c.seconds ∧ c.seconds < second + after ∧
      i.toMoment = c.shift (-(before * nanosPerSecond)) := by
  by_cases shown : z.Shows c.toMoment
  · exact .inl (steady.isRegular.toCivil_of_fromCivil shown back)
  by_cases skipped : z.Skips c.seconds
  · obtain ⟨second, before, after, turn, begun, ends⟩ := steady.exists_gap skipped
    by_cases dayBefore : z.Skips (c.shift (-nanosPerDay)).seconds
    · rw [steady.fromCivil_of_skips_dayBefore skipped dayBefore] at back
      cases back
    · obtain ⟨k, led, place⟩ := steady.fromCivil_of_skips turn begun ends dayBefore
      cases led.symm.trans back
      exact .inr ⟨second, before, after, turn, begun, ends, place⟩
  · obtain ⟨cause, failed⟩ := steady.fromCivil_of_outside shown skipped
    rw [failed] at back
    cases back

theorem IsSteady.fromCivil_fails_iff [Host] (steady : z.IsSteady) : (∃ e, z.fromCivil c = .error e) ↔
    (¬ z.Skips c.seconds ∧ ¬ z.Shows c.toMoment) ∨
      (z.Skips c.seconds ∧ z.Skips (c.shift (-nanosPerDay)).seconds) := by
  constructor
  · rintro ⟨e, failed⟩
    by_cases skipped : z.Skips c.seconds
    · obtain ⟨second, before, after, turn, begun, ends⟩ := steady.exists_gap skipped
      refine .inr ⟨skipped, Classical.byContradiction fun apart => ?_⟩
      obtain ⟨i, led, -⟩ := steady.fromCivil_of_skips turn begun ends apart
      cases failed.symm.trans led
    · refine .inl ⟨skipped, fun shown => ?_⟩
      obtain ⟨i, led, -⟩ := steady.isRegular.fromCivil_of_shows shown
      cases failed.symm.trans led
  · rintro (⟨unskipped, unshown⟩ | ⟨skipped, also⟩)
    · obtain ⟨cause, failed⟩ := steady.fromCivil_of_outside unshown unskipped
      exact ⟨_, failed⟩
    · exact ⟨_, steady.fromCivil_of_skips_dayBefore skipped also⟩

end Zone

end Cadence
