import Cadence.Proofs.Schedule.Boundary

/-!
Alignment where the clock is turned. On the wall the boundaries that are found lie around the base, but the instants
to which they lead need not. The previous boundary leads to an instant after the base if the clock has been set
forward over it and has not yet made up for what was skipped before it (`Zone.lt_fromCivil_iff`). The next boundary
leads to an instant before the base if the clock has shown it before and was set back since (`Zone.fromCivil_lt_iff`):
the way back from local time knows only the first instant at which a time is shown, and does not see that the base is
later.
-/

namespace Cadence

open Calendar

namespace Moment

variable {m n : Moment}

theorem seconds_lt_of_rank_lt (whole : n.leap = false ∧ n.nanosOfSecond = 0) (h : m.rank < n.rank) :
    m.seconds < n.seconds := by
  have length := m.leapNanos_bounds
  obtain ⟨ordinary, begins⟩ := whole
  simp only [rank, seconds, nanosOfSecond, leapNanos, ordinary, nanosPerSecond, Bool.false_eq_true, if_false] at *
  omega

end Moment

namespace Zone

variable {z : Zone} {base i j : Instant} {b c s : CivilTime} {day : Int}

/-- The clock has been set forward over a local time that it would not have come to yet otherwise. -/
def RunsAhead [Host] (z : Zone) (base : Instant) (s : CivilTime) : Prop :=
  ∃ second before after, z.Turns second before after ∧ second ≤ base.seconds ∧ base.seconds + before < s.seconds ∧
    s.seconds < second + after

section Bracket

variable [Host] (steady : z.IsSteady) (shows : z.toCivil base = .ok c)
include steady shows

theorem fromCivil_lt_iff (le : c ≤ b) (back : z.fromCivil b = .ok j) :
    j < base ↔ ∃ k < base, z.toCivil k = .ok b := by
  constructor
  · intro less
    obtain there | ⟨second, before, after, turn, begun, ends, place⟩ := steady.fromCivil_cases back
    · exact ⟨j, less, there⟩
    · -- In a gap, the base is before the turn and `j` is not.
      exfalso
      have here := seconds_of_toCivil shows
      have wall := Moment.seconds_le_of_rank_le le
      have later := (b.seconds_shift_neg before).1
      rw [← place] at later
      have order := Moment.seconds_le_of_rank_le (Int.le_of_lt less)
      have := turn.after_le steady (s := base.seconds) (by omega)
      omega
  · rintro ⟨k, less, also⟩
    exact Int.lt_of_le_of_lt (steady.isRegular.fromCivil_le back also) less

theorem lt_fromCivil_iff (midnight : CivilTime.midnight? day = some s) (le : s ≤ c) (back : z.fromCivil s = .ok i) :
    base < i ↔ z.RunsAhead base s := by
  have here := seconds_of_toCivil shows
  have wall := Moment.seconds_le_of_rank_le le
  have place := CivilTime.midnight?_eq_some.mp midnight
  have ordinary : s.leap = false := congrArg Moment.leap place
  have nanos : s.nanos = day * nanosPerDay := congrArg Moment.nanos place
  have shifted : ∀ before, s.shift (-(before * nanosPerSecond)) = ⟨s.nanos - before * nanosPerSecond, false⟩ :=
    fun before => Moment.shift_of_ordinary ordinary _
  constructor
  · intro less
    obtain there | ⟨second, before, after, turn, begun, ends, led⟩ := steady.fromCivil_cases back
    · -- The clock shows as much as `s` at the base, so it has shown `s` by then.
      exfalso
      obtain ⟨k, led, -, first⟩ := steady.isRegular.fromCivil_of_shows ⟨i, s, there, rfl⟩
      cases back.symm.trans led
      obtain ⟨t, reached, shown⟩ := steady.exists_shown_before (a := base.seconds)
        (seconds_of_toCivil there).symm (by omega)
      have earlier := first t shown
      have at_i := nanos_of_toCivil there
      have whole : i.leap = false ∧ i.nanosOfSecond = 0 := by
        refine ⟨at_i.2.symm.trans ordinary, ?_⟩
        simp only [Moment.nanosOfSecond, nanosPerSecond, nanosPerDay] at *
        omega
      have := Moment.seconds_lt_of_rank_lt whole less
      omega
    · rw [shifted] at led
      have whole : i.leap = false ∧ i.nanosOfSecond = 0 ∧ i.seconds = s.seconds - before := by
        rw [led]
        refine ⟨rfl, ?_⟩
        simp only [Moment.nanosOfSecond, Moment.seconds, nanosPerSecond, nanosPerDay] at *
        omega
      have order := Moment.seconds_lt_of_rank_lt ⟨whole.1, whole.2.1⟩ less
      refine ⟨second, before, after, turn, ?_, by omega, ends⟩
      apply Int.not_lt.mp
      intro earlier
      have := turn.lt_before steady earlier
      omega
  · rintro ⟨second, before, after, turn, turned, missing, ends⟩
    have begun : second + before ≤ s.seconds := by omega
    have skipped := turn.skips steady begun ends
    have apart : ¬ z.Skips (s.shift (-nanosPerDay)).seconds := by
      intro also
      have leap := steady.leap_of_skips_dayBefore skipped also
      rw [ordinary] at leap
      cases leap
    obtain ⟨k, led, moved⟩ := steady.fromCivil_of_skips turn begun ends apart
    cases back.symm.trans led
    rw [shifted] at moved
    apply Moment.rank_lt_of_seconds_lt
    rw [moved]
    simp only [Moment.seconds, nanosPerSecond] at *
    omega

end Bracket

end Zone

namespace Period

variable {p : Period} {step : CalendarStep} {zone : Zone} {base i j : Instant}

/-- Calendar periods are aligned to the boundaries around the time that the clock shows. The previous boundary leads
to an instant that is not after the base unless the clock runs ahead of it, and the next one to an instant that is not
before the base unless the clock has shown it before. -/
theorem alignedStart_brackets [Host] (steady : zone.IsSteady) (usable : p.amount = .ok (.calendar step))
    (previous : p.alignedStart zone .previous base = .ok i) (next : p.alignedStart zone .next base = .ok j) :
    ∃ c s b, zone.toCivil base = .ok c ∧ IsGreatest {x | step.IsBoundary x ∧ x ≤ c} s ∧ step.IsBoundary b ∧ c ≤ b ∧
      zone.fromCivil s = .ok i ∧ zone.fromCivil b = .ok j ∧
      (i ≤ base ↔ ¬ zone.RunsAhead base s) ∧ (base ≤ j ↔ ∀ k, zone.toCivil k = .ok b → base ≤ k) := by
  obtain ⟨c, s, s', shows, aligned, same, back⟩ := (alignedStart_calendar_eq_ok_iff usable).mp previous
  rw [if_neg (by simp)] at same
  subst same
  obtain ⟨c', s', b, shows', aligned', moved, forth⟩ := (alignedStart_calendar_eq_ok_iff usable).mp next
  cases shows.symm.trans shows'
  cases aligned.symm.trans aligned'
  have midnight := CalendarStep.midnight?_of_calendarBoundary usable aligned
  have greatest := CalendarStep.isGreatest_boundary midnight
  have after : step.IsBoundary b ∧ c ≤ b := by
    split at moved
    · obtain ⟨boundary, less⟩ := CalendarStep.lt_of_move?_boundary midnight moved
      exact ⟨boundary, Int.le_of_lt less⟩
    · rename_i here
      subst moved
      have same : b = c := by simpa using here
      exact ⟨greatest.1.1, Int.le_of_eq (by rw [same])⟩
  refine ⟨c, s', b, shows, greatest, after.1, after.2, back, forth, ?_, ?_⟩
  · rw [← Zone.lt_fromCivil_iff steady shows midnight greatest.1.2 back]
    exact Int.not_lt.symm
  · rw [← Instant.not_lt, Zone.fromCivil_lt_iff steady shows after.2 forth]
    simp only [not_exists, not_and, ← Instant.not_lt]
    exact ⟨fun unshown k shown less => unshown k less shown, fun unshown k less shown => unshown k shown less⟩

def sundayNoon : Instant := ⟨⟨1616925600000000000, false⟩, by decide⟩

theorem sunday_in_berlin :
    Zone.IsSteady (.region .berlin) ∧ (⟨1, .calendar .days⟩ : Period).amount = .ok (.calendar ⟨1, .days, by decide⟩) ∧
      (alignedStart ⟨1, .calendar .days⟩ (.region .berlin) .previous sundayNoon).toOption =
        some ⟨⟨1616886000000000000, false⟩, by decide⟩ ∧
      (alignedStart ⟨1, .calendar .days⟩ (.region .berlin) .next sundayNoon).toOption =
        some ⟨⟨1616968800000000000, false⟩, by decide⟩ ∧
      ∃ c s b, Zone.toCivil (.region .berlin) sundayNoon = .ok c ∧
        IsGreatest {x | (⟨1, .days, by decide⟩ : CalendarStep).IsBoundary x ∧ x ≤ c} s ∧
        (⟨1, .days, by decide⟩ : CalendarStep).IsBoundary b ∧ c ≤ b ∧
        ¬ Zone.RunsAhead (.region .berlin) sundayNoon s ∧
        ∀ k, Zone.toCivil (.region .berlin) k = .ok b → sundayNoon ≤ k := by
  have steady : Zone.IsSteady (.region .berlin) := Zone.isSteady_of_mem_all .berlin (by simp [Region.all])
  have usable : (⟨1, .calendar .days⟩ : Period).amount = .ok (.calendar ⟨1, .days, by decide⟩) := rfl
  have previous : (alignedStart ⟨1, .calendar .days⟩ (.region .berlin) .previous sundayNoon).toOption =
      some ⟨⟨1616886000000000000, false⟩, by decide⟩ := rfl
  have next : (alignedStart ⟨1, .calendar .days⟩ (.region .berlin) .next sundayNoon).toOption =
      some ⟨⟨1616968800000000000, false⟩, by decide⟩ := rfl
  obtain ⟨c, s, b, shows, greatest, boundary, le, -, -, low, high⟩ :=
    alignedStart_brackets steady usable (toOption_eq_some.mp previous) (toOption_eq_some.mp next)
  exact ⟨steady, usable, previous, next, c, s, b, shows, greatest, boundary, le, low.mp (by decide),
    high.mp (by decide)⟩

/-- The second midnight of 1 October 1916 in Berlin, where the clock was set back from one o'clock. -/
def secondMidnight : Instant := ⟨⟨-1680483600000000000, false⟩, by decide⟩

/-- The base is a boundary on the wall, and what is found is an hour before it in both directions. -/
theorem next_is_before_secondMidnight :
    (alignedStart ⟨1, .calendar .days⟩ (.region .berlin) .previous secondMidnight).toOption =
        some ⟨⟨-1680487200000000000, false⟩, by decide⟩ ∧
      (alignedStart ⟨1, .calendar .days⟩ (.region .berlin) .next secondMidnight).toOption =
        some ⟨⟨-1680487200000000000, false⟩, by decide⟩ ∧
      ¬ secondMidnight ≤ ⟨⟨-1680487200000000000, false⟩, by decide⟩ :=
  ⟨rfl, rfl, by decide⟩

end Period

end Cadence
