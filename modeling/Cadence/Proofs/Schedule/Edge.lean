import Cadence.Proofs.Schedule.Boundary
import Cadence.Proofs.Schedule.WallClock

/-!
Alignment at the ends of the calendar, in UTC. A boundary is found if it is in the calendar, and what is missed
instead has a cause in the calendar (`Period.alignedStart_fails_iff`): the unit around the base begins before it, the
next boundary lies behind it, or, for months that divide the year, no boundary follows the one that is looked for. The
last cause does not concern the answer: in the last quarter of the calendar even a base that is a boundary itself is
not found.
-/

namespace Cadence

open Calendar

namespace CalendarStep

variable {step : CalendarStep} {c : CivilTime}

/-- The calendar has no boundary up to a local time. -/
def BeginsOutside (step : CalendarStep) (c : CivilTime) : Prop := ∀ b, step.IsBoundary b → c < b

/-- The calendar has no boundary after a local time. -/
def EndsOutside (step : CalendarStep) (c : CivilTime) : Prop := ∀ b, step.IsBoundary b → b ≤ c

theorem exists_begin_iff : (∃ s, CivilTime.midnight? (step.grid.startDay (step.grid.stretch c.dayNumber)) = some s) ↔
    ¬ step.BeginsOutside c := by
  have forward := step.grid_isForward
  obtain ⟨low, high⟩ := step.grid.startDay_stretch forward c.dayNumber
  constructor
  · rintro ⟨s, begun⟩ outside
    exact Int.not_lt.mpr (isGreatest_boundary begun).1.2 (outside s (isGreatest_boundary begun).1.1)
  · intro inside
    simp only [BeginsOutside, not_forall] at inside
    obtain ⟨b, boundary, reached⟩ := inside
    obtain ⟨k, here⟩ := isBoundary_iff.mp boundary
    have before := (CivilTime.midnight_le_iff here).mp (Int.not_lt.mp reached)
    have place := (DateMove.startDay_lt_iff forward (k := k)).mp (Int.lt_of_le_of_lt before high)
    have later := (DateMove.startDay_lt_iff forward (k := step.grid.stretch c.dayNumber) (l := k)).not.mpr (by omega)
    have first := (CivilTime.exists_midnight?_iff.mp ⟨b, here⟩).1
    have last := c.dayNumber_bounds.2
    exact CivilTime.exists_midnight?_iff.mpr ⟨by omega, by omega⟩

theorem exists_end_iff : (∃ m, CivilTime.midnight? (step.grid.startDay (step.grid.stretch c.dayNumber + 1)) = some m) ↔
    ¬ step.EndsOutside c := by
  have forward := step.grid_isForward
  obtain ⟨low, high⟩ := step.grid.startDay_stretch forward c.dayNumber
  constructor
  · rintro ⟨m, ends⟩ outside
    exact Int.not_le.mpr (isLeast_boundary ends).1.2 (outside m (isLeast_boundary ends).1.1)
  · intro inside
    simp only [EndsOutside, not_forall] at inside
    obtain ⟨b, boundary, ahead⟩ := inside
    obtain ⟨k, here⟩ := isBoundary_iff.mp boundary
    have after := (CivilTime.lt_midnight_iff here).mp (Int.not_le.mp ahead)
    have place := (DateMove.startDay_lt_iff forward (l := k)).mp (Int.lt_of_le_of_lt low after)
    have earlier := (DateMove.startDay_lt_iff forward (k := k) (l := step.grid.stretch c.dayNumber + 1)).not.mpr
      (by omega)
    have first := c.dayNumber_bounds.1
    have last := (CivilTime.exists_midnight?_iff.mp ⟨b, here⟩).2
    exact CivilTime.exists_midnight?_iff.mpr ⟨by omega, by omega⟩

theorem not_beginsOutside (boundary : step.IsBoundary c) : ¬ step.BeginsOutside c :=
  fun outside => Int.lt_irrefl c.rank (outside c boundary)

end CalendarStep

namespace Period

variable {p : Period} {step : CalendarStep} {base : Instant} {c : CivilTime} {e : Error} {direction : Direction}

theorem exists_calendarBoundary_iff (usable : p.amount = .ok (.calendar step)) :
    (∃ s, p.calendarBoundary step base c = .ok s) ↔
      ¬ step.BeginsOutside c ∧ (step.DividesYear → ¬ step.EndsOutside c) := by
  simp only [CalendarStep.calendarBoundary_eq_ok_iff usable, exists_and_right, CalendarStep.exists_begin_iff,
    CalendarStep.exists_end_iff]

theorem alignedStart_utc_eq_error [Host] (usable : p.amount = .ok (.calendar step))
    (failed : p.alignedStart .utc direction base = .error e) : ∃ cause, e = .overflow cause := by
  have counts := (amount_eq_calendar usable).2
  obtain first | outside | ⟨b, back⟩ := alignedStart_calendar_eq_error usable counts failed
  · rw [Zone.toCivil_utc] at first
    cases first
  · exact outside
  · rw [Zone.fromCivil_utc] at back
    cases back

theorem exists_alignedStart_utc_iff [Host] (usable : p.amount = .ok (.calendar step))
    (shows : Zone.utc.toCivil base = .ok c) :
    (∃ i, p.alignedStart .utc direction base = .ok i) ↔ ∃ s, p.calendarBoundary step base c = .ok s ∧
      (direction = .next ∧ s ≠ c → ∃ b, s.move? (step.move true) = some b) := by
  simp only [alignedStart_calendar_eq_ok_iff usable]
  constructor
  · rintro ⟨i, c', s, b, shows', found, moved, -⟩
    cases shows.symm.trans shows'
    refine ⟨s, found, fun moves => ?_⟩
    rw [if_pos moves] at moved
    exact ⟨b, moved⟩
  · rintro ⟨s, found, moved⟩
    by_cases moves : direction = .next ∧ s ≠ c
    · obtain ⟨b, led⟩ := moved moves
      exact ⟨_, c, s, b, shows, found, by rwa [if_pos moves], Zone.fromCivil_utc b⟩
    · exact ⟨_, c, s, s, shows, found, by rw [if_neg moves], Zone.fromCivil_utc s⟩

/-- In UTC the previous boundary is not found just where the calendar has none up to the base, or, for months that
divide the year, none after it. A base that is a boundary is not its own next one only in the latter case. From any
other base the next boundary is not found in both cases, and where a step from the previous one leads out of the
calendar. -/
theorem alignedStart_fails_iff [Host] (usable : p.amount = .ok (.calendar step)) (base : Instant) :
    ∃ c, Zone.utc.toCivil base = .ok c ∧
      ((∃ e, p.alignedStart .utc .previous base = .error e) ↔
        step.BeginsOutside c ∨ (step.DividesYear ∧ step.EndsOutside c)) ∧
      (step.IsBoundary c → ((∃ e, p.alignedStart .utc .next base = .error e) ↔
        step.DividesYear ∧ step.EndsOutside c)) ∧
      (¬ step.IsBoundary c → ((∃ e, p.alignedStart .utc .next base = .error e) ↔
        step.BeginsOutside c ∨ (step.DividesYear ∧ step.EndsOutside c) ∨
          ∃ s, IsGreatest {b | step.IsBoundary b ∧ b ≤ c} s ∧ s.move? (step.move true) = none)) ∧
      ∀ direction e, p.alignedStart .utc direction base = .error e → ∃ cause, e = .overflow cause := by
  have shows := Zone.toCivil_utc base
  generalize (⟨base.toMoment, base.inRange⟩ : CivilTime) = c at shows
  have missed : (¬ ∃ s, p.calendarBoundary step base c = .ok s) ↔
      step.BeginsOutside c ∨ (step.DividesYear ∧ step.EndsOutside c) := by
    rw [exists_calendarBoundary_iff usable]
    tauto
  have greatest : ∀ s, p.calendarBoundary step base c = .ok s → IsGreatest {b | step.IsBoundary b ∧ b ≤ c} s :=
    fun s found => CalendarStep.isGreatest_boundary (CalendarStep.midnight?_of_calendarBoundary usable found)
  refine ⟨c, shows, ?_, fun boundary => ?_, fun between => ?_, fun direction e => alignedStart_utc_eq_error usable⟩
  · rw [exists_error_iff, exists_alignedStart_utc_iff usable shows, ← missed]
    simp only [reduceCtorEq, false_and, false_imp_iff, and_true]
  · have own : ∀ s, p.calendarBoundary step base c = .ok s → s = c :=
      fun s found => (CalendarStep.isBoundary_iff_eq (greatest s found)).mp boundary
    rw [or_iff_right (CalendarStep.not_beginsOutside boundary)] at missed
    rw [exists_error_iff, exists_alignedStart_utc_iff usable shows, ← missed]
    refine not_congr (exists_congr fun s => and_iff_left_of_imp fun found moves => ?_)
    exact absurd (own s found) moves.2
  · have other : ∀ s, p.calendarBoundary step base c = .ok s → s ≠ c :=
      fun s found => mt (CalendarStep.isBoundary_iff_eq (greatest s found)).mpr between
    rw [exists_error_iff, exists_alignedStart_utc_iff usable shows, ← or_assoc, ← missed]
    constructor
    · intro unreached
      refine Classical.or_iff_not_imp_left.mpr fun found => ?_
      obtain ⟨s, found⟩ := Classical.not_not.mp found
      refine ⟨s, greatest s found, ?_⟩
      cases moved : s.move? (step.move true) with
      | none => rfl
      | some b => exact absurd ⟨s, found, fun _ => ⟨b, moved⟩⟩ unreached
    · rintro (none | ⟨s, last, stuck⟩) ⟨s', found, moves⟩
      · exact none ⟨s', found⟩
      · have same := CivilTime.le_antisymm (last.2 (greatest s' found).1) ((greatest s' found).2 last.1)
        obtain ⟨b, moved⟩ := moves ⟨rfl, other s' found⟩
        rw [same, stuck] at moved
        cases moved

def lastQuarter : Instant := ⟨⟨95026145 * nanosPerDay, false⟩, by decide⟩

theorem millennium_begins_outside :
    (⟨1, .calendar .millennia⟩ : Period).amount = .ok (.calendar ⟨1, .millennia, by decide⟩) ∧
      ∃ c, Zone.utc.toCivil ⟨⟨firstNanos, false⟩, by decide⟩ = .ok c ∧
        (∃ e, alignedStart ⟨1, .calendar .millennia⟩ .utc .previous ⟨⟨firstNanos, false⟩, by decide⟩ = .error e) ∧
        (⟨1, .millennia, by decide⟩ : CalendarStep).BeginsOutside c := by
  have usable : (⟨1, .calendar .millennia⟩ : Period).amount = .ok (.calendar ⟨1, .millennia, by decide⟩) := rfl
  obtain ⟨c, shows, previous, -⟩ := alignedStart_fails_iff usable ⟨⟨firstNanos, false⟩, by decide⟩
  have failed : ∃ e,
      alignedStart ⟨1, .calendar .millennia⟩ .utc .previous ⟨⟨firstNanos, false⟩, by decide⟩ = .error e :=
    ⟨_, rfl⟩
  obtain outside | ⟨divides, -⟩ := previous.mp failed
  · exact ⟨usable, c, shows, failed, outside⟩
  · cases divides.1

/-- The last quarter begins in the calendar. It is not found from its begin, in either direction. -/
theorem last_quarter_is_not_found :
    (⟨3, .calendar .months⟩ : Period).amount = .ok (.calendar ⟨3, .months, by decide⟩) ∧
      (∃ c, Zone.utc.toCivil lastQuarter = .ok c ∧ (⟨3, .months, by decide⟩ : CalendarStep).IsBoundary c) ∧
      alignedStart ⟨3, .calendar .months⟩ .utc .previous lastQuarter =
        .error (.overflow (.align lastQuarter ⟨3, .calendar .months⟩)) ∧
      alignedStart ⟨3, .calendar .months⟩ .utc .next lastQuarter =
        .error (.overflow (.align lastQuarter ⟨3, .calendar .months⟩)) :=
  ⟨rfl, ⟨⟨lastQuarter.toMoment, lastQuarter.inRange⟩, Zone.toCivil_utc lastQuarter, rfl, by decide,
    show lastQuarter.date.day = 1 by decide +kernel, fun _ => by decide +kernel⟩, by decide +kernel, by decide +kernel⟩

end Period

end Cadence
