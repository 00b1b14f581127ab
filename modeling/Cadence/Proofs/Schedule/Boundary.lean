import Mathlib.Order.Bounds.Basic
import Cadence.Proofs.Schedule.Stretch
import Cadence.Proofs.Zone.Conversion
import Cadence.Schedule.Align

/-!
Boundaries of calendar periods. They are the midnights that begin the stretches of one move
(`CalendarStep.isBoundary_iff`), and a step goes over a number of stretches. What is found as the boundary of a local
time is the last one that is not after it (`CalendarStep.isGreatest_boundary`), and the midnight of the next stretch
is the first one after it (`CalendarStep.isLeast_boundary`). Where the clock is never turned this carries over to
instants (`Period.alignedStart_onBoundary`).
-/

namespace Cadence

open Calendar

namespace CalendarStep

variable {step : CalendarStep} {p : Period} {base : Instant} {b c m s : CivilTime} {k : Int}

def DividesYear (step : CalendarStep) : Prop := step.unit = .months ∧ step.factor ∈ [2, 3, 4, 6, 12]

/-- A boundary of the step in local time: the first midnight of a unit. Months that divide the year are counted from
January. -/
structure IsBoundary (step : CalendarStep) (c : CivilTime) : Prop where
  ordinary : c.leap = false
  midnight : c.timeOfDay = 0
  begins : step.unit.Begins c.date
  counted : step.DividesYear → (c.date.month - 1) % step.factor = 0

def grid (step : CalendarStep) : DateMove :=
  if TimeUnit.isAligned step.factor (.calendar step.unit) then step.move true else step.unit.move

def stride (step : CalendarStep) : Int :=
  if TimeUnit.isAligned step.factor (.calendar step.unit) then 1 else step.factor

theorem grid_isForward (step : CalendarStep) : step.grid.IsForward := by
  rw [grid]
  split
  · exact step.move_isForward
  · exact step.unit.move_isForward

theorem stride_pos (step : CalendarStep) : 0 < step.stride := by
  have positive := step.factor_pos
  rw [stride]
  split <;> omega

theorem move_eq (step : CalendarStep) : step.move true = step.grid.scale step.stride := by
  simp only [grid, stride]
  split
  · cases step.move true <;> simp [DateMove.scale]
  · rfl

theorem isAligned_iff : TimeUnit.isAligned step.factor (.calendar step.unit) = true ↔ step.DividesYear := by
  obtain ⟨factor, unit, positive⟩ := step
  have all : ∀ factor < 13, TimeUnit.isAligned factor (.calendar .months) = true ↔
      factor ∈ [2, 3, 4, 6, 12] := by decide
  constructor
  · intro aligned
    have small : factor ≤ (TimeUnit.calendar unit).alignmentBase := TimeUnit.isAligned_le_base aligned
    cases unit with
    | months => exact ⟨rfl, (all factor (Nat.lt_succ_of_le small)).mp aligned⟩
    | _ =>
      simp only [TimeUnit.isAligned, TimeUnit.alignmentBase, Bool.and_eq_true, decide_eq_true_eq] at aligned small
      omega
  · rintro ⟨rfl, divides⟩
    have small : ∀ factor ∈ [2, 3, 4, 6, 12], factor < 13 := by decide
    exact (all factor (small factor divides)).mpr divides

theorem grid_of_dividesYear (divides : step.DividesYear) : step.grid = .months step.factor := by
  rw [grid, if_pos (isAligned_iff.mpr divides), move, divides.1, if_pos rfl, CalendarUnit.move, DateMove.scale,
    Int.mul_one]

theorem factor_cases (divides : step.DividesYear) :
    step.factor = 2 ∨ step.factor = 3 ∨ step.factor = 4 ∨ step.factor = 6 ∨ step.factor = 12 := by
  simpa using divides.2

theorem begins_counted_iff {day : Int} : (step.unit.Begins (Date.ofDayNumber day) ∧
      (step.DividesYear → ((Date.ofDayNumber day).month - 1) % step.factor = 0)) ↔
    ∃ k, day = step.grid.startDay k := by
  by_cases divides : step.DividesYear
  · rw [grid_of_dividesYear divides, DateMove.eq_startDay_months_iff, divides.1]
    refine and_congr Iff.rfl ⟨fun counted => ?_, fun whole _ => ?_⟩
    · have zero := counted divides
      simp only [Date.monthIndex]
      rcases factor_cases divides with h | h | h | h | h <;> rw [h] at zero ⊢ <;> omega
    · simp only [Date.monthIndex] at whole
      rcases factor_cases divides with h | h | h | h | h <;> rw [h] at whole ⊢ <;> omega
  · rw [CalendarUnit.begins_iff, grid, if_neg (mt isAligned_iff.mp divides)]
    exact and_iff_left fun yes => absurd yes divides

theorem isBoundary_iff : step.IsBoundary c ↔ ∃ k, CivilTime.midnight? (step.grid.startDay k) = some c := by
  constructor
  · rintro ⟨ordinary, midnight, begins, counted⟩
    obtain ⟨k, day⟩ := begins_counted_iff.mp ⟨begins, counted⟩
    have here := CivilTime.midnight?_dayNumber_iff.mpr ⟨ordinary, midnight⟩
    rw [day] at here
    exact ⟨k, here⟩
  · rintro ⟨k, here⟩
    have day := CivilTime.dayNumber_of_midnight? here
    rw [← day, CivilTime.midnight?_dayNumber_iff] at here
    obtain ⟨begins, counted⟩ := begins_counted_iff.mpr ⟨k, day⟩
    exact ⟨here.1, here.2, begins, counted⟩

/-- A walk from boundary to boundary ends with the one that begins the stretch of the given time. It arrives there
only if the calendar has another boundary behind it. -/
theorem lastBoundary?_eq_some_iff (divides : step.DividesYear)
    (start : CivilTime.midnight? (step.grid.startDay k) = some b) (reached : step.grid.startDay k ≤ c.dayNumber) :
    c.lastBoundary? step b = some s ↔
      CivilTime.midnight? (step.grid.startDay (step.grid.stretch c.dayNumber)) = some s ∧
        ∃ m, CivilTime.midnight? (step.grid.startDay (step.grid.stretch c.dayNumber + 1)) = some m := by
  have moves : ∀ b k, CivilTime.midnight? (step.grid.startDay k) = some b →
      b.move? (step.move true) = CivilTime.midnight? (step.grid.startDay (k + 1)) := by
    intro b k start
    rw [step.move_eq, stride, if_pos (isAligned_iff.mpr divides)]
    exact CivilTime.move?_midnight start 1
  have forward := step.grid_isForward
  induction b using CivilTime.lastBoundary?.induct c step generalizing k with
  | case1 b none =>
    rw [CivilTime.lastBoundary?, none]
    rw [moves b k start] at none
    refine iff_of_false (by simp) ?_
    -- The next boundary is not after the one behind the given time, so if that is in the calendar, it is too.
    rintro ⟨-, behind⟩
    have low := (CivilTime.exists_midnight?_iff.mp ⟨b, start⟩).1
    have high := (CivilTime.exists_midnight?_iff.mp behind).2
    have after := (step.grid.startDay_stretch forward c.dayNumber).2
    have place := (DateMove.startDay_lt_iff forward (k := k)).mp (Int.lt_of_le_of_lt reached after)
    have next := (DateMove.startDay_lt_iff forward (k := k) (l := k + 1)).mpr (by omega)
    have last := (DateMove.startDay_lt_iff forward (k := step.grid.stretch c.dayNumber + 1) (l := k + 1)).not.mpr
      (by omega)
    obtain ⟨m, found⟩ := CivilTime.exists_midnight?_iff.mpr
      ⟨show firstDay ≤ step.grid.startDay (k + 1) by omega, by omega⟩
    rw [none] at found
    cases found
  | case2 b next found past =>
    rw [CivilTime.lastBoundary?, found]
    rw [moves b k start] at found
    have last := (CivilTime.lt_midnight_iff found).mp past
    rw [← DateMove.eq_stretch forward reached last, start, found]
    simp only [past, dif_pos, Option.some.injEq, exists_eq', and_true]
  | case3 b next found past ih =>
    rw [CivilTime.lastBoundary?, found]
    simp only [past, dif_neg, not_false_eq_true]
    rw [moves b k start] at found
    exact ih found (Int.not_lt.mp (mt (CivilTime.lt_midnight_iff found).mpr past))

theorem exists_yearStart (c : CivilTime) : ∃ b, CivilTime.midnight?
    (CalendarUnit.years.move.startDay (CalendarUnit.years.move.stretch c.dayNumber)) = some b := by
  have forward := CalendarUnit.years.move_isForward
  obtain ⟨low, high⟩ := CalendarUnit.years.move.startDay_stretch forward c.dayNumber
  obtain ⟨begun, ends⟩ := c.dayNumber_bounds
  -- The calendar begins with a year.
  have first : CalendarUnit.years.move.startDay (-262143) = firstDay := by decide
  rw [← first] at begun
  have after := (DateMove.startDay_lt_iff forward).mp (Int.lt_of_le_of_lt begun high)
  have inside := (DateMove.startDay_lt_iff forward (k := CalendarUnit.years.move.stretch c.dayNumber)
    (l := -262143)).not.mpr (by omega)
  exact CivilTime.exists_midnight?_iff.mpr ⟨by omega, by omega⟩

theorem calendarBoundary_eq_ok_iff (usable : p.amount = .ok (.calendar step)) :
    p.calendarBoundary step base c = .ok s ↔
      CivilTime.midnight? (step.grid.startDay (step.grid.stretch c.dayNumber)) = some s ∧
        (step.DividesYear →
          ∃ m, CivilTime.midnight? (step.grid.startDay (step.grid.stretch c.dayNumber + 1)) = some m) := by
  obtain ⟨factor, unit⟩ := Period.amount_eq_calendar usable
  by_cases divides : step.DividesYear
  · have counted : p.outer? = some (.calendar .years) := by
      rw [Period.outer?, factor, unit, if_pos (isAligned_iff.mpr divides), divides.1]
      rfl
    obtain ⟨start, first⟩ := exists_yearStart c
    have truncated := CivilTime.truncate_eq_ok_iff.mpr first
    -- The year begins on a boundary, too.
    obtain ⟨k, same⟩ : ∃ k, CalendarUnit.years.move.startDay (CalendarUnit.years.move.stretch c.dayNumber) =
        step.grid.startDay k := by
      rw [grid_of_dividesYear divides]
      simp only [CalendarUnit.move, DateMove.startDay]
      generalize DateMove.stretch (.months 12) c.dayNumber = year
      rcases factor_cases divides with h | h | h | h | h <;> rw [h]
      · exact ⟨6 * year, congrArg _ (by omega)⟩
      · exact ⟨4 * year, congrArg _ (by omega)⟩
      · exact ⟨3 * year, congrArg _ (by omega)⟩
      · exact ⟨2 * year, congrArg _ (by omega)⟩
      · exact ⟨year, congrArg _ (by omega)⟩
    have reached := (CalendarUnit.years.move.startDay_stretch CalendarUnit.years.move_isForward c.dayNumber).1
    rw [same] at first reached
    rw [Period.calendarBoundary_of_outer counted, truncated]
    simp only [Except.ok.injEq, exists_eq_left', lastBoundary?_eq_some_iff divides first reached, divides, true_imp_iff]
  · have uncounted : p.outer? = none := by rw [Period.outer?, factor, unit, if_neg (mt isAligned_iff.mp divides)]
    rw [Period.calendarBoundary_of_not_outer uncounted, unit, CivilTime.truncate_eq_ok_iff, grid,
      if_neg (mt isAligned_iff.mp divides)]
    exact (and_iff_left fun yes => absurd yes divides).symm

theorem midnight?_of_calendarBoundary (usable : p.amount = .ok (.calendar step))
    (h : p.calendarBoundary step base c = .ok s) :
    CivilTime.midnight? (step.grid.startDay (step.grid.stretch c.dayNumber)) = some s :=
  ((calendarBoundary_eq_ok_iff usable).mp h).1

theorem isGreatest_boundary (h : CivilTime.midnight? (step.grid.startDay (step.grid.stretch c.dayNumber)) = some s) :
    IsGreatest {b | step.IsBoundary b ∧ b ≤ c} s := by
  obtain ⟨low, high⟩ := step.grid.startDay_stretch step.grid_isForward c.dayNumber
  refine ⟨⟨isBoundary_iff.mpr ⟨_, h⟩, (CivilTime.midnight_le_iff h).mpr low⟩, ?_⟩
  rintro b ⟨boundary, before⟩
  obtain ⟨k, here⟩ := isBoundary_iff.mp boundary
  have le := (CivilTime.midnight_le_iff here).mp before
  have stretch := (DateMove.startDay_lt_iff step.grid_isForward (k := k)).mp (Int.lt_of_le_of_lt le high)
  rw [CivilTime.midnight_le_iff here, CivilTime.dayNumber_of_midnight? h]
  apply Int.not_lt.mp
  rw [DateMove.startDay_lt_iff step.grid_isForward]
  omega

theorem isLeast_boundary (h : CivilTime.midnight? (step.grid.startDay (step.grid.stretch c.dayNumber + 1)) = some m) :
    IsLeast {b | step.IsBoundary b ∧ c < b} m := by
  obtain ⟨low, high⟩ := step.grid.startDay_stretch step.grid_isForward c.dayNumber
  refine ⟨⟨isBoundary_iff.mpr ⟨_, h⟩, (CivilTime.lt_midnight_iff h).mpr high⟩, ?_⟩
  rintro b ⟨boundary, after⟩
  obtain ⟨k, here⟩ := isBoundary_iff.mp boundary
  have less := (CivilTime.lt_midnight_iff here).mp after
  have stretch := (DateMove.startDay_lt_iff step.grid_isForward (l := k)).mp (Int.lt_of_le_of_lt low less)
  rw [CivilTime.midnight_le_iff h, CivilTime.dayNumber_of_midnight? here]
  apply Int.not_lt.mp
  rw [DateMove.startDay_lt_iff step.grid_isForward]
  omega

theorem lt_of_move?_boundary (h : CivilTime.midnight? (step.grid.startDay (step.grid.stretch c.dayNumber)) = some s)
    (moved : s.move? (step.move true) = some m) : step.IsBoundary m ∧ c < m := by
  rw [step.move_eq, CivilTime.move?_midnight h] at moved
  have high := (step.grid.startDay_stretch step.grid_isForward c.dayNumber).2
  have further : step.grid.stretch c.dayNumber + 1 ≤ step.grid.stretch c.dayNumber + step.stride := by
    have := step.stride_pos
    omega
  refine ⟨isBoundary_iff.mpr ⟨_, moved⟩, (CivilTime.lt_midnight_iff moved).mpr ?_⟩
  have later := (DateMove.startDay_lt_iff step.grid_isForward (l := step.grid.stretch c.dayNumber + 1)
    (k := step.grid.stretch c.dayNumber + step.stride)).not.mpr (by omega)
  omega

theorem isBoundary_iff_eq (greatest : IsGreatest {b | step.IsBoundary b ∧ b ≤ c} s) : step.IsBoundary c ↔ s = c := by
  constructor
  · intro boundary
    exact CivilTime.le_antisymm greatest.1.2 (greatest.2 ⟨boundary, Int.le_refl c.rank⟩)
  · rintro rfl
    exact greatest.1.1

end CalendarStep

namespace Period

variable {p : Period} {step : CalendarStep} {zone : Zone} {base i : Instant}

/-- Where the clock is never turned, calendar periods are aligned to their boundaries. The previous one is the last that
is not after the base. The next one is the base, if that is a boundary, else the previous one moved by a step, which is
the first boundary after the base if the factor is 1 or divides the year. -/
theorem alignedStart_onBoundary [Host] (plain : zone.IsPlain) (usable : p.amount = .ok (.calendar step))
    (base : Instant) :
    (∀ i, p.alignedStart zone .previous base = .ok i → ∃ c s, zone.toCivil base = .ok c ∧ zone.toCivil i = .ok s ∧
      IsGreatest {b | step.IsBoundary b ∧ b ≤ c} s) ∧
    (∀ i, p.alignedStart zone .next base = .ok i → ∃ c n, zone.toCivil base = .ok c ∧ zone.toCivil i = .ok n ∧
      (step.IsBoundary c → i = base) ∧
      (¬ step.IsBoundary c →
        (∃ s, IsGreatest {b | step.IsBoundary b ∧ b ≤ c} s ∧ s.move? (step.move true) = some n) ∧
        (step.factor = 1 ∨ step.DividesYear → IsLeast {b | step.IsBoundary b ∧ c < b} n))) := by
  constructor
  · intro i found
    obtain ⟨c, s, b, shows, aligned, same, back⟩ := (alignedStart_calendar_eq_ok_iff usable).mp found
    rw [if_neg (by simp)] at same
    subst same
    exact ⟨c, b, shows, plain.toCivil_of_fromCivil back,
      CalendarStep.isGreatest_boundary (CalendarStep.midnight?_of_calendarBoundary usable aligned)⟩
  · intro i found
    obtain ⟨c, s, n, shows, aligned, moved, back⟩ := (alignedStart_calendar_eq_ok_iff usable).mp found
    have first := CalendarStep.midnight?_of_calendarBoundary usable aligned
    have greatest := CalendarStep.isGreatest_boundary first
    have there := plain.toCivil_of_fromCivil back
    refine ⟨c, n, shows, there, fun boundary => ?_, fun between => ?_⟩
    · have same := (CalendarStep.isBoundary_iff_eq greatest).mp boundary
      rw [if_neg (by simp [same])] at moved
      rw [moved, same] at there
      exact plain.eq_of_toCivil there shows
    · have differ : s ≠ c := mt (CalendarStep.isBoundary_iff_eq greatest).mpr between
      rw [if_pos ⟨rfl, differ⟩] at moved
      refine ⟨⟨s, greatest, moved⟩, fun one => ?_⟩
      have stride : step.stride = 1 := by
        rw [CalendarStep.stride]
        split
        · rfl
        · rename_i unaligned
          rw [one.resolve_right (mt CalendarStep.isAligned_iff.mpr unaligned)]
          rfl
      rw [step.move_eq, stride, CivilTime.move?_midnight first] at moved
      exact CalendarStep.isLeast_boundary moved

def twoHoursEast : Zone := .fixed ⟨7200, by decide⟩

def summerNight : Instant := ⟨⟨1534892721000000000, false⟩, by decide⟩

theorem quarters_two_hours_east :
    twoHoursEast.IsPlain ∧
      (⟨3, .calendar .months⟩ : Period).amount = .ok (.calendar ⟨3, .months, by decide⟩) ∧
      (∃ c s, twoHoursEast.toCivil summerNight = .ok c ∧
        twoHoursEast.toCivil ⟨⟨1530396000000000000, false⟩, by decide⟩ = .ok s ∧
        IsGreatest {b | (⟨3, .months, by decide⟩ : CalendarStep).IsBoundary b ∧ b ≤ c} s) ∧
      ∃ c n, twoHoursEast.toCivil summerNight = .ok c ∧
        twoHoursEast.toCivil ⟨⟨1538344800000000000, false⟩, by decide⟩ = .ok n ∧
        IsLeast {b | (⟨3, .months, by decide⟩ : CalendarStep).IsBoundary b ∧ c < b} n := by
  have plain : twoHoursEast.IsPlain := Zone.isPlain_fixed _
  have usable : (⟨3, .calendar .months⟩ : Period).amount = .ok (.calendar ⟨3, .months, by decide⟩) := rfl
  have july : (alignedStart ⟨3, .calendar .months⟩ twoHoursEast .previous summerNight).toOption =
      some ⟨⟨1530396000000000000, false⟩, by decide⟩ := by decide +kernel
  have october : (alignedStart ⟨3, .calendar .months⟩ twoHoursEast .next summerNight).toOption =
      some ⟨⟨1538344800000000000, false⟩, by decide⟩ := by decide +kernel
  obtain ⟨previous, next⟩ := alignedStart_onBoundary plain usable summerNight
  obtain ⟨c, n, shows, there, -, after⟩ := next _ (toOption_eq_some.mp october)
  have between : ¬ (⟨3, .months, by decide⟩ : CalendarStep).IsBoundary c := by
    intro boundary
    have midnight := boundary.midnight
    rw [Zone.toCivil_moment shows] at midnight
    exact absurd midnight (by decide)
  exact ⟨plain, usable, previous _ (toOption_eq_some.mp july), c, n, shows, there,
    (after between).2 (.inr ⟨rfl, by decide⟩)⟩

end Period

end Cadence
