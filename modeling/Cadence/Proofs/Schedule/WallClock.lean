import Cadence.Proofs.Zone.Shown
import Cadence.Schedule.Shift

/-!
What the clock on the wall shows at the occurrences of a schedule of days or weeks. As long as the clock shows the time
of day on every date of the schedule, all occurrences have that time, whatever the offsets do in between
(`Amount.timeOfDay_afterMany`). A time that was skipped on one date moves forward on that date, and each occurrence
follows from the one before: the moved time is the one that the later occurrences keep, although the clock shows the
original time again (`Amount.skipped_time_is_not_restored`).
-/

namespace Cadence

open Calendar

namespace Moment

theorem dayNumber_onDay (day : Int) (m : Moment) : (m.onDay day).dayNumber = day := by
  have bounds := m.timeOfDay_bounds
  simp only [onDay, dayNumber, nanosPerDay] at *
  omega

theorem onDay_onDay (m : Moment) (first second : Int) : (m.onDay first).onDay second = m.onDay second := by
  rw [onDay, timeOfDay_onDay]
  rfl

end Moment

def CalendarStep.days? (step : CalendarStep) : Option Int :=
  match step.unit with
  | .days => some step.factor
  | .weeks => some (step.factor * 7)
  | _ => none

theorem CalendarStep.move_of_days? {step : CalendarStep} {n : Int} (h : step.days? = some n) :
    step.move true = .days n := by
  obtain ⟨factor, unit, positive⟩ := step
  cases unit <;> simp only [days?, Option.some.injEq, reduceCtorEq] at h
  · rw [move, CalendarUnit.move, DateMove.scale, if_pos rfl, Int.mul_one, h]
  · rw [move, CalendarUnit.move, DateMove.scale, if_pos rfl, h]

namespace Amount

variable {zone : Zone} {amount : Amount} {step : CalendarStep} {i next start m : Instant} {c : CivilTime} {n : Int}

def afterMany [Host] (zone : Zone) (amount : Amount) : Nat → Instant → Except Error Instant
  | 0, i => .ok i
  | count + 1, i => afterMany zone amount count i >>= after zone amount

theorem afterMany_succ_eq_ok_iff [Host] {count : Nat} : afterMany zone amount (count + 1) start = .ok i ↔
    ∃ previous, afterMany zone amount count start = .ok previous ∧ after zone amount previous = .ok i := by
  rw [afterMany]
  cases afterMany zone amount count start with
  | error e => simp [bind, Except.bind]
  | ok previous => simp [bind, Except.bind]

/-- One step keeps a time of day that the clock shows on the date to which it leads. -/
theorem toCivil_after [Host] (regular : zone.IsRegular) (days : step.days? = some n) (shown : zone.toCivil i = .ok c)
    (exists_next : zone.Shows (c.onDay (c.dayNumber + n))) (h : after zone (.calendar step) i = .ok next) :
    ∃ d, zone.toCivil next = .ok d ∧ d.toMoment = c.onDay (c.dayNumber + n) := by
  simp only [after, shift, shown, CalendarStep.move_of_days? days, CivilTime.move?, bind, Except.bind] at h
  split at h
  · rename_i d moved
    have place : d.toMoment = c.onDay (c.dayNumber + n) := CivilTime.ofMoment?_eq_some.mp moved
    rw [← place] at exists_next
    exact ⟨d, regular.toCivil_of_fromCivil exists_next h, place⟩
  · cases h

/-- From an occurrence `m` on, which may be the start itself, every occurrence has the time of day of `m` as long as the
clock shows that time on each of their dates. -/
theorem timeOfDay_afterMany [Host] (regular : zone.IsRegular) (days : step.days? = some n) {j k : Nat}
    (reached : afterMany zone (.calendar step) j start = .ok m) (shown : zone.toCivil m = .ok c)
    (exist : ∀ l : Nat, 1 ≤ l → l ≤ k → zone.Shows (c.onDay (c.dayNumber + l * n)))
    (h : afterMany zone (.calendar step) (j + k) start = .ok i) :
    ∃ d, zone.toCivil i = .ok d ∧ d.toMoment = c.onDay (c.dayNumber + k * n) ∧ d.timeOfDay = c.timeOfDay := by
  suffices kept : ∃ d, zone.toCivil i = .ok d ∧ d.toMoment = c.onDay (c.dayNumber + k * n) by
    obtain ⟨d, now, place⟩ := kept
    exact ⟨d, now, place, by rw [place, Moment.timeOfDay_onDay]⟩
  induction k generalizing i with
  | zero =>
    cases reached.symm.trans h
    exact ⟨c, shown, by rw [Int.ofNat_zero, Int.zero_mul, Int.add_zero, Moment.onDay_dayNumber]⟩
  | succ k ih =>
    obtain ⟨previous, before, led⟩ := afterMany_succ_eq_ok_iff.mp h
    obtain ⟨d, now, place⟩ := ih (fun l low high => exist l low (Nat.le_succ_of_le high)) before
    have target : d.onDay (d.dayNumber + n) = c.onDay (c.dayNumber + (k + 1 : Nat) * n) := by
      rw [place, Moment.dayNumber_onDay, Moment.onDay_onDay, Int.natCast_succ, Int.add_mul, Int.one_mul, Int.add_assoc]
    rw [← target]
    exact toCivil_after regular days now (target ▸ exist (k + 1) (Nat.le_add_left 1 k) (Nat.le_refl _)) led

theorem inRange_march2021 (day : Fin 32) (hour : Fin 24) (minute : Fin 60) :
    InRange ((18686 + day.val) * nanosPerDay + (hour.val * 60 + minute.val) * 60000000000) := by
  simp only [InRange, firstNanos, lastNanos, nanosPerDay]
  omega

def march2021 (day : Fin 32) (hour : Fin 24) (minute : Fin 60) : Instant :=
  ⟨⟨(18686 + day.val) * nanosPerDay + (hour.val * 60 + minute.val) * 60000000000, false⟩,
    inRange_march2021 day hour minute⟩

def onWall (i : Instant) : CivilTime := ⟨i.toMoment, i.inRange⟩

def daily : CalendarStep := ⟨1, .days, by decide⟩

theorem noon_in_berlin :
    (afterMany (.region .berlin) (.calendar daily) 2 (march2021 27 11 0)).toOption = some (march2021 29 10 0) ∧
      ∃ d, Zone.toCivil (.region .berlin) (march2021 29 10 0) = .ok d ∧
        d.toMoment = (onWall (march2021 27 12 0)).onDay ((onWall (march2021 27 12 0)).dayNumber + (2 : Nat) * 1) ∧
        d.timeOfDay = (onWall (march2021 27 12 0)).timeOfDay := by
  have led : (afterMany (.region .berlin) (.calendar daily) 2 (march2021 27 11 0)).toOption =
      some (march2021 29 10 0) := by
    decide +kernel
  have shown : (Zone.toCivil (.region .berlin) (march2021 27 11 0)).toOption = some (onWall (march2021 27 12 0)) := by
    decide +kernel
  have sunday : (Zone.toCivil (.region .berlin) (march2021 28 10 0)).toOption = some (onWall (march2021 28 12 0)) := by
    decide +kernel
  have monday : (Zone.toCivil (.region .berlin) (march2021 29 10 0)).toOption = some (onWall (march2021 29 12 0)) := by
    decide +kernel
  have noons : ∀ l : Nat, 1 ≤ l → l ≤ 2 → Zone.Shows (.region .berlin)
      ((onWall (march2021 27 12 0)).onDay ((onWall (march2021 27 12 0)).dayNumber + l * 1)) := by
    intro l low high
    obtain rfl | rfl : l = 1 ∨ l = 2 := by omega
    · exact ⟨_, _, toOption_eq_some.mp sunday, by decide +kernel⟩
    · exact ⟨_, _, toOption_eq_some.mp monday, by decide +kernel⟩
  have regular : Zone.IsRegular (.region .berlin) := by decide +kernel
  exact ⟨led, timeOfDay_afterMany (j := 0) (n := 1) regular rfl rfl (toOption_eq_some.mp shown) noons
    (toOption_eq_some.mp led)⟩

theorem skipped_time_is_not_restored :
    (Zone.toCivil (.region .berlin) (march2021 27 1 30)).toOption = some (onWall (march2021 27 2 30)) ∧
      (afterMany (.region .berlin) (.calendar daily) 2 (march2021 27 1 30)).toOption = some (march2021 29 1 30) ∧
      (Zone.toCivil (.region .berlin) (march2021 29 1 30)).toOption = some (onWall (march2021 29 3 30)) ∧
      (Zone.toCivil (.region .berlin) (march2021 29 0 30)).toOption = some (onWall (march2021 29 2 30)) ∧
      (onWall (march2021 29 3 30)).timeOfDay ≠ (onWall (march2021 27 2 30)).timeOfDay := by
  decide +kernel

end Amount

end Cadence
