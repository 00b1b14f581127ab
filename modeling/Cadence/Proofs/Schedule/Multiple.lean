import Mathlib.Order.Bounds.Basic
import Cadence.Schedule.Align
import Cadence.Proofs.Zone.Resolve
import Cadence.Proofs.Schedule.Walk

/-!
Alignment to clock units in closed form. The boundaries of a clock period are the multiples of a number of nanoseconds,
counted from the start of 1970: of the period where its factor divides the coarser unit, else of its unit. To go back to
the start of the coarser unit and to walk on from there leads to the last multiple (`Instant.lastBoundary?_eq`), as one
division does (`Instant.isGreatest_of_lastMultiple`). On the way back a leap second is counted like the second after it.
So if an interval of the unit ends with a leap second, its begin is taken for the begin of the next interval.
-/

namespace Cadence

open Calendar

namespace ClockUnit

def nanos (u : ClockUnit) : Int := u.millisecondCount * nanosPerMilli

/-- What the boundaries of a period are multiples of. -/
def spacing (u : ClockUnit) (factor : Nat) : Int :=
  if TimeUnit.isAligned factor (.clock u) then factor * u.nanos else u.nanos

end ClockUnit

inductive IsGauge (width : Int) : Prop
  | fine (positive : 0 < width) (divides : width ∣ nanosPerSecond)
  | coarse (several : nanosPerSecond < width) (whole : nanosPerSecond ∣ width)

theorem IsGauge.pos {width : Int} (gauge : IsGauge width) : 0 < width := by
  cases gauge with
  | fine positive _ => exact positive
  | coarse several _ => exact Int.lt_trans (by decide) several

theorem IsGauge.whole {width : Int} (gauge : IsGauge width) (several : nanosPerSecond < width) :
    nanosPerSecond ∣ width := by
  cases gauge with
  | fine _ divides => exact absurd (Int.le_of_dvd (by decide) divides) (Int.not_le.mpr several)
  | coarse _ whole => exact whole

namespace Moment

variable {m n : Moment} {width : Int}

/-- Lies a whole number of widths from the start of 1970. A leap second is divided like any other second, but no
interval of several seconds begins with it. -/
def IsMultiple (width : Int) (m : Moment) : Prop := m.nanos % width = 0 ∧ (m.leap = true → width ≤ nanosPerSecond)

instance (width : Int) (m : Moment) : Decidable (m.IsMultiple width) := inferInstanceAs (Decidable (_ ∧ _))

def lastMultiple (width : Int) (m : Moment) : Moment :=
  ⟨m.nanos - m.nanos % width, m.leap && decide (width ≤ nanosPerSecond)⟩

/-- Lies in a leap second with which an interval of several seconds ends. -/
def EndsInterval (width : Int) (m : Moment) : Prop :=
  m.leap = true ∧ nanosPerSecond < width ∧ (m.seconds + 1) * nanosPerSecond % width = 0

theorem lastMultiple_of_fine (fine : width ∣ nanosPerSecond) :
    m.lastMultiple width = ⟨m.nanos - m.nanos % width, m.leap⟩ := by
  have short : width ≤ nanosPerSecond := Int.le_of_dvd (by decide) fine
  simp only [lastMultiple, short, decide_true, Bool.and_true]

theorem leap_lastMultiple (fine : width ∣ nanosPerSecond) : (m.lastMultiple width).leap = m.leap := by
  rw [lastMultiple_of_fine fine]

theorem lastMultiple_of_coarse (several : nanosPerSecond < width) :
    m.lastMultiple width = ⟨m.nanos - m.nanos % width, false⟩ := by
  simp only [lastMultiple, Int.not_le.mpr several, decide_false, Bool.and_false]

theorem emod_le_nanosOfSecond (positive : 0 < width) (fine : width ∣ nanosPerSecond) (m : Moment) :
    0 ≤ m.nanos % width ∧ m.nanos % width ≤ m.nanosOfSecond := by
  have rest := Int.mul_ediv_add_emod m.nanosOfSecond width
  have quotient := Int.mul_nonneg (Int.le_of_lt positive)
    (Int.ediv_nonneg m.nanosOfSecond_bounds.1 (Int.le_of_lt positive))
  rw [nanosOfSecond, Int.emod_emod_of_dvd m.nanos fine, ← nanosOfSecond] at rest
  exact ⟨Int.emod_nonneg _ (Int.ne_of_gt positive), by omega⟩

theorem seconds_lastMultiple (positive : 0 < width) (fine : width ∣ nanosPerSecond) :
    (m.lastMultiple width).seconds = m.seconds := by
  have rest := emod_le_nanosOfSecond positive fine m
  rw [lastMultiple_of_fine fine]
  simp only [seconds, nanosOfSecond, nanosPerSecond] at *
  omega

theorem isMultiple_lastMultiple : (m.lastMultiple width).IsMultiple width :=
  ⟨Int.emod_eq_zero_of_dvd Int.dvd_self_sub_emod, fun marked => of_decide_eq_true (Bool.and_eq_true_iff.mp marked).2⟩

theorem rank_le_iff_of_whole (ordinary : n.leap = false) (whole : nanosPerSecond ∣ n.nanos) :
    n.rank ≤ m.rank ↔ n.nanos ≤ m.nanos := by
  have length := m.leapNanos_bounds
  simp only [rank, leapNanos, ordinary, seconds, nanosPerSecond, Bool.false_eq_true, if_false] at *
  omega

theorem rank_lastMultiple_le (gauge : IsGauge width) : (m.lastMultiple width).rank ≤ m.rank := by
  have rest := Int.emod_nonneg m.nanos (Int.ne_of_gt gauge.pos)
  cases gauge with
  | fine positive divides =>
    rw [rank_le_iff_of_leap_eq (leap_lastMultiple divides), lastMultiple_of_fine divides]
    exact Int.sub_le_self _ rest
  | coarse several whole =>
    rw [lastMultiple_of_coarse several, rank_le_iff_of_whole rfl (Int.dvd_trans whole Int.dvd_self_sub_emod)]
    exact Int.sub_le_self _ rest

private theorem le_sub_emod {a b : Int} (positive : 0 < width) (whole : a % width = 0) (le : a ≤ b) :
    a ≤ b - b % width := by
  have quotients := Int.mul_le_mul_of_nonneg_left (Int.ediv_le_ediv positive le) (Int.le_of_lt positive)
  have split := Int.mul_ediv_add_emod a width
  have split' := Int.mul_ediv_add_emod b width
  omega

theorem rank_le_lastMultiple (gauge : IsGauge width) (multiple : n.IsMultiple width) (le : n.rank ≤ m.rank) :
    n.rank ≤ (m.lastMultiple width).rank := by
  cases gauge with
  | fine positive divides =>
    have same := seconds_lastMultiple (m := m) positive divides
    have marks := leap_lastMultiple (m := m) divides
    by_cases alike : n.leap = m.leap
    · rw [rank_le_iff_of_leap_eq alike] at le
      rw [rank_le_iff_of_leap_eq (alike.trans marks.symm), lastMultiple_of_fine divides]
      exact le_sub_emod positive multiple.1 le
    · -- One of them lies in a leap second, which is behind the second that it belongs to.
      have place := n.nanosOfSecond_bounds
      have place' := m.nanosOfSecond_bounds
      have place'' := (m.lastMultiple width).nanosOfSecond_bounds
      cases early : n.leap <;> cases late : m.leap <;>
        simp only [rank, leapNanos, early, late, marks, seconds, nanosOfSecond, nanosPerSecond, not_true_eq_false,
          Bool.false_eq_true, if_true, if_false] at * <;> omega
  | coarse several whole =>
    have ordinary : n.leap = false := by
      cases marked : n.leap with
      | false => rfl
      | true => exact absurd (multiple.2 marked) (Int.not_le.mpr several)
    have second := Int.dvd_trans whole (Int.dvd_of_emod_eq_zero multiple.1)
    rw [rank_le_iff_of_whole ordinary second] at le ⊢
    rw [lastMultiple_of_coarse several]
    exact le_sub_emod (Int.lt_trans (by decide) several) multiple.1 le

theorem shift_neg_within {a : Int} (back : 0 ≤ a ∧ a ≤ m.nanosOfSecond) :
    m.shift (-a) = ⟨m.nanos - a, m.leap⟩ := by
  have place := m.nanosOfSecond_bounds
  rw [shift, if_neg (by omega), decide_eq_true (by omega), Bool.and_true, Int.sub_eq_add_neg]

theorem nanos_shift_neg {a : Int} (m : Moment) :
    m.nanos - a ≤ (m.shift (-a)).nanos ∧ (m.shift (-a)).nanos ≤ m.nanos - a + nanosPerSecond := by
  have length := m.leapNanos_bounds
  rw [shift]
  split
  · simp only [stamp]
    omega
  · simp only [nanosPerSecond]
    omega

theorem stamp_emod_of_leap (marked : m.leap = true) (positive : 0 < width) (whole : nanosPerSecond ∣ width) :
    m.stamp % width = (m.seconds + 1) * nanosPerSecond % width + m.nanosOfSecond := by
  have place := m.nanosOfSecond_bounds
  have rest := Int.emod_nonneg ((m.seconds + 1) * nanosPerSecond) (Int.ne_of_gt positive)
  have below := Int.emod_lt_of_pos ((m.seconds + 1) * nanosPerSecond) positive
  have split := Int.mul_ediv_add_emod ((m.seconds + 1) * nanosPerSecond) width
  have seconds := Int.emod_emod_of_dvd ((m.seconds + 1) * nanosPerSecond) whole
  have count : m.stamp = (m.seconds + 1) * nanosPerSecond + m.nanosOfSecond := by
    simp only [stamp, leapNanos, marked, if_true, Moment.seconds, nanosOfSecond, nanosPerSecond]
    omega
  have short : (m.seconds + 1) * nanosPerSecond % width + m.nanosOfSecond < width := by
    simp only [nanosPerSecond] at *
    omega
  exact ((Int.ediv_emod_unique (q := (m.seconds + 1) * nanosPerSecond / width) positive).mpr
    ⟨by omega, by omega, short⟩).2

theorem shift_neg_rest_of_leap (marked : m.leap = true) (several : nanosPerSecond < width)
    (whole : nanosPerSecond ∣ width) (inside : (m.seconds + 1) * nanosPerSecond % width ≠ 0) :
    m.shift (-(m.stamp % width)) = ⟨m.nanos - m.nanos % width, false⟩ := by
  have positive : 0 < width := Int.lt_trans (by decide) several
  have count := stamp_emod_of_leap marked positive whole
  have ahead : m.stamp = m.nanos + nanosPerSecond := by simp [stamp, leapNanos, marked]
  have place := m.nanosOfSecond_bounds
  have second : nanosPerSecond ≤ (m.seconds + 1) * nanosPerSecond % width := by
    have rest := Int.emod_nonneg ((m.seconds + 1) * nanosPerSecond) (Int.ne_of_gt positive)
    have seconds := Int.emod_emod_of_dvd ((m.seconds + 1) * nanosPerSecond) whole
    simp only [nanosPerSecond] at *
    omega
  have earlier : m.nanos % width = m.stamp % width - nanosPerSecond := by
    have split := Int.mul_ediv_add_emod m.stamp width
    have below := Int.emod_lt_of_pos m.stamp positive
    exact ((Int.ediv_emod_unique (q := m.stamp / width) positive).mpr ⟨by omega, by omega, by omega⟩).2
  rw [shift, if_pos ⟨marked, by omega⟩, earlier]
  simp only [mk.injEq, and_true]
  omega

theorem shift_neg_rest (gauge : IsGauge width) (apart : ¬ m.EndsInterval width) :
    m.shift (-(m.stamp % width)) = m.lastMultiple width := by
  cases gauge with
  | fine positive divides =>
    have uncounted : m.stamp % width = m.nanos % width := by
      obtain ⟨count, second⟩ := divides
      simp only [stamp, leapNanos]
      split
      · rw [second, Int.add_mul_emod_self_left]
      · rw [Int.add_zero]
    rw [uncounted, shift_neg_within (emod_le_nanosOfSecond positive divides m), lastMultiple_of_fine divides]
  | coarse several whole =>
    rw [lastMultiple_of_coarse several]
    cases marked : m.leap with
    | false =>
      have uncounted : m.stamp = m.nanos := by simp [stamp, leapNanos, marked]
      rw [uncounted, shift_of_ordinary marked, Int.sub_eq_add_neg]
    | true => exact shift_neg_rest_of_leap marked several whole fun none => apart ⟨marked, several, none⟩

theorem shift_neg_rest_of_endsInterval (ends : m.EndsInterval width) (whole : nanosPerSecond ∣ width) :
    m.shift (-(m.stamp % width)) = ⟨m.seconds * nanosPerSecond, true⟩ := by
  obtain ⟨marked, several, boundary⟩ := ends
  have place := m.nanosOfSecond_bounds
  rw [stamp_emod_of_leap marked (Int.lt_trans (by decide) several) whole, boundary, Int.zero_add,
    shift_neg_within ⟨place.1, Int.le_refl _⟩, marked]
  simp only [mk.injEq, and_true, seconds, nanosOfSecond, nanosPerSecond]
  omega

end Moment

namespace TimeUnit

variable {unit : TimeUnit} {width : Int}

theorem width?_bounds (found : unit.width? = some width) : IsGauge width ∧ width ≤ nanosPerDay := by
  cases unit with
  | clock u =>
    cases u <;> cases found
    · exact ⟨.fine (by decide) (by decide), by decide⟩
    · exact ⟨.fine (by decide) (by decide), by decide⟩
    all_goals exact ⟨.coarse (by decide) (by decide), by decide⟩
  | calendar u =>
    cases u <;> cases found
    exact ⟨.coarse (by decide) (by decide), by decide⟩
  | eras => cases found
  | forever => cases found

end TimeUnit

namespace Instant

variable {base s : Instant} {step : Duration} {unit : TimeUnit} {width : Int}

theorem isGreatest_of_lastMultiple (gauge : IsGauge width) (place : s.toMoment = base.lastMultiple width) :
    IsGreatest {i : Instant | i.IsMultiple width ∧ i ≤ base} s := by
  refine ⟨⟨?_, ?_⟩, fun i known => ?_⟩
  · rw [place]
    exact Moment.isMultiple_lastMultiple
  · change s.rank ≤ base.rank
    rw [place]
    exact Moment.rank_lastMultiple_le gauge
  · change i.rank ≤ s.rank
    rw [place]
    exact Moment.rank_le_lastMultiple gauge known.1 known.2

theorem exists_truncate (found : unit.width? = some width) (fits : FitsWord base.stamp) :
    ∃ s, base.truncate unit = .ok s ∧ s.toMoment = base.shift (-(base.stamp % width)) := by
  obtain ⟨gauge, short⟩ := TimeUnit.width?_bounds found
  have rest := Int.emod_nonneg base.stamp (Int.ne_of_gt gauge.pos)
  have below := Int.emod_lt_of_pos base.stamp gauge.pos
  have place := base.nanos_shift_neg (a := base.stamp % width)
  have length := base.leapNanos_bounds
  have count : base.stamp = base.nanos + base.leapNanos := rfl
  have inside : InRange (base.shift (-(base.stamp % width))).nanos := by
    simp only [FitsWord, InRange, firstNanos, lastNanos, nanosPerSecond, nanosPerDay] at *
    omega
  have made : ofMoment? (base.shift (-(base.stamp % width))) = some ⟨_, inside⟩ := ofMoment?_eq_some.mpr rfl
  refine ⟨⟨_, inside⟩, ?_, rfl⟩
  simp only [truncate, found, floor?, if_pos fits, made]

theorem nanos_of_add? (base : Instant) {current next : Instant} (whole : nanosPerSecond ∣ step.nanos)
    (ordinary : current.leap = false) (second : nanosPerSecond ∣ current.nanos)
    (found : current.add? step = some next) :
    next.leap = false ∧ next.nanos = current.nanos + step.nanos ∧ nanosPerSecond ∣ next.nanos ∧
      (base < next ↔ base.nanos < next.nanos) := by
  have place := add?_eq_some.mp found
  rw [Moment.shift_of_ordinary ordinary] at place
  have later : next.leap = false := by rw [place]
  have nanos : next.nanos = current.nanos + step.nanos := by rw [place]
  have divides : nanosPerSecond ∣ next.nanos := nanos ▸ Int.dvd_add second whole
  refine ⟨later, nanos, divides, ?_⟩
  rw [← Int.not_le, ← Moment.rank_le_iff_of_whole later divides, Int.not_le]
  exact Iff.rfl

theorem lastBoundary?_eq (positive : 0 < step.nanos) (whole : nanosPerSecond ∣ step.nanos)
    (room : InRange (base.nanos + step.nanos)) {current : Instant} (ordinary : current.leap = false)
    (second : nanosPerSecond ∣ current.nanos) (reached : current.nanos ≤ base.nanos) :
    ∃ s, base.lastBoundary? step positive current = some s ∧
      s.toMoment = ⟨base.nanos - (base.nanos - current.nanos) % step.nanos, false⟩ := by
  induction current using lastBoundary?.induct base step positive with
  | case1 current none =>
    -- The next step is in the calendar, since a step after the base is.
    have out := ofMoment?_eq_none.mp none
    have low := current.inRange.1
    rw [Moment.shift_of_ordinary ordinary] at out
    simp only [InRange] at *
    omega
  | case2 current next found past =>
    obtain ⟨-, nanos, -, passes⟩ := nanos_of_add? base whole ordinary second found
    have ahead := passes.mp past
    refine ⟨current, ?_, ?_⟩
    · rw [lastBoundary?, found]
      simp only [past, dif_pos]
    · rw [Int.emod_eq_of_lt (by omega) (by omega), Int.sub_sub_self, ← ordinary]
  | case3 current next found past ih =>
    obtain ⟨later, nanos, divides, passes⟩ := nanos_of_add? base whole ordinary second found
    have behind := Int.not_lt.mp (mt passes.mpr past)
    obtain ⟨s, walked, last⟩ := ih later divides behind
    refine ⟨s, ?_, ?_⟩
    · rw [lastBoundary?, found]
      simp only [past, dif_neg, not_false_eq_true]
      exact walked
    · rw [last, nanos, ← Int.sub_sub, Int.sub_emod_right]

/-- From the begin of a leap second, a walk by several seconds does not go on before the leap second has ended. -/
theorem lastBoundary?_of_leap (positive : 0 < step.nanos) (several : nanosPerSecond < step.nanos)
    (room : InRange (base.nanos + step.nanos)) {current : Instant}
    (begins : current.toMoment = ⟨base.seconds * nanosPerSecond, true⟩) :
    base.lastBoundary? step positive current = some current := by
  have low := current.inRange.1
  rw [begins] at low
  have moved : current.shift step.nanos = ⟨base.seconds * nanosPerSecond + step.nanos, false⟩ := by
    have left : ¬ (base.seconds * nanosPerSecond % nanosPerSecond + step.nanos < nanosPerSecond) := by
      simp only [nanosPerSecond] at *
      omega
    rw [begins, Moment.shift_of_leap _ (Int.le_of_lt positive), decide_eq_false left]
  have inside : InRange (current.shift step.nanos).nanos := by
    rw [moved]
    simp only [InRange, Moment.seconds, nanosPerSecond] at *
    omega
  have found : current.add? step = some ⟨_, inside⟩ := add?_eq_some.mpr rfl
  have past : base < ⟨current.shift step.nanos, inside⟩ := by
    refine Moment.rank_lt_of_seconds_lt ?_
    simp only [moved, Moment.seconds, nanosPerSecond] at *
    omega
  rw [lastBoundary?, found]
  simp only [past, dif_pos]

end Instant

namespace ClockUnit

variable {u : ClockUnit} {factor : Nat}

theorem width?_eq (u : ClockUnit) : (TimeUnit.clock u).width? = some u.nanos := rfl

theorem isGauge_nanos (u : ClockUnit) : IsGauge u.nanos := (TimeUnit.width?_bounds u.width?_eq).1

theorem outer?_of_isAligned (aligned : TimeUnit.isAligned factor (.clock u) = true) :
    ∃ outer width, (⟨factor, .clock u⟩ : Period).outer? = some outer ∧ outer.width? = some width ∧
      factor * u.nanos ∣ width ∧ nanosPerSecond < factor * u.nanos ∧ nanosPerSecond ∣ factor * u.nanos := by
  have counted : (⟨factor, .clock u⟩ : Period).outer? = (TimeUnit.clock u).coarser? := if_pos aligned
  simp only [TimeUnit.isAligned, Bool.and_eq_true, decide_eq_true_eq, beq_iff_eq] at aligned
  obtain ⟨several, divides⟩ := aligned
  have tiles : ∀ length : Int, (factor : Int) * length ∣ (TimeUnit.clock u).alignmentBase * length :=
    fun length => Int.mul_dvd_mul_right length (Int.ofNat_dvd.mpr (Nat.dvd_of_mod_eq_zero divides))
  cases u with
  | millis | halfDays => exact absurd divides (by simp only [TimeUnit.alignmentBase, Nat.one_mod_eq_zero_iff]; omega)
  | seconds | minutes | hours =>
    refine ⟨_, _, counted, rfl, tiles _, ?_, Int.dvd_mul_of_dvd_right ?_⟩
    · simp only [nanos, millisecondCount, nanosPerMilli, nanosPerSecond]
      omega
    · decide

theorem isGauge_spacing (u : ClockUnit) (factor : Nat) : IsGauge (u.spacing factor) := by
  rw [spacing]
  split
  · rename_i aligned
    obtain ⟨-, -, -, -, -, several, whole⟩ := outer?_of_isAligned aligned
    exact .coarse several whole
  · exact u.isGauge_nanos

end ClockUnit

namespace Period

/-- The unit to whose start one goes back before intervals are counted. -/
def anchor (p : Period) : TimeUnit := p.outer?.getD p.unit

/-- A moment lies in a leap second with which an interval of the anchor ends. -/
def EndsInLeapSecond (p : Period) (i : Instant) : Prop := ∃ width, p.anchor.width? = some width ∧ i.EndsInterval width

variable {p : Period} {factor : Nat} {u : ClockUnit} {step : Duration} {base : Instant} {width : Int}

theorem endsInLeapSecond_iff (found : p.anchor.width? = some width) :
    p.EndsInLeapSecond base ↔ base.EndsInterval width := by
  simp only [EndsInLeapSecond, found, Option.some.injEq, exists_eq_left']

theorem nanos_of_amount (usable : (⟨factor, .clock u⟩ : Period).amount = .ok (.duration step)) :
    step.nanos = factor * u.nanos := by
  obtain ⟨-, v, same, length⟩ := amount_eq_duration usable
  cases same
  rw [length, ClockUnit.nanos, nanosPerMilli, Int.mul_assoc]

section Boundary

variable (usable : (⟨factor, .clock u⟩ : Period).amount = .ok (.duration step)) (fits : FitsWord base.stamp)
include fits

theorem exists_clockBoundary_of_isAligned (aligned : TimeUnit.isAligned factor (.clock u) = true) :
    ∃ s, clockBoundary ⟨factor, .clock u⟩ step (amount_duration_pos usable) base = .ok s ∧
      (¬ EndsInLeapSecond ⟨factor, .clock u⟩ base → s.toMoment = base.lastMultiple (factor * u.nanos)) ∧
      (EndsInLeapSecond ⟨factor, .clock u⟩ base → s.toMoment = ⟨base.seconds * nanosPerSecond, true⟩) := by
  obtain ⟨outer, width, counted, found, divides, several, whole⟩ := ClockUnit.outer?_of_isAligned aligned
  have anchored : (⟨factor, .clock u⟩ : Period).anchor.width? = some width := by
    rw [anchor, counted, Option.getD_some, found]
  obtain ⟨gauge, short⟩ := TimeUnit.width?_bounds found
  obtain ⟨start, truncated, place⟩ := Instant.exists_truncate found fits
  have longer := Int.le_of_dvd gauge.pos divides
  have positive := amount_duration_pos usable
  rw [← nanos_of_amount usable] at *
  have several_outer := Int.lt_of_lt_of_le several longer
  have whole_outer := Int.dvd_trans whole divides
  have room : InRange (base.nanos + step.nanos) := by
    have length := base.leapNanos_bounds
    simp only [FitsWord, Moment.stamp, InRange, firstNanos, lastNanos, nanosPerSecond, nanosPerDay] at *
    omega
  rw [endsInLeapSecond_iff anchored]
  -- A leap second that ends the interval counts as the begin of the next one, and the walk rests there.
  by_cases ends : base.EndsInterval width
  · rw [Moment.shift_neg_rest_of_endsInterval ends whole_outer] at place
    have rests := Instant.lastBoundary?_of_leap positive several room place
    exact ⟨start, (clockBoundary_of_outer counted).mpr ⟨start, truncated, rests⟩, absurd ends, fun _ => place⟩
  · rw [Moment.shift_neg_rest gauge ends, Moment.lastMultiple_of_coarse several_outer] at place
    have nanos : start.nanos = base.nanos - base.nanos % width := by rw [place]
    have rest := Int.emod_nonneg base.nanos (Int.ne_of_gt gauge.pos)
    obtain ⟨s, walked, last⟩ := Instant.lastBoundary?_eq positive whole room (by rw [place])
      (nanos ▸ Int.dvd_trans whole_outer Int.dvd_self_sub_emod) (by omega)
    refine ⟨s, (clockBoundary_of_outer counted).mpr ⟨start, truncated, walked⟩, fun _ => ?_,
      fun also => absurd also ends⟩
    rw [last, nanos, Int.sub_sub_self, Int.emod_emod_of_dvd _ divides, Moment.lastMultiple_of_coarse several]

theorem exists_clockBoundary_of_not_isAligned (plain : ¬ TimeUnit.isAligned factor (.clock u) = true) :
    ∃ s, clockBoundary ⟨factor, .clock u⟩ step (amount_duration_pos usable) base = .ok s ∧
      (¬ EndsInLeapSecond ⟨factor, .clock u⟩ base → s.toMoment = base.lastMultiple u.nanos) ∧
      (EndsInLeapSecond ⟨factor, .clock u⟩ base → s.toMoment = ⟨base.seconds * nanosPerSecond, true⟩) := by
  have uncounted : (⟨factor, .clock u⟩ : Period).outer? = none := if_neg plain
  have anchored : (⟨factor, .clock u⟩ : Period).anchor.width? = some u.nanos := by
    rw [anchor, uncounted, Option.getD_none, u.width?_eq]
  obtain ⟨s, truncated, place⟩ := Instant.exists_truncate anchored fits
  rw [endsInLeapSecond_iff anchored]
  refine ⟨s, (clockBoundary_of_not_outer uncounted).trans ?_, fun apart => ?_, fun ends => ?_⟩
  · rw [anchor, uncounted] at truncated
    exact truncated
  · rw [place, Moment.shift_neg_rest u.isGauge_nanos apart]
  · rw [place, Moment.shift_neg_rest_of_endsInterval ends (u.isGauge_nanos.whole ends.2.1)]

theorem exists_clockBoundary :
    ∃ s, clockBoundary ⟨factor, .clock u⟩ step (amount_duration_pos usable) base = .ok s ∧
      (¬ EndsInLeapSecond ⟨factor, .clock u⟩ base → s.toMoment = base.lastMultiple (u.spacing factor)) ∧
      (EndsInLeapSecond ⟨factor, .clock u⟩ base → s.toMoment = ⟨base.seconds * nanosPerSecond, true⟩) := by
  rw [ClockUnit.spacing]
  split
  · rename_i aligned
    exact exists_clockBoundary_of_isAligned usable fits aligned
  · rename_i plain
    exact exists_clockBoundary_of_not_isAligned usable fits plain

end Boundary

theorem not_isMultiple_of_endsInLeapSecond {s : Instant} (ends : EndsInLeapSecond ⟨factor, .clock u⟩ base)
    (place : s.toMoment = ⟨base.seconds * nanosPerSecond, true⟩) : ¬ s.IsMultiple (u.spacing factor) := by
  rintro ⟨-, short⟩
  rw [place] at short
  have narrow := short rfl
  rw [ClockUnit.spacing] at narrow
  split at narrow
  · rename_i aligned
    obtain ⟨-, -, -, -, -, several, -⟩ := ClockUnit.outer?_of_isAligned aligned
    exact absurd narrow (Int.not_le.mpr several)
  · rename_i plain
    have anchored : (⟨factor, .clock u⟩ : Period).anchor.width? = some u.nanos := by
      rw [anchor, outer?, if_neg plain, Option.getD_none, u.width?_eq]
    exact absurd narrow (Int.not_le.mpr ((endsInLeapSecond_iff anchored).mp ends).2.1)

/-- The previous boundary of a clock period is the last multiple of its spacing that is not after the base, and the next
one is the base itself, or else a period later, wherever that is in the calendar. But in a leap second with which an
interval of the anchor ends, its begin is given for the previous boundary, and is none. -/
theorem alignedStart_clock [Host] (counts : p.unit = .clock u) (usable : p.amount = .ok (.duration step))
    (fits : FitsWord base.stamp) (zone : Zone) :
    ∃ s, p.alignedStart zone .previous base = .ok s ∧
      (¬ p.EndsInLeapSecond base →
        IsGreatest {i : Instant | i.IsMultiple (u.spacing p.factor) ∧ i ≤ base} s ∧
          (s = base ↔ base.IsMultiple (u.spacing p.factor))) ∧
      (p.EndsInLeapSecond base →
        s.toMoment = ⟨base.seconds * nanosPerSecond, true⟩ ∧ ¬ s.IsMultiple (u.spacing p.factor)) ∧
      (s = base → p.alignedStart zone .next base = .ok base) ∧
      (s ≠ base →
        (∀ i, p.alignedStart zone .next base = .ok i ↔ i.toMoment = s.shift (p.factor * u.nanos)) ∧
        ∀ e, p.alignedStart zone .next base = .error e ↔
          ¬ InRange (s.shift (p.factor * u.nanos)).nanos ∧ e = .overflow (.align base p)) ∧
      (base.leap = false → ¬ p.EndsInLeapSecond base) := by
  obtain ⟨factor, unit⟩ := p
  obtain rfl : unit = .clock u := counts
  obtain ⟨s, last, apart, ends⟩ := exists_clockBoundary usable fits
  have length := nanos_of_amount usable
  refine ⟨s, ?_, fun ordinary => ?_, fun also => ?_, ?_, fun other => ⟨fun i => ?_, fun e => ?_⟩, ?_⟩
  · rw [alignedStart_duration_eq_ok_iff usable last, if_neg (by simp)]
  · have greatest := Instant.isGreatest_of_lastMultiple (u.isGauge_spacing factor) (apart ordinary)
    refine ⟨greatest, fun same => same ▸ greatest.1.1, fun multiple => ?_⟩
    exact Instant.le_antisymm greatest.1.2 (greatest.2 ⟨multiple, Instant.le_refl base⟩)
  · exact ⟨ends also, not_isMultiple_of_endsInLeapSecond also (ends also)⟩
  · rintro rfl
    rw [alignedStart_duration_eq_ok_iff usable last, if_neg (by simp)]
  · rw [alignedStart_duration_eq_ok_iff usable last, if_pos ⟨rfl, other⟩, Instant.add?_eq_some, length]
  · rw [alignedStart_duration_eq_error_iff usable last, and_iff_right ⟨rfl, other⟩, Instant.add?,
      Instant.ofMoment?_eq_none, length]
  · rintro ordinary ⟨width, -, marked, -⟩
    rw [ordinary] at marked
    cases marked

def quarterHourly : Period := ⟨15, .clock .minutes⟩

def quarterHour : Duration := ⟨900000000000, by decide⟩

def tenToMidnight : Instant := ⟨⟨-600000000000, false⟩, by decide⟩

def quarterTo : Instant := ⟨⟨-900000000000, false⟩, by decide⟩

theorem quarter_before_1970 : quarterHourly.unit = .clock .minutes ∧
    quarterHourly.amount = .ok (.duration quarterHour) ∧ FitsWord tenToMidnight.stamp ∧
    IsGreatest {i : Instant | i.IsMultiple quarterHour.nanos ∧ i ≤ tenToMidnight} quarterTo ∧
    quarterHourly.alignedStart .utc .next tenToMidnight = .ok ⟨⟨0, false⟩, by decide⟩ := by
  have usable : quarterHourly.amount = .ok (.duration quarterHour) := rfl
  have fits : FitsWord tenToMidnight.stamp := by decide
  have previous : quarterHourly.alignedStart .utc .previous tenToMidnight = .ok quarterTo := by decide +kernel
  obtain ⟨s, found, greatest, -, -, next, unhindered⟩ := alignedStart_clock rfl usable fits .utc
  cases previous.symm.trans found
  exact ⟨rfl, usable, fits, (greatest (unhindered rfl)).1, ((next (by decide +kernel)).1 _).mpr (by decide +kernel)⟩

def leapBeforeQuarterPast (later : Bool) : Instant :=
  ⟨⟨1483186499000000000 + if later then 500000000 else 0, true⟩, by cases later <;> decide⟩

def noon2016 : Instant := ⟨⟨1483185600000000000, false⟩, by decide⟩

/-- In the leap second at the end of 2016 its begin is given for the last quarter of an hour, and the next quarter is
missed by a second. It does not help to let a quarter begin with that leap second. For then another one would begin
with a leap second at which no hour ends, but there the quarter before is given. -/
theorem quarter_in_leap_second :
    (FitsWord (Amount.lastMinuteOf2016 59500 true).stamp ∧
      quarterHourly.alignedStart .utc .previous (Amount.lastMinuteOf2016 59500 true) =
        .ok (Amount.lastMinuteOf2016 59000 true) ∧
      ¬ (Amount.lastMinuteOf2016 59000 true).IsMultiple quarterHour.nanos ∧
      quarterHourly.alignedStart .utc .next (Amount.lastMinuteOf2016 59500 true) =
        .ok ⟨⟨1483229699000000000, false⟩, by decide⟩) ∧
    quarterHourly.alignedStart .utc .previous (leapBeforeQuarterPast true) = .ok noon2016 ∧
      noon2016 < leapBeforeQuarterPast false ∧ leapBeforeQuarterPast false ≤ leapBeforeQuarterPast true ∧
      (leapBeforeQuarterPast false).stamp % quarterHour.nanos = 0 := by
  decide +kernel

end Period

end Cadence
