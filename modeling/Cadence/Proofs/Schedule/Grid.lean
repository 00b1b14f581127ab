import Cadence.Proofs.Schedule.Jump

/-!
The grid of a duration. From a start, the occurrences of a fixed length lie one length apart, also where one
multiplication skips those that were missed: to catch up leads from a point of the grid to a point of it
(`advancePast_onGrid`). This needs a length of whole milliseconds, which all lengths of a period are.
-/

namespace Cadence

open Calendar

namespace Moment

theorem shift_of_leap (n : Int) {a : Int} (ha : 0 ≤ a) :
    shift a ⟨n, true⟩ = ⟨n + a, decide (n % nanosPerSecond + a < nanosPerSecond)⟩ := by
  have ahead : ¬ (n % nanosPerSecond + a < 0) := by
    simp only [nanosPerSecond]
    omega
  unfold shift
  rw [if_neg fun back => ahead back.2]
  rfl

theorem shift_shift (m : Moment) {a b : Int} (ha : 0 ≤ a) (hb : 0 ≤ b) : (m.shift a).shift b = m.shift (a + b) := by
  obtain ⟨n, p⟩ := m
  cases p with
  | false =>
    rw [shift_of_ordinary rfl, shift_of_ordinary rfl, shift_of_ordinary rfl]
    simp only [Int.add_assoc]
  | true =>
    rw [shift_of_leap n ha, shift_of_leap n (Int.add_nonneg ha hb)]
    by_cases within : n % nanosPerSecond + a < nanosPerSecond
    · have kept : (n + a) % nanosPerSecond = n % nanosPerSecond + a := by
        simp only [nanosPerSecond] at within ⊢
        omega
      rw [decide_eq_true within, shift_of_leap (n + a) hb, kept, Int.add_assoc, Int.add_assoc]
    · have left : ¬ (n % nanosPerSecond + (a + b) < nanosPerSecond) := by omega
      rw [decide_eq_false within, decide_eq_false left, shift_of_ordinary rfl]
      simp only [Int.add_assoc]

end Moment

namespace Instant

/-- Some whole number of steps after a start. -/
def OnGrid (start : Instant) (step : Duration) (i : Instant) : Prop :=
  ∃ count : Nat, i.toMoment = start.toMoment.shift (count * step.nanos)

namespace OnGrid

variable {start i j : Instant} {step d : Duration}

theorem refl (start : Instant) (step : Duration) : OnGrid start step start :=
  ⟨0, by rw [Int.natCast_zero, Int.zero_mul, Moment.shift_zero]⟩

theorem later (h : OnGrid start step i) (forward : 0 ≤ step.nanos) {count : Nat}
    (moved : j.toMoment = i.toMoment.shift (count * step.nanos)) : OnGrid start step j := by
  obtain ⟨before, reached⟩ := h
  refine ⟨before + count, ?_⟩
  rw [moved, reached, Moment.shift_shift _ (Duration.count_mul_nonneg forward before)
    (Duration.count_mul_nonneg forward count), Int.natCast_add, Int.add_mul]

theorem trans (h : OnGrid start step i) (forward : 0 ≤ step.nanos) (k : OnGrid i step j) : OnGrid start step j := by
  obtain ⟨count, moved⟩ := k
  exact h.later forward moved

end OnGrid

end Instant

namespace Amount

variable {zone : Zone} {d : Duration} {base now current i : Instant}

theorem jump_onGrid (positive : 0 < d.nanos) (exact : (now.since base).CountsExactly d)
    (h : (duration d).jump base now = .ok i) : base.OnGrid d i := by
  obtain ⟨count, periods⟩ := Duration.exists_skipped_eq positive exact
  exact ⟨count, by rw [jump_eq_ok positive h, periods]⟩

theorem stepPast_onGrid [Host] (positive : 0 < d.nanos) (h : stepPast zone (duration d) now current = .ok i) :
    current.OnGrid d i := by
  induction current using stepPast.induct zone (duration d) now with
  | case1 current past =>
    rw [stepPast, dif_pos past] at h
    cases h
    exact .refl _ d
  | case2 current reached e failed =>
    rw [stepPast, dif_neg reached, failed] at h
    cases h
  | case3 current reached next found stuck =>
    rw [stepPast, dif_neg reached, found] at h
    simp [stuck] at h
  | case4 current reached next found forward ih =>
    rw [stepPast, dif_neg reached, found] at h
    simp only [forward, dite_false] at h
    have moved := shift_duration found
    rw [if_pos rfl] at moved
    have one : current.OnGrid d next := ⟨1, by rw [moved, Int.natCast_one, Int.one_mul]⟩
    exact one.trans (Int.le_of_lt positive) (ih h)

theorem advancePast_onGrid [Host] (positive : 0 < d.nanos) (whole : d.IsWhole)
    (h : advancePast zone (duration d) base now = .ok i) : base.OnGrid d i := by
  simp only [advancePast, bind, Except.bind] at h
  by_cases past : now < base
  · rw [if_pos past] at h
    cases h
    exact .refl base d
  · rw [if_neg past] at h
    cases jumped : (duration d).jump base now with
    | error e => simp [jumped] at h
    | ok current =>
      simp only [jumped] at h
      exact (jump_onGrid positive (Or.inl whole) jumped).trans (Int.le_of_lt positive) (stepPast_onGrid positive h)

end Amount

namespace Period

theorem amount_duration_isWhole {p : Period} {d : Duration} (h : p.amount = .ok (.duration d)) : d.IsWhole := by
  obtain ⟨-, u, -, length⟩ := amount_eq_duration h
  exact ⟨p.factor * u.millisecondCount, length⟩

end Period

end Cadence
