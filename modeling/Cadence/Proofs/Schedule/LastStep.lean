import Cadence.Proofs.Schedule.Occurrence

/-!
What is left to walk after the jump. The length of a period is a whole number of milliseconds, and for such a length it
does not matter in which unit the missed periods are counted and in which they are multiplied
(`Duration.wholePeriods_eq_tdiv`, `Duration.times?_of_isWhole`). Away from leap seconds the jump ends at the last
occurrence that has passed, so that one addition is left to do, and nothing else can fail (`advancePast_by_one_step`).
-/

namespace Cadence

open Calendar

namespace Duration

variable {d elapsed : Duration} {count : Int}

private theorem tdiv_tdiv (a : Int) (b c : Nat) : (a.tdiv b).tdiv c = a.tdiv (b * c : Nat) := by
  obtain ⟨n, rfl | rfl⟩ := a.eq_nat_or_neg
  · rw [← Int.ofNat_tdiv, ← Int.ofNat_tdiv, ← Int.ofNat_tdiv, Nat.div_div_eq_div_mul]
  · rw [Int.neg_tdiv, Int.neg_tdiv, Int.neg_tdiv, ← Int.ofNat_tdiv, ← Int.ofNat_tdiv, ← Int.ofNat_tdiv,
      Nat.div_div_eq_div_mul]

theorem wholePeriods_eq_tdiv (positive : 0 < d.nanos) (whole : d.IsWhole) :
    elapsed.wholePeriods d = elapsed.nanos.tdiv d.nanos := by
  obtain ⟨millis, length⟩ := whole
  have cut : d.wholeMillis = millis := wholeMillis_of_isWhole length
  have some_millis : 0 < d.wholeMillis := by omega
  have inMillis : elapsed.wholeMillis.tdiv d.wholeMillis = elapsed.nanos.tdiv d.nanos := by
    obtain ⟨n, rfl⟩ := Int.eq_ofNat_of_zero_le (show 0 ≤ millis by omega)
    rw [cut, wholeMillis, length, Int.mul_comm]
    exact tdiv_tdiv elapsed.nanos 1000000 n
  by_cases first : FitsWord elapsed.nanos
  · by_cases second : FitsWord d.nanos
    · simp only [wholePeriods, wordNanos?, if_pos first, if_pos second, if_pos positive]
    · simp only [wholePeriods, wordNanos?, if_pos first, if_neg second, if_pos some_millis, inMillis]
  · simp only [wholePeriods, wordNanos?, if_neg first, if_pos some_millis, inMillis]

theorem times?_of_isWhole (whole : d.IsWhole) {product : Duration} (total : product.nanos = d.nanos * count) :
    d.times? count = some product := by
  obtain ⟨millis, length⟩ := whole
  have scaled : d.wholeMillis * count * 1000000 = product.nanos := by
    rw [total, wholeMillis_of_isWhole length, length, Int.mul_right_comm]
  have bounds := product.inRange
  have word : FitsWord (d.wholeMillis * count) := by
    simp only [FitsWord]
    omega
  have inMillis : ofMillis? (d.wholeMillis * count) = some product := by
    rw [ofMillis?, scaled, ofNanos?_eq_some]
  by_cases short : FitsWord d.nanos
  · by_cases fits : FitsWord (d.nanos * count)
    · have inNanos : ofNanos? (d.nanos * count) = some product := ofNanos?_eq_some.mpr total
      simp only [times?, wordNanos?, if_pos short, if_pos fits, inNanos]
    · simp only [times?, wordNanos?, if_pos short, if_neg fits, if_pos word, inMillis]
  · simp only [times?, wordNanos?, if_neg short, if_pos word, inMillis]

theorem exists_product (elapsed d : Duration) :
    ∃ product : Duration, product.nanos = d.nanos * elapsed.nanos.tdiv d.nanos := by
  have size : (d.nanos * elapsed.nanos.tdiv d.nanos).natAbs ≤ elapsed.nanos.natAbs := by
    rw [Int.natAbs_mul, Int.natAbs_tdiv]
    exact Nat.mul_div_le _ _
  have bounds := elapsed.inRange
  exact ⟨⟨d.nanos * elapsed.nanos.tdiv d.nanos, by omega⟩, rfl⟩

end Duration

namespace Instant

variable {base now : Instant}

theorem since_nonneg (ordinary : base.leap = false) (reached : base ≤ now) : 0 ≤ (now.since base).nanos := by
  change base.rank ≤ now.rank at reached
  change 0 ≤ now.toMoment.since base.toMoment
  cases marked : now.leap <;>
    simp only [Moment.since, Moment.stamp, Moment.rank, Moment.leapNanos, Moment.seconds, Moment.timeOfDay,
      nanosPerSecond, nanosPerDay, ordinary, marked, Bool.false_eq_true, if_false, if_true] at reached ⊢ <;>
    split <;> omega

end Instant

namespace Amount

variable {zone : Zone} {amount : Amount} {d : Duration} {base now start i : Instant} {e : Error}

theorem stepPast_of_last [Host] (reached : start ≤ now) (last : ∀ i, after zone amount start = .ok i → now < i) :
    stepPast zone amount now start = after zone amount start := by
  cases led : after zone amount start with
  | error e => rw [stepPast, dif_neg (Instant.not_lt.mpr reached), led]
  | ok next =>
    have past := last next led
    rw [stepPast_of_after reached led (Instant.lt_of_le_of_lt reached past), stepPast_of_past past]

theorem after_duration_eq_error [Host] (failed : after zone (duration d) base = .error e) :
    base.add? d = none ∧ e = .overflow (.shift base true (duration d)) := by
  simp only [after, shift, if_true] at failed
  cases sum : base.add? d with
  | some i => simp [sum] at failed
  | none =>
    rw [sum] at failed
    exact ⟨rfl, (Except.error.inj failed).symm⟩

theorem stepPast_duration_eq_error [Host] (positive : 0 < d.nanos)
    (failed : stepPast zone (duration d) now base = .error e) :
    ∃ i, i ≤ now ∧ i.add? d = none ∧ e = .overflow (.shift i true (duration d)) := by
  induction base using stepPast.induct zone (duration d) now with
  | case1 base past =>
    rw [stepPast_of_past past] at failed
    cases failed
  | case2 base reached e led =>
    rw [stepPast, dif_neg reached, led] at failed
    cases failed
    exact ⟨base, Instant.not_lt.mp reached, after_duration_eq_error led⟩
  | case3 base reached next led stuck =>
    exact absurd (Instant.lt_of_add? positive (after_duration_eq_ok_iff.mp led)) (Int.not_lt.mpr stuck)
  | case4 base reached next led forward ih =>
    rw [stepPast_of_after (Instant.not_lt.mp reached) led (Int.not_le.mp forward)] at failed
    exact ih failed

/-- Unless one looks at it in a leap second, the jump ends in the calendar, and not later than now. -/
theorem exists_jump (positive : 0 < d.nanos) (ordinary : now.leap = false) (reached : base ≤ now) :
    ∃ start, (duration d).jump base now = .ok start ∧ start ≤ now := by
  have skipped : 0 ≤ d.skipped (now.since base) ∧ d.skipped (now.since base) ≤ max 0 (now.since base).nanos :=
    Duration.skipped_bounds positive
  obtain ⟨forward, bound⟩ := skipped
  have distance : (now.since base).nanos ≤ now.nanos - base.nanos + now.leapNanos := Moment.since_le _ _
  have left : base.nanos ≤ now.nanos := by
    change base.rank ≤ now.rank at reached
    have length := base.leapNanos_bounds
    simp only [Moment.rank, Moment.leapNanos, Moment.seconds, nanosPerSecond, ordinary, Bool.false_eq_true,
      if_false] at reached length
    omega
  simp only [Moment.leapNanos, ordinary, Bool.false_eq_true, if_false] at distance
  have low := base.inRange
  have high := now.inRange
  have inside : InRange (base.toMoment.shift (d.skipped (now.since base))).nanos := by
    rw [Moment.nanos_shift _ forward]
    omega
  refine ⟨⟨_, inside⟩, ?_, Moment.rank_shift_le reached forward (by omega)⟩
  rw [← toOption_eq_some, jump_duration positive]
  exact Instant.ofMoment?_eq_some.mpr rfl

theorem jump_eq_add? (positive : 0 < d.nanos) (whole : d.IsWhole) (forward : 0 ≤ (now.since base).nanos)
    {product : Duration} (total : product.nanos = d.nanos * (now.since base).wholePeriods d) :
    ((duration d).jump base now).toOption = base.add? product := by
  have some_length : ¬ d ≤ Duration.zero := Int.not_le.mpr positive
  have found := Duration.times?_of_isWhole whole total
  by_cases none_missed : (now.since base).wholePeriods d ≤ 0
  · have counted : (now.since base).wholePeriods d = (now.since base).nanos.tdiv d.nanos :=
      Duration.wholePeriods_eq_tdiv positive whole
    have nonneg := Int.tdiv_nonneg forward (Int.le_of_lt positive)
    have nothing : product.nanos = 0 := by rw [total, Int.le_antisymm none_missed (counted ▸ nonneg), Int.mul_zero]
    have stays : base.add? product = some base := by rw [Instant.add?_eq_some, nothing, Moment.shift_zero]
    simp only [jump, if_neg some_length, if_pos none_missed, stays]
    rfl
  · simp only [jump, if_neg some_length, if_neg none_missed, found]
    cases base.add? product <;> rfl

theorem past_of_add?_add? (positive : 0 < d.nanos) (ordinary : base.leap = false) (ordinary_now : now.leap = false)
    {product : Duration} (total : product.nanos = d.nanos * ((now.since base).nanos / d.nanos))
    (jumped : base.add? product = some start) (next : start.add? d = some i) : now < i := by
  have place : start.toMoment = ⟨base.nanos + product.nanos, false⟩ := by
    rw [Instant.add?_eq_some.mp jumped, Moment.shift_of_ordinary ordinary]
  have there : i.toMoment = ⟨start.nanos + d.nanos, false⟩ := by
    rw [Instant.add?_eq_some.mp next, Moment.shift_of_ordinary (by rw [place])]
  have rest : (now.since base).nanos < d.nanos * ((now.since base).nanos / d.nanos) + d.nanos :=
    Int.lt_mul_ediv_self_add positive
  have elapsed := Instant.since_nanos ordinary_now ordinary
  rw [Instant.lt_iff_of_ordinary ordinary_now (by rw [there]), there, place]
  change now.nanos < base.nanos + product.nanos + d.nanos
  omega

/-- The missed periods of a configured length are counted exactly, and cut toward zero, whatever the unit is in which
they are counted, and their product is found and exact. The distance from a base in no leap second is not negative, so
that the count is the floor. Looked at in no leap second, the jump ends in the calendar and has not passed now, and only
an addition of the walk after it can fail. Where neither of the two lies in a leap second, the walk is one addition. -/
theorem advancePast_by_one_step [Host] {p : Period} (usable : p.amount = .ok (.duration d)) (reached : base ≤ now)
    (zone : Zone) :
    (now.since base).wholePeriods d = (now.since base).nanos.tdiv d.nanos ∧
    (∃ product, d.times? ((now.since base).wholePeriods d) = some product ∧
      product.nanos = d.nanos * (now.since base).wholePeriods d) ∧
    (base.leap = false → (now.since base).wholePeriods d = (now.since base).nanos.fdiv d.nanos) ∧
    (now.leap = false → (∃ start, (duration d).jump base now = .ok start ∧ start ≤ now) ∧
      ∀ e, advancePast zone (duration d) base now = .error e →
        ∃ i, i ≤ now ∧ i.add? d = none ∧ e = .overflow (.shift i true (duration d))) ∧
    (base.leap = false → now.leap = false → ∃ product start,
      d.times? ((now.since base).wholePeriods d) = some product ∧ base.add? product = some start ∧
      (duration d).jump base now = .ok start ∧ start ≤ now ∧ (∀ i, start.add? d = some i → now < i) ∧
      advancePast zone (duration d) base now = (duration d).after zone start) := by
  have positive := Period.amount_duration_pos usable
  have whole := Period.amount_duration_isWhole usable
  have counted : (now.since base).wholePeriods d = (now.since base).nanos.tdiv d.nanos :=
    Duration.wholePeriods_eq_tdiv positive whole
  obtain ⟨product, total⟩ := (now.since base).exists_product d
  rw [← counted] at total
  have found := Duration.times?_of_isWhole whole total
  have jumps : advancePast zone (duration d) base now =
      (duration d).jump base now >>= stepPast zone (duration d) now := by
    rw [advancePast, if_neg (Instant.not_lt.mpr reached)]
  refine ⟨counted, ⟨product, found, total⟩, fun ordinary => ?_, fun ordinary => ?_,
    fun ordinary ordinary_now => ?_⟩
  · rw [counted, Int.tdiv_eq_ediv_of_nonneg (Instant.since_nonneg ordinary reached),
      Int.fdiv_eq_ediv_of_nonneg _ (Int.le_of_lt positive)]
  · obtain ⟨start, jumped, passed⟩ := exists_jump positive ordinary reached
    refine ⟨⟨start, jumped, passed⟩, fun e failed => ?_⟩
    rw [jumps, jumped] at failed
    exact stepPast_duration_eq_error positive failed
  · have forward := Instant.since_nonneg ordinary reached
    obtain ⟨start, jumped, passed⟩ := exists_jump positive ordinary_now reached
    have sum := jump_eq_add? positive whole forward total
    rw [jumped] at sum
    rw [counted, Int.tdiv_eq_ediv_of_nonneg forward] at total
    have last : ∀ i, start.add? d = some i → now < i :=
      fun i next => past_of_add?_add? positive ordinary ordinary_now total sum.symm next
    refine ⟨product, start, found, sum.symm, jumped, passed, last, ?_⟩
    rw [jumps, jumped]
    exact stepPast_of_last passed fun i led => last i (after_duration_eq_ok_iff.mp led)

theorem two_million_hours_by_one_step :
    (⟨2000000, .clock .hours⟩ : Period).amount = .ok (.duration ⟨7200000000000000000, by decide⟩) ∧
      newYear1600 ≤ newYear2000 ∧ ¬ FitsWord (newYear2000.since newYear1600).nanos ∧
      (newYear2000.since newYear1600).wholePeriods ⟨7200000000000000000, by decide⟩ = 1 ∧
      ∃ product start,
        Duration.times? ⟨7200000000000000000, by decide⟩
          ((newYear2000.since newYear1600).wholePeriods ⟨7200000000000000000, by decide⟩) = some product ∧
        newYear1600.add? product = some start ∧ start ≤ newYear2000 ∧
        advancePast .utc (.duration ⟨7200000000000000000, by decide⟩) newYear1600 newYear2000 =
          (duration ⟨7200000000000000000, by decide⟩).after .utc start := by
  have reached : newYear1600 ≤ newYear2000 := by decide
  obtain ⟨-, -, -, -, last⟩ := advancePast_by_one_step (p := ⟨2000000, .clock .hours⟩) rfl reached .utc
  obtain ⟨product, start, found, sum, -, passed, -, step⟩ := last rfl rfl
  exact ⟨rfl, reached, by decide +kernel, by decide +kernel, product, start, found, sum, passed, step⟩

/-- What leap seconds do to it. The ten quarters of a second that are counted from 23:59:58 until the middle of the leap
second lead past the occurrence at midnight, and nothing is left to walk. From the begin of the leap second, two of the
quarters until half a second after midnight are counted, and the next one has passed as well. The distance from the
middle of the leap second to midnight is negative, and the floor is not what the count is cut to. -/
theorem leap_seconds_not_by_one_step :
    (⟨250, .clock .millis⟩ : Period).amount = .ok (.duration ⟨250000000, by decide⟩) ∧
    (lastMinuteOf2016 58000 false ≤ lastMinuteOf2016 59500 true ∧
      ((lastMinuteOf2016 59500 true).since (lastMinuteOf2016 58000 false)).wholePeriods ⟨250000000, by decide⟩ =
        10 ∧
      (lastMinuteOf2016 58000 false).add? ⟨2500000000, by decide⟩ = some (newYear2017 500) ∧
      ¬ newYear2017 500 ≤ lastMinuteOf2016 59500 true ∧
      (advancePast .utc (.duration ⟨250000000, by decide⟩) (lastMinuteOf2016 58000 false)
        (lastMinuteOf2016 59500 true)).toOption = some (newYear2017 500)) ∧
    (lastMinuteOf2016 59000 true ≤ newYear2017 500 ∧
      ((duration ⟨250000000, by decide⟩).jump (lastMinuteOf2016 59000 true) (newYear2017 500)).toOption =
        some (lastMinuteOf2016 59500 true) ∧
      (lastMinuteOf2016 59500 true).add? ⟨250000000, by decide⟩ = some (lastMinuteOf2016 59750 true) ∧
      lastMinuteOf2016 59750 true ≤ newYear2017 500) ∧
    ((⟨300, .clock .millis⟩ : Period).amount = .ok (.duration ⟨300000000, by decide⟩) ∧
      lastMinuteOf2016 59500 true ≤ newYear2017 0 ∧
      ((newYear2017 0).since (lastMinuteOf2016 59500 true)).wholePeriods ⟨300000000, by decide⟩ = -1 ∧
      ((newYear2017 0).since (lastMinuteOf2016 59500 true)).nanos.fdiv 300000000 = -2) := by
  refine ⟨rfl, ?_, ?_, rfl, ?_⟩ <;> decide +kernel

end Amount

end Cadence
