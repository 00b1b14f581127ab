import Cadence.Schedule.CatchUp

/-!
The jump over missed periods. Two helpers choose their unit, one to count the periods and one to multiply, and the
milliseconds that either falls back to lose what a length has of a smaller unit. What is skipped never exceeds the
elapsed time (`skipped_bounds`), so that the product is always found and only the calendar can end the jump
(`jump_duration`). It consists of whole periods where no fraction of a millisecond is lost (`exists_skipped_eq`).
-/

namespace Cadence

open Calendar

namespace Duration

variable {d elapsed : Duration} {count : Int}

def IsWhole (d : Duration) : Prop := ∃ millis : Int, d.nanos = millis * 1000000

/-- No fraction of a millisecond is lost: the period has none, or nanoseconds count. -/
def CountsExactly (elapsed d : Duration) : Prop := d.IsWhole ∨ FitsWord elapsed.nanos ∧ FitsWord d.nanos

theorem count_mul_nonneg (forward : 0 ≤ d.nanos) (count : Nat) : 0 ≤ (count : Int) * d.nanos :=
  Int.mul_nonneg (Int.natCast_nonneg _) forward

theorem wholeMillis_of_isWhole {millis : Int} (length : d.nanos = millis * 1000000) : d.wholeMillis = millis := by
  rw [wholeMillis, length, Int.mul_tdiv_cancel _ (by decide)]

private theorem tdiv_mul_le_of_pos {a b : Int} (positive : 0 < b) (h : 0 < a.tdiv b) : a.tdiv b * b ≤ a := by
  have bound := Int.tdiv_mul_le a (show b ≠ 0 by omega)
  have nonneg : 0 ≤ a := by
    apply Int.not_lt.mp
    intro negative
    have mirrored := Int.tdiv_nonneg (show 0 ≤ -a by omega) (Int.le_of_lt positive)
    rw [Int.neg_tdiv] at mirrored
    omega
  rw [if_pos nonneg] at bound
  simpa using bound

theorem wholeMillis_mul_le (nonneg : 0 ≤ d.nanos) : 0 ≤ d.wholeMillis ∧ d.wholeMillis * 1000000 ≤ d.nanos := by
  rw [wholeMillis, Int.tdiv_eq_ediv_of_nonneg nonneg]
  omega

theorem wholePeriods_cases (positive : 0 < d.nanos) (missed : 0 < elapsed.wholePeriods d) :
    (FitsWord elapsed.nanos ∧ FitsWord d.nanos) ∧ elapsed.wholePeriods d * d.nanos ≤ elapsed.nanos ∨
      ¬ (FitsWord elapsed.nanos ∧ FitsWord d.nanos) ∧
        elapsed.wholePeriods d * d.wholeMillis * 1000000 ≤ elapsed.nanos := by
  by_cases words : FitsWord elapsed.nanos ∧ FitsWord d.nanos
  · refine Or.inl ⟨words, ?_⟩
    simp only [wholePeriods, wordNanos?, if_pos words.1, if_pos words.2, if_pos positive] at missed ⊢
    exact tdiv_mul_le_of_pos positive missed
  · have inMillis : elapsed.wholePeriods d =
        if 0 < d.wholeMillis then elapsed.wholeMillis.tdiv d.wholeMillis else 0 := by
      by_cases first : FitsWord elapsed.nanos
      · have second : ¬ FitsWord d.nanos := fun fits => words ⟨first, fits⟩
        simp only [wholePeriods, wordNanos?, if_pos first, if_neg second]
      · simp only [wholePeriods, wordNanos?, if_neg first]
    refine Or.inr ⟨words, ?_⟩
    by_cases some_millis : 0 < d.wholeMillis
    · rw [inMillis, if_pos some_millis] at missed ⊢
      have periods := tdiv_mul_le_of_pos some_millis missed
      have enough : 0 < elapsed.wholeMillis := Int.lt_of_lt_of_le (Int.mul_pos missed some_millis) periods
      have cut : elapsed.wholeMillis * 1000000 ≤ elapsed.nanos := tdiv_mul_le_of_pos (by decide) enough
      exact Int.le_trans (Int.mul_le_mul_of_nonneg_right periods (by decide)) cut
    · rw [inMillis, if_neg some_millis] at missed
      exact absurd missed (Int.lt_irrefl 0)

/-- The product of a length and a number of times, in the unit in which it is computed. -/
def product (d : Duration) (count : Int) : Int :=
  if FitsWord (d.nanos * count) then d.nanos * count else d.wholeMillis * count * 1000000

theorem times?_eq (positive : 0 < d.nanos) (some_times : 0 < count) (word : FitsWord (d.wholeMillis * count)) :
    d.times? count = ofNanos? (d.product count) := by
  have longer := Int.mul_le_mul_of_nonneg_left (show 1 ≤ count from some_times) (Int.le_of_lt positive)
  by_cases fits : FitsWord (d.nanos * count)
  · have short : FitsWord d.nanos := by
      simp only [FitsWord] at fits ⊢
      omega
    simp only [times?, product, wordNanos?, if_pos short, if_pos fits]
  · by_cases short : FitsWord d.nanos
    · simp only [times?, product, wordNanos?, if_pos short, if_neg fits, if_pos word, ofMillis?]
    · simp only [times?, product, wordNanos?, if_neg short, if_neg fits, if_pos word, ofMillis?]

/-- How far the jump over the missed periods leads. -/
def skipped (d elapsed : Duration) : Int :=
  if elapsed.wholePeriods d ≤ 0 then 0 else d.product (elapsed.wholePeriods d)

theorem wholeMillis_mul_wholePeriods (positive : 0 < d.nanos) (missed : 0 < elapsed.wholePeriods d) :
    0 ≤ d.wholeMillis * elapsed.wholePeriods d ∧
      d.wholeMillis * elapsed.wholePeriods d * 1000000 ≤ elapsed.nanos := by
  obtain ⟨nonneg, cut⟩ := wholeMillis_mul_le (Int.le_of_lt positive)
  refine ⟨Int.mul_nonneg nonneg (Int.le_of_lt missed), ?_⟩
  obtain ⟨-, fit⟩ | ⟨-, fit⟩ := wholePeriods_cases positive missed
  · calc d.wholeMillis * elapsed.wholePeriods d * 1000000
        = elapsed.wholePeriods d * (d.wholeMillis * 1000000) := by rw [Int.mul_comm d.wholeMillis, Int.mul_assoc]
      _ ≤ elapsed.wholePeriods d * d.nanos := Int.mul_le_mul_of_nonneg_left cut (Int.le_of_lt missed)
      _ ≤ elapsed.nanos := fit
  · rw [Int.mul_comm d.wholeMillis]
    exact fit

theorem product_bounds (positive : 0 < d.nanos) (missed : 0 < elapsed.wholePeriods d) :
    0 ≤ d.product (elapsed.wholePeriods d) ∧ d.product (elapsed.wholePeriods d) ≤ elapsed.nanos := by
  obtain ⟨inMillis, roughly⟩ := wholeMillis_mul_wholePeriods positive missed
  rw [product]
  by_cases fits : FitsWord (d.nanos * elapsed.wholePeriods d)
  · rw [if_pos fits]
    have exactly := Int.mul_nonneg (Int.le_of_lt positive) (Int.le_of_lt missed)
    have longer := Int.mul_le_mul_of_nonneg_left (show 1 ≤ elapsed.wholePeriods d from missed) (Int.le_of_lt positive)
    refine ⟨exactly, ?_⟩
    -- A product that fits a word is less than an elapsed time that does not.
    obtain ⟨-, fit⟩ | ⟨large, -⟩ := wholePeriods_cases positive missed
    · rw [Int.mul_comm]
      exact fit
    · simp only [FitsWord] at fits large
      omega
  · rw [if_neg fits]
    exact ⟨Int.mul_nonneg inMillis (by decide), roughly⟩

theorem times?_wholePeriods (positive : 0 < d.nanos) (missed : 0 < elapsed.wholePeriods d) :
    ∃ jump : Duration, d.times? (elapsed.wholePeriods d) = some jump ∧ jump.nanos = d.skipped elapsed := by
  have roughly := wholeMillis_mul_wholePeriods positive missed
  have bounds := product_bounds positive missed
  have longest := elapsed.inRange
  have word : FitsWord (d.wholeMillis * elapsed.wholePeriods d) := by
    simp only [FitsWord]
    omega
  refine ⟨⟨d.product (elapsed.wholePeriods d), by omega⟩, ?_, ?_⟩
  · rw [times?_eq positive missed word, ofNanos?_eq_some]
  · rw [skipped, if_neg (Int.not_le.mpr missed)]

theorem skipped_bounds (positive : 0 < d.nanos) :
    0 ≤ d.skipped elapsed ∧ d.skipped elapsed ≤ max 0 elapsed.nanos := by
  rw [skipped]
  by_cases none_missed : elapsed.wholePeriods d ≤ 0
  · rw [if_pos none_missed]
    exact ⟨Int.le_refl 0, Int.le_max_left 0 _⟩
  · rw [if_neg none_missed]
    obtain ⟨nonneg, fit⟩ := product_bounds positive (Int.not_le.mp none_missed)
    exact ⟨nonneg, Int.le_trans fit (Int.le_max_right 0 _)⟩

theorem exists_skipped_eq (positive : 0 < d.nanos) (exact : elapsed.CountsExactly d) :
    ∃ count : Nat, d.skipped elapsed = count * d.nanos := by
  by_cases none_missed : elapsed.wholePeriods d ≤ 0
  · exact ⟨0, by rw [skipped, if_pos none_missed, Int.natCast_zero, Int.zero_mul]⟩
  have missed : 0 < elapsed.wholePeriods d := Int.not_le.mp none_missed
  refine ⟨(elapsed.wholePeriods d).toNat, ?_⟩
  rw [skipped, if_neg none_missed, Int.toNat_of_nonneg (Int.le_of_lt missed), Int.mul_comm, product]
  by_cases fits : FitsWord (d.nanos * elapsed.wholePeriods d)
  · rw [if_pos fits]
  rw [if_neg fits]
  obtain ⟨millis, length⟩ | words := exact
  · rw [wholeMillis_of_isWhole length, length, Int.mul_right_comm]
  · -- In nanoseconds the product is no longer than the elapsed time, which fits a word.
    obtain ⟨-, fit⟩ | ⟨large, -⟩ := wholePeriods_cases positive missed
    · have nonneg := Int.mul_nonneg (Int.le_of_lt positive) (Int.le_of_lt missed)
      rw [Int.mul_comm] at fit
      simp only [FitsWord] at fits words
      omega
    · exact absurd words large

end Duration

namespace Amount

variable {d : Duration}

theorem jump_duration (positive : 0 < d.nanos) (base now : Instant) :
    ((duration d).jump base now).toOption =
      Instant.ofMoment? (base.toMoment.shift (d.skipped (now.since base))) := by
  have some_length : ¬ d ≤ Duration.zero := Int.not_le.mpr positive
  by_cases none_missed : (now.since base).wholePeriods d ≤ 0
  · simp only [jump, if_neg some_length, if_pos none_missed]
    rw [Duration.skipped, if_pos none_missed, Moment.shift_zero, Instant.ofMoment?_eq_some.mpr rfl]
    rfl
  obtain ⟨skipped, product, length⟩ := Duration.times?_wholePeriods positive (Int.not_le.mp none_missed)
  simp only [jump, if_neg some_length, if_neg none_missed, product]
  rw [← length]
  change _ = base.add? skipped
  cases base.add? skipped <;> rfl

theorem jump_eq_ok (positive : 0 < d.nanos) {base now start : Instant} (h : (duration d).jump base now = .ok start) :
    start.toMoment = base.toMoment.shift (d.skipped (now.since base)) := by
  rw [← Instant.ofMoment?_eq_some, ← jump_duration positive, h]
  rfl

end Amount

end Cadence
