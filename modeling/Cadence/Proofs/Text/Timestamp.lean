import Cadence.Calendar.Order
import Cadence.Text.Timestamp

/-!
Moments that were written read back as themselves (`instant?_instantText`). The parts are read one after the other: each
part that was written is read off the front of whatever follows. A leap second can only be written as the second after
the 59th of a minute, and that is the only place where one is ever read (`isProper_of_instant?`).
-/

namespace Cadence.Text

open Decimal Calendar

theorem isBlank_of_isDigit {c : Char} (h : isDigit c = true) : isBlank c = false := by
  simp only [isDigit, Bool.and_eq_true, decide_eq_true_eq] at h
  simp only [isBlank, Bool.or_eq_false_iff, Bool.and_eq_false_iff, decide_eq_false_iff_not, beq_eq_false_iff_ne]
  omega

namespace Decimal

def Stops (rest : List Char) : Prop := ∀ c, rest.head? = some c → isDigit c = false

theorem stops_cons {c : Char} (h : isDigit c = false) (rest : List Char) : Stops (c :: rest) := by
  intro d first
  cases first
  exact h

theorem padded_eq_cons (width n : Nat) : ∃ c cs, padded width n = c :: cs ∧ isDigit c = true := by
  cases same : padded width n with
  | nil =>
    have length := congrArg List.length same
    have positive := length_digits_pos n
    simp only [padded, List.length_append, List.length_nil] at length
    omega
  | cons c cs => exact ⟨c, cs, rfl, @isDigit_of_mem_padded width n c (same ▸ List.mem_cons_self)⟩

theorem trimStart_padded (width n : Nat) (rest : List Char) :
    trimStart (padded width n ++ rest) = padded width n ++ rest := by
  obtain ⟨c, cs, same, digit⟩ := padded_eq_cons width n
  rw [same, List.cons_append, trimStart_cons_of_not_blank (isBlank_of_isDigit digit)]

theorem padded_ne_nil (width n : Nat) : padded width n ≠ [] := by
  obtain ⟨c, cs, same, _⟩ := padded_eq_cons width n
  rw [same]
  exact List.cons_ne_nil c cs

theorem number?_padded {width n : Nat} (width_pos : 0 < width) (fits : n < powerOfTen width) (rest : List Char) :
    number? width (padded width n ++ rest) = some (n, rest) := by
  have length := length_padded width_pos fits
  rw [number?_digits (padded_ne_nil width n) (fun c => isDigit_of_mem_padded) (Nat.le_of_eq length) (.inl length),
    value_padded]

theorem value_lt {ds : List Char} (all : ∀ c ∈ ds, isDigit c = true) : value ds < powerOfTen ds.length := by
  have folded : ∀ (ds : List Char) (n : Nat), (∀ c ∈ ds, isDigit c = true) →
      ds.foldl (fun n c => 10 * n + (c.toNat - 48)) n < (n + 1) * powerOfTen ds.length := by
    intro ds
    induction ds with
    | nil =>
      intro n _
      simp [powerOfTen]
    | cons d ds ih =>
      intro n all
      obtain ⟨first, others⟩ := List.forall_mem_cons.mp all
      simp only [isDigit, Bool.and_eq_true, decide_eq_true_eq] at first
      have tail := ih (10 * n + (d.toNat - 48)) others
      have room : 10 * n + (d.toNat - 48) + 1 ≤ (n + 1) * 10 := by omega
      have grown := Nat.mul_le_mul_right (powerOfTen ds.length) room
      rw [List.foldl_cons, List.length_cons, powerOfTen, ← Nat.mul_assoc]
      exact Nat.lt_of_lt_of_le tail grown
  simpa [value] using folded ds 0 all

theorem powerOfTen_add (a b : Nat) : powerOfTen (a + b) = powerOfTen a * powerOfTen b := by
  induction a with
  | zero => simp [powerOfTen]
  | succ a ih => rw [Nat.succ_add, powerOfTen, powerOfTen, ih, Nat.mul_assoc]

theorem powerOfTen_pos (k : Nat) : 0 < powerOfTen k := by
  induction k with
  | zero => decide
  | succ k ih => rw [powerOfTen]; omega

theorem run_spec (most : Nat) (cs : List Char) :
    (∀ c ∈ (run most cs).1, isDigit c = true) ∧ (run most cs).1.length ≤ most := by
  induction most generalizing cs with
  | zero => simp [run]
  | succ most ih =>
    cases cs with
    | nil => simp [run]
    | cons c cs =>
      rw [run]
      split
      · rename_i digit
        exact ⟨List.forall_mem_cons.mpr ⟨digit, (ih cs).1⟩, Nat.succ_le_succ (ih cs).2⟩
      · simp

end Decimal

namespace Timestamp

theorem literal?_trimStart {c : Char} (visible : isBlank c = false) (rest : List Char) :
    literal? c (trimStart (c :: rest)) = some rest := by
  rw [trimStart_cons_of_not_blank visible]
  simp [literal?]

theorem year?_yearText (year : Int) {rest : List Char} (stops : Stops rest) :
    year? (yearText year ++ rest) = some (year, rest) := by
  rw [yearText]
  split
  · rename_i short
    have fits : year.toNat < powerOfTen 4 := by simp only [powerOfTen]; omega
    have read := number?_padded (by decide) fits rest
    have trimmed := trimStart_padded 4 year.toNat rest
    obtain ⟨c, cs, same, digit⟩ := padded_eq_cons 4 year.toNat
    rw [year?, trimmed]
    rw [same, List.cons_append] at read ⊢
    split
    · exact absurd (List.cons.inj ‹_›).1 (ne_of_isDigit digit (by decide))
    · exact absurd (List.cons.inj ‹_›).1 (ne_of_isDigit digit (by decide))
    · simp only [read, Option.map_some, Int.toNat_of_nonneg short.1]
  · have read : number? (padded 4 year.natAbs ++ rest).length (padded 4 year.natAbs ++ rest) =
        some (year.natAbs, rest) := by
      rw [number?_digits (padded_ne_nil 4 _) (fun c => isDigit_of_mem_padded) (by simp) (.inr stops), value_padded]
    by_cases negative : year < 0
    · rw [if_pos negative, List.cons_append, year?, trimStart_cons_of_not_blank (by decide)]
      simp only [read, Option.map_some, Option.some.injEq, Prod.mk.injEq, and_true]
      omega
    · rw [if_neg negative, List.cons_append, year?, trimStart_cons_of_not_blank (by decide)]
      simp only [read, Option.map_some, Option.some.injEq, Prod.mk.injEq, and_true]
      omega

theorem field?_padded {least most n : Nat} (low : least ≤ n) (high : n ≤ most) (fits : n < 100) (rest : List Char) :
    field? least most (padded 2 n ++ rest) = some (n, rest) := by
  rw [field?, trimStart_padded, number?_padded (by decide) (by simpa [powerOfTen] using fits)]
  simp only [if_pos (And.intro low high)]

theorem date?_dateText {d : Date} (valid : d.Valid) (rest : List Char) :
    date? (dateText d ++ rest) = some (d, rest) := by
  obtain ⟨year, month, day⟩ := d
  obtain ⟨month_pos, month_le, day_pos, day_le⟩ := valid
  simp only at month_pos month_le day_pos day_le
  have length := monthLength_bounds year month
  have month_nat : (month.toNat : Int) = month := Int.toNat_of_nonneg (by omega)
  have day_nat : (day.toNat : Int) = day := Int.toNat_of_nonneg (by omega)
  have split : dateText ⟨year, month, day⟩ ++ rest =
      yearText year ++ ('-' :: (padded 2 month.toNat ++ ('-' :: (padded 2 day.toNat ++ rest)))) := by
    simp [dateText]
  rw [split, date?, year?_yearText year (stops_cons (by decide) _)]
  have dash : isBlank '-' = false := by decide
  simp only [Option.bind_eq_bind, Option.bind_some, literal?_trimStart dash]
  rw [field?_padded (by omega) (by omega) (by omega)]
  simp only [Option.bind_some, literal?_trimStart dash]
  rw [field?_padded (by omega) (by omega) (by omega)]
  simp only [Option.bind_some, month_nat, day_nat, if_pos day_le]

theorem fraction?_padded {width n : Nat} (width_pos : 0 < width) (width_le : width ≤ 9) (fits : n < powerOfTen width)
    {rest : List Char} (stops : Stops rest) :
    fraction? ('.' :: padded width n ++ rest) = some (n * powerOfTen (9 - width), rest) := by
  have length := length_padded width_pos fits
  have ran : run 9 (padded width n ++ rest) = (padded width n, rest) :=
    run_digits (fun c => isDigit_of_mem_padded) (by omega) (.inr stops)
  have dropped : rest.dropWhile isDigit = rest := by
    cases rest with
    | nil => rfl
    | cons c cs => rw [List.dropWhile_cons_of_neg (by simp [stops c rfl])]
  rw [List.cons_append, fraction?, ran]
  split
  · rename_i none
    exact absurd (Prod.mk.inj none).1 (padded_ne_nil width n)
  · rename_i ds rest' _ same
    obtain ⟨rfl, rfl⟩ := Prod.mk.inj same
    rw [value_padded, length, dropped]

theorem fraction?_fractionText {nanos : Nat} (fits : nanos < 1000000000) {rest : List Char} (stops : Stops rest)
    (other : ∀ tail, rest ≠ '.' :: tail) : fraction? (fractionText nanos ++ rest) = some (nanos, rest) := by
  rw [fractionText]
  split
  · rename_i zero
    rw [List.nil_append, fraction?.eq_def]
    split
    · exact absurd rfl (other _)
    · rw [zero]
  · split
    · rename_i millis
      have small : nanos / 1000000 < powerOfTen 3 := by simp only [powerOfTen]; omega
      have whole : nanos / 1000000 * powerOfTen (9 - 3) = nanos := by simp only [powerOfTen]; omega
      rw [fraction?_padded (by decide) (by decide) small stops, whole]
    · split
      · have small : nanos / 1000 < powerOfTen 6 := by simp only [powerOfTen]; omega
        have whole : nanos / 1000 * powerOfTen (9 - 6) = nanos := by simp only [powerOfTen]; omega
        rw [fraction?_padded (by decide) (by decide) small stops, whole]
      · have small : nanos < powerOfTen 9 := by simp only [powerOfTen]; omega
        have whole : nanos * powerOfTen (9 - 9) = nanos := by simp [powerOfTen]
        rw [fraction?_padded (by decide) (by decide) small stops, whole]

/-- A leap second is the second after the 59th of a minute. -/
def IsProper (m : Moment) : Prop := m.leap = true → m.seconds % 60 = 59

theorem clockOn?_clockText {m : Moment} (proper : IsProper m) {date : Date} (day : date.dayNumber = m.dayNumber)
    {rest : List Char} (stops : Stops rest) (other : ∀ tail, rest ≠ '.' :: tail) :
    clockOn? date (clockText m.timeOfDay.toNat m.leap ++ rest) = some (m, rest) := by
  have bounds := m.timeOfDay_bounds
  have whole := m.day_add_timeOfDay
  obtain ⟨time, time_eq⟩ : ∃ time : Nat, m.timeOfDay = time := ⟨m.timeOfDay.toNat, by omega⟩
  simp only [nanosPerDay] at bounds whole
  have leap_second : m.leap = true → time / 1000000000 % 60 = 59 := by
    intro leap
    have last := proper leap
    simp only [Moment.seconds, nanosPerSecond] at last
    omega
  have second_le : time / 1000000000 % 60 + (if m.leap then 1 else 0) ≤ 60 := by split <;> omega
  have split : clockText time m.leap ++ rest = padded 2 (time / 1000000000 / 3600) ++ (':' ::
      (padded 2 (time / 1000000000 / 60 % 60) ++ (':' :: (padded 2 (time / 1000000000 % 60 + if m.leap then 1 else 0) ++
        (fractionText (time % 1000000000) ++ rest))))) := by
    simp [clockText]
  have colon : isBlank ':' = false := by decide
  rw [time_eq, Int.toNat_natCast, split, clockOn?, field?_padded (by omega) (by omega) (by omega)]
  simp only [Option.bind_eq_bind, Option.bind_some, literal?_trimStart colon]
  rw [field?_padded (by omega) (by omega) (by omega)]
  simp only [Option.bind_some, literal?_trimStart colon]
  rw [field?_padded (by omega) second_le (by omega)]
  simp only [Option.bind_some]
  rw [fraction?_fractionText (Nat.mod_lt _ (by decide)) stops other]
  simp only [Option.bind_some, Option.some.injEq, Prod.mk.injEq, and_true]
  have sum : (m.dayNumber * 86400 + 3600 * ↑(time / 1000000000 / 3600) + 60 * ↑(time / 1000000000 / 60 % 60) +
      ↑(time / 1000000000 % 60)) * 1000000000 + ↑(time % 1000000000) = m.nanos := by omega
  obtain ⟨nanos, leap⟩ := m
  cases leap with
  | false =>
    have short : min (time / 1000000000 % 60 + 0) 59 = time / 1000000000 % 60 := by omega
    have other : ¬ time / 1000000000 % 60 + 0 = 60 := by omega
    simp only [Bool.false_eq_true, if_false, Moment.mk.injEq, nanosPerSecond, decide_eq_false other, short, and_true,
      day]
    exact sum
  | true =>
    have last := leap_second rfl
    have short : min (time / 1000000000 % 60 + 1) 59 = time / 1000000000 % 60 := by omega
    have sixty : time / 1000000000 % 60 + 1 = 60 := by omega
    simp only [if_true, Moment.mk.injEq, nanosPerSecond, decide_eq_true sixty, short, and_true, day]
    exact sum

theorem instant?_instantText {i : Instant} (proper : IsProper i.toMoment) : instant? (instantText i) = some i := by
  have split : instantText i = dateText i.date ++ ('T' :: (clockText i.timeOfDay.toNat i.leap ++ ['Z'])) := by
    simp [instantText, momentText]
  have valid : i.date.Valid := Date.ofDayNumber_valid _
  have day : i.date.dayNumber = i.dayNumber := Date.dayNumber_ofDayNumber _
  have civil : CivilTime.ofMoment? i.toMoment = some ⟨i.toMoment, i.inRange⟩ := CivilTime.ofMoment?_eq_some.mpr rfl
  rw [split, instant?, date?_dateText valid]
  simp only [Option.bind_eq_bind, Option.bind_some, separator?]
  rw [clockOn?_clockText proper day (stops_cons (by decide) _) (by simp)]
  simp only [Option.bind_some, civil]
  have zulu : offset? (trimStart ['Z']) = some (0, []) := by decide
  have same : i.toMoment.ahead (-0) = i.toMoment := by simp [Moment.ahead]
  have found : Instant.ofMoment? i.toMoment = some i := Instant.ofMoment?_eq_some.mpr rfl
  simp only [zulu, Option.bind_some, same, found]
  rfl

theorem fraction?_lt {cs rest : List Char} {nanos : Nat} (h : fraction? cs = some (nanos, rest)) :
    nanos < 1000000000 := by
  rw [fraction?.eq_def] at h
  split at h
  · rename_i text
    split at h
    · cases h
    · rename_i ds _ _ ran
      obtain ⟨all, length⟩ := run_spec 9 text
      rw [ran] at all length
      have small := Nat.mul_lt_mul_of_pos_right (value_lt all) (powerOfTen_pos (9 - ds.length))
      rw [← powerOfTen_add, Nat.add_sub_cancel' length] at small
      cases h
      exact small
  · cases h
    decide

theorem isProper_of_clockOn? {date : Date} {cs rest : List Char} {m : Moment} (h : clockOn? date cs = some (m, rest)) :
    IsProper m := by
  simp only [clockOn?, Option.bind_eq_bind, Option.bind_eq_some_iff] at h
  obtain ⟨⟨hour, _⟩, _, _, _, ⟨minute, _⟩, _, _, _, ⟨second, _⟩, _, ⟨nanos, _⟩, read, made⟩ := h
  have small := fraction?_lt read
  cases made
  intro leap
  have sixty : second = 60 := of_decide_eq_true leap
  simp only [Moment.seconds, nanosPerSecond, sixty]
  omega

theorem minutes_of_signless? {cs rest : List Char} {seconds : Nat} (h : signless? cs = some (seconds, rest)) :
    seconds % 60 = 0 := by
  simp only [signless?, Option.bind_eq_bind, Option.bind_eq_some_iff] at h
  obtain ⟨⟨hours, _⟩, _, ⟨minutes, _⟩, _, made⟩ := h
  split at made
  · cases made
    omega
  · cases made

theorem minutes_of_offset? {cs rest : List Char} {seconds : Int} (h : offset? cs = some (seconds, rest)) :
    seconds % 60 = 0 := by
  rw [offset?.eq_def] at h
  split at h
  · cases h
    rfl
  · cases h
    rfl
  · cases h
    rfl
  · obtain ⟨⟨n, _⟩, read, same⟩ := Option.map_eq_some_iff.mp h
    have whole := minutes_of_signless? read
    cases same
    omega
  · obtain ⟨⟨n, _⟩, read, same⟩ := Option.map_eq_some_iff.mp h
    have whole := minutes_of_signless? read
    cases same
    omega
  · obtain ⟨⟨n, _⟩, read, same⟩ := Option.map_eq_some_iff.mp h
    have whole := minutes_of_signless? read
    cases same
    omega
  · cases h

/-- A leap second is read only where it can be written: offsets from UTC are whole minutes. -/
theorem isProper_of_instant? {cs : List Char} {i : Instant} (h : instant? cs = some i) : IsProper i.toMoment := by
  simp only [instant?, Option.bind_eq_bind, Option.bind_eq_some_iff] at h
  obtain ⟨⟨date, _⟩, _, _, _, ⟨moment, _⟩, clock, civil, made, ⟨offset, _⟩, read, rest⟩ := h
  have proper := isProper_of_clockOn? clock
  have whole := minutes_of_offset? read
  split at rest
  · rw [Instant.ofMoment?_eq_some.mp rest, CivilTime.ofMoment?_eq_some.mp made]
    intro leap
    have last := proper leap
    rw [Moment.seconds_ahead]
    simp only at whole last ⊢
    omega
  · cases rest

end Timestamp

end Cadence.Text
