import Mathlib.Data.List.Basic
import Cadence.Proofs.Text.Timestamp
import Cadence.Zone.Text

/-!
Zones as text, whatever places there are. A gazetteer finds places by their names, which start with a letter and go on
with letters, digits and a few marks. Zones that were read from a text have a text that reads back, however they were
spelled (`Zone.ofText_text`). So the text of a zone that can be had reads back exactly if its offset, where it has
one, is a whole number of minutes (`Zone.ofText_text_iff`). An offset with seconds can be had from a number of seconds
only, and its text is refused (`Zone.ofText_text_of_not_isWhole`).
-/

namespace Cadence

open Text Text.Decimal

namespace Offset

theorem minutes_of_ofText? {cs : List Char} {o : Offset} (h : ofText? cs = some o) : o.seconds % 60 = 0 := by
  have unsigned : ∀ (sign : Int) (rest : List Char), ofUnsigned? sign rest = some o → o.seconds % 60 = 0 := by
    intro sign rest read
    simp only [ofUnsigned?] at read
    split at read
    · split at read
      · rename_i hours minutes _
        split at read
        · have whole : (3600 * hours + 60 * minutes : Int) % 60 = 0 := by omega
          rw [ofSeconds?_eq_some.mp read, Int.mul_emod, whole, Int.mul_zero]
          rfl
        · cases read
      · cases read
    · cases read
  rw [ofText?.eq_def] at h
  split at h
  · exact unsigned 1 _ h
  · exact unsigned (-1) _ h
  · cases h

theorem padded_two {n : Nat} (small : n < 100) :
    ∃ a b, padded 2 n = [a, b] ∧ isDigit a = true ∧ isDigit b = true ∧ value [a, b] = n := by
  have length : (padded 2 n).length = 2 := length_padded (by decide) (by simpa [powerOfTen] using small)
  obtain ⟨a, b, pair⟩ := List.length_eq_two.mp length
  have digit : ∀ c ∈ [a, b], isDigit c = true := fun c member => isDigit_of_mem_padded (pair ▸ member)
  exact ⟨a, b, pair, digit a (by simp), digit b (by simp), by rw [← pair, value_padded]⟩

theorem bne_colon {c : Char} (digit : isDigit c = true) : (c != ':') = true :=
  bne_iff_ne.mpr (ne_of_isDigit digit (by decide))

theorem ofUnsigned?_clock {o : Offset} {sign : Int} {hours minutes : Nat} (hours_lt : hours < 24)
    (minutes_lt : minutes < 60) (same : sign * (3600 * hours + 60 * minutes) = o.seconds) :
    ofUnsigned? sign (padded 2 hours ++ ':' :: padded 2 minutes) = some o := by
  obtain ⟨a, b, first, a_digit, b_digit, hours_eq⟩ := padded_two (n := hours) (by omega)
  obtain ⟨c, d, second, c_digit, d_digit, minutes_eq⟩ := padded_two (n := minutes) (by omega)
  have filtered : ([a, b] ++ ':' :: [c, d]).filter (· != ':') = [a, b, c, d] := by
    simp [bne_colon, a_digit, b_digit, c_digit, d_digit]
  rw [first, second, ofUnsigned?]
  simp only [filtered, List.all_cons, a_digit, b_digit, c_digit, d_digit, List.all_nil, Bool.and_self, if_true,
    hoursMinutes?, hours_eq, minutes_eq, if_pos minutes_lt]
  exact ofSeconds?_eq_some.mpr same.symm

theorem ofUnsigned?_seconds {sign : Int} {hours minutes seconds : Nat} (hours_lt : hours < 24)
    (minutes_lt : minutes < 60) (seconds_lt : seconds < 60) :
    ofUnsigned? sign (padded 2 hours ++ ':' :: padded 2 minutes ++ ':' :: padded 2 seconds) = none := by
  obtain ⟨a, b, first, a_digit, b_digit, -⟩ := padded_two (n := hours) (by omega)
  obtain ⟨c, d, second, c_digit, d_digit, -⟩ := padded_two (n := minutes) (by omega)
  obtain ⟨e, f, third, e_digit, f_digit, -⟩ := padded_two (n := seconds) (by omega)
  have filtered : ([a, b] ++ ':' :: [c, d] ++ ':' :: [e, f]).filter (· != ':') = [a, b, c, d, e, f] := by
    simp [bne_colon, a_digit, b_digit, c_digit, d_digit, e_digit, f_digit]
  rw [first, second, third, ofUnsigned?]
  simp only [filtered, hoursMinutes?, ite_self]

theorem toList_text {o : Offset} (whole : o.seconds % 60 = 0) :
    o.text.toList = (if o.seconds < 0 then '-' else '+') ::
      (padded 2 (o.seconds.natAbs / 3600) ++ ':' :: padded 2 (o.seconds.natAbs / 60 % 60)) := by
  have no_rest : o.seconds.natAbs % 60 = 0 := by omega
  simp [text, no_rest]

theorem ofText?_text {o : Offset} (whole : o.seconds % 60 = 0) : ofText? o.text.toList = some o := by
  have bounds := o.inRange
  rw [toList_text whole]
  by_cases negative : o.seconds < 0
  · rw [if_pos negative]
    exact ofUnsigned?_clock (by omega) (by omega) (by omega)
  · rw [if_neg negative]
    exact ofUnsigned?_clock (by omega) (by omega) (by omega)

theorem ofText?_text_eq_none {o : Offset} (odd : o.seconds % 60 ≠ 0) : ofText? o.text.toList = none := by
  have bounds := o.inRange
  have rest : o.seconds.natAbs % 60 ≠ 0 := by omega
  have unread : ∀ sign, ofUnsigned? sign (padded 2 (o.seconds.natAbs / 3600) ++
      ':' :: padded 2 (o.seconds.natAbs / 60 % 60) ++ ':' :: padded 2 (o.seconds.natAbs % 60)) = none := fun sign =>
    ofUnsigned?_seconds (by omega) (by omega) (by omega)
  simp only [text, if_neg rest, String.toList_ofList]
  by_cases negative : o.seconds < 0
  · rw [if_pos negative]
    exact unread (-1)
  · rw [if_neg negative]
    exact unread 1

theorem mem_text {o : Offset} {c : Char} (member : c ∈ o.text.toList) :
    c = '-' ∨ c = '+' ∨ c = ':' ∨ isDigit c = true := by
  have number : ∀ {n}, c ∈ padded 2 n → c = '-' ∨ c = '+' ∨ c = ':' ∨ isDigit c = true := fun digits =>
    .inr (.inr (.inr (isDigit_of_mem_padded digits)))
  have colon : c = ':' → c = '-' ∨ c = '+' ∨ c = ':' ∨ isDigit c = true := fun same => .inr (.inr (.inl same))
  simp only [text, String.toList_ofList, List.mem_cons, List.mem_append] at member
  rcases member with rfl | (hours | same | minutes) | rest
  · split
    · exact .inl rfl
    · exact .inr (.inl rfl)
  · exact number hours
  · exact colon same
  · exact number minutes
  · split at rest
    · cases rest
    · rcases List.mem_cons.mp rest with same | seconds
      · exact colon same
      · exact number seconds

theorem isBlank_of_mem_text {o : Offset} {c : Char} (member : c ∈ o.text.toList) : isBlank c = false := by
  rcases mem_text member with rfl | rfl | rfl | digit
  · decide
  · decide
  · decide
  · exact isBlank_of_isDigit digit

end Offset

def isNameChar (c : Char) : Bool := c.isAlphanum || c == '/' || c == '_' || c == '-' || c == '+'

theorem toNat_of_isNameChar {c : Char} (h : isNameChar c = true) : 43 ≤ c.toNat ∧ c.toNat ≤ 122 ∧ c.toNat ≠ 92 := by
  change (decide (65 ≤ c.toNat ∧ c.toNat ≤ 90) || (decide (97 ≤ c.toNat) && decide (c.toNat ≤ 122)) ||
    (decide (48 ≤ c.toNat) && decide (c.toNat ≤ 57)) || c == '/' || c == '_' || c == '-' || c == '+') = true at h
  simp only [Bool.or_eq_true, Bool.and_eq_true, decide_eq_true_eq, beq_iff_eq] at h
  rcases h with (((code | rfl) | rfl) | rfl) | rfl
  · omega
  all_goals decide

theorem isBlank_of_isNameChar {c : Char} (h : isNameChar c = true) : isBlank c = false := by
  have bounds := toNat_of_isNameChar h
  simp only [isBlank, Bool.or_eq_false_iff, Bool.and_eq_false_iff, decide_eq_false_iff_not, beq_eq_false_iff_ne]
  omega

/-- Finds places by their names. -/
structure IsGazetteer (place? : String → Option Region) : Prop where
  name : ∀ written place, place? written = some place → place.name = written
  spelling : ∀ written place, place? written = some place → ∀ c ∈ written.toList, isNameChar c = true
  initial : ∀ written place, place? written = some place → written.toList.head?.any Char.isAlpha = true

theorem isGazetteer_ofName? : IsGazetteer Region.ofName? := by
  have known : ∀ written place, Region.ofName? written = some place → place ∈ Region.all ∧ place.name = written :=
    fun written place found => ⟨List.mem_of_find?_eq_some found, by simpa using List.find?_some found⟩
  have spelled : ∀ place ∈ Region.all, place.name.toList.all isNameChar = true := by decide +kernel
  have letters : ∀ place ∈ Region.all, place.name.toList.head?.any Char.isAlpha = true := by decide +kernel
  refine ⟨fun written place found => (known written place found).2, fun written place found => ?_,
    fun written place found => ?_⟩
  · obtain ⟨member, rfl⟩ := known written place found
    exact List.all_eq_true.mp (spelled place member)
  · obtain ⟨member, rfl⟩ := known written place found
    exact letters place member

namespace Zone

/-- Its offset, if it is a fixed one, is a whole number of minutes. -/
def IsWhole (z : Zone) : Prop := ∀ o, z = fixed o → o.seconds % 60 = 0

theorem isWhole_fixed {o : Offset} : (fixed o).IsWhole ↔ o.seconds % 60 = 0 :=
  ⟨fun whole => whole o rfl, fun whole _ same => fixed.inj same ▸ whole⟩

theorem ofKeyword?_cases {word : List Char} {z : Zone} (h : ofKeyword? word = some z) : z = system ∨ z = utc := by
  simp only [ofKeyword?] at h
  split at h
  · exact .inl (Option.some.inj h).symm
  · split at h
    · exact .inr (Option.some.inj h).symm
    · cases h

theorem ofKeyword?_offset (o : Offset) : ofKeyword? (upper o.text.toList) = none := by
  simp only [Offset.text, String.toList_ofList]
  split <;> simp [ofKeyword?, upper]

theorem ofSeconds_cases {n : Int} {z : Zone} (h : ofSeconds n = .ok z) : ∃ o, o.seconds = n ∧ z = fixed o := by
  simp only [ofSeconds] at h
  split at h
  · rename_i o made
    cases h
    exact ⟨o, Offset.ofSeconds?_eq_some.mp made, rfl⟩
  · cases h

variable [TzDatabase] {z : Zone} {written : String}

theorem ofText_eq_ok : ofText written = .ok z ↔ ofTrimmed? (trim written.toList) = some z := by
  rw [ofText]
  cases ofTrimmed? (trim written.toList) <;> simp

theorem ofText_cases (h : ofText written = .ok z) :
    z = system ∨ z = utc ∨ (∃ o, Offset.ofText? (trim written.toList) = some o ∧ z = fixed o) ∨
      ∃ cs place, ofKeyword? (upper cs) = none ∧ Offset.ofText? cs = none ∧
        TzDatabase.place? (String.ofList cs) = some place ∧ z = region place := by
  have read := ofText_eq_ok.mp h
  simp only [ofTrimmed?, Option.orElse_eq_orElse, Option.orElse_eq_or, Option.or_eq_some_iff, Option.map_eq_some_iff,
    Option.map_eq_none_iff] at read
  rcases read with word | ⟨no_word, ⟨o, clock, rfl⟩ | ⟨no_clock, place, found, rfl⟩⟩
  · exact (ofKeyword?_cases word).imp_right .inl
  · exact .inr (.inr (.inl ⟨o, clock, rfl⟩))
  · exact .inr (.inr (.inr ⟨_, place, no_word, no_clock, found, rfl⟩))

theorem isWhole_of_ofText (h : ofText written = .ok z) : z.IsWhole := by
  obtain rfl | rfl | ⟨o, clock, rfl⟩ | ⟨cs, place, -, -, -, rfl⟩ := ofText_cases h
  · exact fun _ other => nomatch other
  · exact fun _ other => nomatch other
  · exact isWhole_fixed.mpr (Offset.minutes_of_ofText? clock)
  · exact fun _ other => nomatch other

theorem ofText_offset {o : Offset} (whole : o.seconds % 60 = 0) : ofText o.text = .ok (fixed o) := by
  rw [ofText_eq_ok, trim_of_none_blank fun _ => Offset.isBlank_of_mem_text, ofTrimmed?, ofKeyword?_offset,
    Offset.ofText?_text whole]
  rfl

/-- There is a text that reads as this zone. -/
def IsSpelled (z : Zone) : Prop := ∃ written, ofText written = .ok z

/-- A zone that can be had, from a number of seconds or from a text. -/
def IsGiven (z : Zone) : Prop := (∃ n, ofSeconds n = .ok z) ∨ z.IsSpelled

section IsGazetteer

variable (gazetteer : IsGazetteer TzDatabase.place?)
include gazetteer

theorem ofText_text (spelled : z.IsSpelled) : ofText z.text = .ok z := by
  obtain ⟨written, read⟩ := spelled
  obtain rfl | rfl | ⟨o, clock, rfl⟩ | ⟨cs, place, no_word, no_clock, found, rfl⟩ := ofText_cases read
  · rfl
  · rfl
  · exact ofText_offset (Offset.minutes_of_ofText? clock)
  · have clean : trim cs = cs := trim_of_none_blank fun c member =>
      isBlank_of_isNameChar (gazetteer.spelling _ place found c (by simpa using member))
    rw [ofText_eq_ok, text, gazetteer.name _ place found, String.toList_ofList, clean, ofTrimmed?, no_word, no_clock,
      found]
    rfl

theorem ofText_text_of_not_isWhole (odd : ¬z.IsWhole) : ofText z.text = .error (.invalidZone (.text z.text)) := by
  cases z with
  | system | utc | region _ => exact absurd (fun _ other => nomatch other) odd
  | fixed o =>
    have unread := Offset.ofText?_text_eq_none (mt isWhole_fixed.mpr odd)
    have nowhere : TzDatabase.place? o.text = none := by
      cases found : TzDatabase.place? o.text with
      | none => rfl
      | some place =>
        have letter := gazetteer.initial _ place found
        simp only [Offset.text, String.toList_ofList] at letter
        split at letter <;> simp at letter
    simp only [ofText, ofTrimmed?, text, trim_of_none_blank fun _ => Offset.isBlank_of_mem_text, ofKeyword?_offset,
      unread, String.ofList_toList, nowhere]
    rfl

theorem ofText_text_iff (given : z.IsGiven) : ofText z.text = .ok z ↔ z.IsWhole := by
  refine ⟨isWhole_of_ofText, fun whole => ?_⟩
  obtain ⟨n, made⟩ | spelled := given
  · obtain ⟨o, -, rfl⟩ := ofSeconds_cases made
    exact ofText_offset (isWhole_fixed.mp whole)
  · exact ofText_text gazetteer spelled

end IsGazetteer

end Zone

end Cadence
