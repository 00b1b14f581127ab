import Mathlib.Data.List.Basic
import Cadence.Proofs.Zone.Text

/-!
How an offset is spelled: a sign, two digits of hours up to 23, and two digits of minutes up to 59 or none, with a colon
between the two or not. Reading leaves out all colons behind the sign before it counts the digits. So it takes every
offset that is spelled, and beside those only texts with a colon in another place (`Zone.offset_spelled_iff`).
-/

namespace Cadence

open Text Text.Decimal

namespace Offset

inductive IsSign : Char → Int → Prop
  | east : IsSign '+' 1
  | west : IsSign '-' (-1)

/-- The texts for so many seconds east of UTC. -/
inductive Spells : List Char → Int → Prop
  | hours {c : Char} {sign : Int} (signed : IsSign c sign) {h : Nat} (hours : h ≤ 23) :
      Spells (c :: padded 2 h) (sign * (3600 * h))
  | minutes {c : Char} {sign : Int} (signed : IsSign c sign) {h m : Nat} (hours : h ≤ 23) (minutes : m ≤ 59) :
      Spells (c :: (padded 2 h ++ padded 2 m)) (sign * (3600 * h + 60 * m))
  | colon {c : Char} {sign : Int} (signed : IsSign c sign) {h m : Nat} (hours : h ≤ 23) (minutes : m ≤ 59) :
      Spells (c :: (padded 2 h ++ ':' :: padded 2 m)) (sign * (3600 * h + 60 * m))

/-- A colon stands elsewhere than behind a sign and two characters, with two more behind it. -/
def HasStrayColon (cs : List Char) : Prop :=
  ∃ front back, cs = front ++ ':' :: back ∧ ¬(front.length = 3 ∧ back.length = 2)

variable {c : Char} {cs rest : List Char} {sign n : Int} {o : Offset}

theorem length_padded_two {k : Nat} (small : k < 100) : (padded 2 k).length = 2 :=
  length_padded (by decide) (by simpa [powerOfTen] using small)

theorem padded_value {ds : List Char} (two : ds.length = 2) (all : ds.all isDigit = true) :
    padded 2 (value ds) = ds := by
  have digit_of : ∀ d, isDigit d = true → ∃ k, k < 10 ∧ d = digit k := by
    intro d isDigit
    simp only [Decimal.isDigit, Bool.and_eq_true, decide_eq_true_eq] at isDigit
    refine ⟨d.toNat - 48, by omega, ?_⟩
    rw [digit, Nat.add_sub_cancel' isDigit.1, Char.ofNat_toNat]
  obtain ⟨a, b, rfl⟩ := List.length_eq_two.mp two
  simp only [List.all_cons, List.all_nil, Bool.and_true, Bool.and_eq_true] at all
  obtain ⟨x, x_lt, rfl⟩ := digit_of a all.1
  obtain ⟨y, y_lt, rfl⟩ := digit_of b all.2
  have number : value [digit x, digit y] = 10 * x + y := by simp [value, toNat_digit x_lt, toNat_digit y_lt]
  rw [number]
  rcases Nat.eq_zero_or_pos x with rfl | pos
  · have small : digits (10 * 0 + y) = [digit y] := by rw [digits, if_pos (by omega), Nat.mul_zero, Nat.zero_add]
    rw [padded, small]
    rfl
  · have front : (10 * x + y) / 10 = x := by omega
    have back : (10 * x + y) % 10 = y := by omega
    have large : digits (10 * x + y) = [digit x, digit y] := by
      rw [digits, if_neg (by omega), front, back, digits, if_pos x_lt]
      rfl
    rw [padded, large]
    rfl

theorem all_padded (k : Nat) : (padded 2 k).all isDigit = true :=
  List.all_eq_true.mpr fun _ member => isDigit_of_mem_padded member

theorem IsSign.notMem_colon (signed : IsSign c sign) (absent : ':' ∉ rest) : ':' ∉ c :: rest := by
  cases signed <;> exact List.not_mem_cons_of_ne_of_not_mem (by decide) absent

theorem IsSign.bounds (signed : IsSign c sign) : sign = 1 ∨ sign = -1 := by
  cases signed
  · exact .inl rfl
  · exact .inr rfl

theorem notMem_colon {ds : List Char} (digits : ds.all isDigit = true) : ':' ∉ ds := fun member =>
  absurd (List.all_eq_true.mp digits _ member) (by decide)

theorem Spells.exists_offset (spelled : Spells cs n) : ∃ o : Offset, o.seconds = n := by
  have bounds : -86400 < n ∧ n < 86400 := by
    cases spelled with
    | hours signed _ | minutes signed _ _ | colon signed _ _ => rcases signed.bounds with rfl | rfl <;> omega
  exact ⟨⟨n, bounds⟩, rfl⟩

theorem filter_of_notMem {ds : List Char} (absent : ':' ∉ ds) : ds.filter (· != ':') = ds := by
  refine List.filter_eq_self.mpr fun d member => bne_iff_ne.mpr ?_
  rintro rfl
  exact absent member

theorem filter_padded (k : Nat) : (padded 2 k).filter (· != ':') = padded 2 k :=
  filter_of_notMem (notMem_colon (all_padded k))

theorem not_hasStrayColon_of_notMem (absent : ':' ∉ cs) : ¬HasStrayColon cs := by
  rintro ⟨front, back, rfl, -⟩
  exact absent (List.mem_append_right _ List.mem_cons_self)

theorem Spells.not_hasStrayColon (spelled : Spells cs n) : ¬HasStrayColon cs := by
  cases spelled with
  | @hours c sign signed h hours =>
    exact not_hasStrayColon_of_notMem (signed.notMem_colon (notMem_colon (all_padded h)))
  | @minutes c sign signed h m hours minutes =>
    have digits : (padded 2 h ++ padded 2 m).all isDigit = true := by
      rw [List.all_append, all_padded, all_padded, Bool.and_self]
    exact not_hasStrayColon_of_notMem (signed.notMem_colon (notMem_colon digits))
  | @colon c sign signed h m hours minutes =>
    rintro ⟨front, back, split, stray⟩
    have before := signed.notMem_colon (notMem_colon (all_padded h))
    rw [← List.cons_append, List.append_cons_inj_of_notMem before (notMem_colon (all_padded m))] at split
    obtain ⟨rfl, -, rfl⟩ := split
    refine stray ⟨?_, length_padded_two (by omega)⟩
    rw [List.length_cons, length_padded_two (by omega)]

theorem Spells.drop_colons (spelled : Spells (c :: rest) n) : Spells (c :: rest.filter (· != ':')) n := by
  cases spelled with
  | @hours c sign signed h hours =>
    rw [filter_padded]
    exact .hours signed hours
  | @minutes c sign signed h m hours minutes =>
    rw [List.filter_append, filter_padded, filter_padded]
    exact .minutes signed hours minutes
  | @colon c sign signed h m hours minutes =>
    rw [List.filter_append, List.filter_cons_of_neg (by decide), filter_padded, filter_padded]
    exact .minutes signed hours minutes

theorem exists_colon (placed : ¬HasStrayColon (c :: rest)) (colon : ':' ∈ rest) :
    ∃ front back, rest = front ++ ':' :: back ∧ front.length = 2 ∧ back.length = 2 ∧ ':' ∉ front ∧ ':' ∉ back := by
  have place : ∀ front back, rest = front ++ ':' :: back → front.length = 2 ∧ back.length = 2 := by
    intro front back split
    have here : (c :: front).length = 3 ∧ back.length = 2 := by
      by_contra stray
      exact placed ⟨c :: front, back, by rw [split, List.cons_append], stray⟩
    simpa using here
  obtain ⟨front, back, split⟩ := List.append_of_mem colon
  obtain ⟨before, after⟩ := place front back split
  refine ⟨front, back, split, before, after, fun again => ?_, fun again => ?_⟩
  · obtain ⟨x, y, rfl⟩ := List.append_of_mem again
    have first := place x (y ++ ':' :: back) (by rw [split, List.append_assoc, List.cons_append])
    simp [after] at first
  · obtain ⟨x, y, rfl⟩ := List.append_of_mem again
    have second := place (front ++ ':' :: x) y (by rw [split, List.append_assoc, List.cons_append])
    simp [before] at second

/-- Colons that are left out were in place, or one of them was a stray one. -/
theorem Spells.of_drop_colons (placed : ¬HasStrayColon (c :: rest)) (spelled : Spells (c :: rest.filter (· != ':')) n) :
    Spells (c :: rest) n := by
  by_cases colon : ':' ∈ rest
  · obtain ⟨front, back, rfl, before, after, no_front, no_back⟩ := exists_colon placed colon
    rw [List.filter_append, List.filter_cons_of_neg (by decide), filter_of_notMem no_front,
      filter_of_notMem no_back] at spelled
    have four : (front ++ back).length = 4 := by rw [List.length_append, before, after]
    generalize digits : front ++ back = ds at spelled four
    cases spelled with
    | @hours c sign signed h hours => simp [length_padded_two (show h < 100 by omega)] at four
    | @minutes c sign signed h m hours minutes =>
      obtain ⟨rfl, rfl⟩ := List.append_inj digits (by rw [before, length_padded_two (by omega)])
      exact .colon signed hours minutes
    | @colon c sign signed h m hours minutes =>
      simp [length_padded_two (show h < 100 by omega), length_padded_two (show m < 100 by omega)] at four
  · rwa [filter_of_notMem colon] at spelled

theorem hoursMinutes?_padded {h : Nat} (small : h < 100) : hoursMinutes? (padded 2 h) = some (h, 0) := by
  obtain ⟨a, b, pair, -, -, number⟩ := padded_two small
  rw [pair, hoursMinutes?, number]

theorem hoursMinutes?_append {h m : Nat} (h_lt : h < 100) (m_lt : m < 100) :
    hoursMinutes? (padded 2 h ++ padded 2 m) = some (h, m) := by
  obtain ⟨a, b, first, -, -, hours⟩ := padded_two h_lt
  obtain ⟨x, y, second, -, -, minutes⟩ := padded_two m_lt
  rw [first, second, List.cons_append, List.cons_append, List.nil_append, hoursMinutes?, hours, minutes]

theorem eq_padded_of_hoursMinutes? {ds : List Char} {h m : Nat} (digits : ds.all isDigit = true)
    (read : hoursMinutes? ds = some (h, m)) : m = 0 ∧ ds = padded 2 h ∨ ds = padded 2 h ++ padded 2 m := by
  rw [hoursMinutes?.eq_def] at read
  split at read
  · rename_i a b
    cases read
    exact .inl ⟨rfl, (padded_value rfl digits).symm⟩
  · rename_i a b x y
    cases read
    have halves : [a, b].all isDigit = true ∧ [x, y].all isDigit = true := by
      rwa [← Bool.and_eq_true, ← List.all_append]
    rw [padded_value rfl halves.1, padded_value rfl halves.2]
    exact .inr rfl
  · cases read

theorem ofUnsigned?_of_hoursMinutes? {h m : Nat} (digits : (rest.filter (· != ':')).all isDigit = true)
    (read : hoursMinutes? (rest.filter (· != ':')) = some (h, m)) (minutes : m ≤ 59) :
    ofUnsigned? sign rest = ofSeconds? (sign * (3600 * h + 60 * m)) := by
  simp only [ofUnsigned?, digits, read, if_true, if_pos (show m < 60 by omega)]

theorem spells_of_ofUnsigned? (signed : IsSign c sign) (read : ofUnsigned? sign rest = some o) :
    Spells (c :: rest.filter (· != ':')) o.seconds := by
  simp only [ofUnsigned?] at read
  split at read
  · rename_i digits
    split at read
    · rename_i h m found
      split at read
      · rename_i minutes
        have seconds := ofSeconds?_eq_some.mp read
        have bounds := o.inRange
        have hours : h ≤ 23 := by
          rcases signed.bounds with rfl | rfl <;> omega
        obtain ⟨rfl, pair⟩ | pairs := eq_padded_of_hoursMinutes? digits found
        · have whole : o.seconds = sign * (3600 * h) := by simpa using seconds
          rw [pair, whole]
          exact .hours signed hours
        · rw [pairs, seconds]
          exact .minutes signed hours (by omega)
      · cases read
    · cases read
  · cases read

theorem ofUnsigned?_of_spells (spelled : Spells (c :: rest.filter (· != ':')) o.seconds) :
    ∃ sign, IsSign c sign ∧ ofUnsigned? sign rest = some o := by
  generalize digits : rest.filter (· != ':') = ds at spelled
  generalize seconds : o.seconds = n at spelled
  cases spelled with
  | @hours c sign signed h hours =>
    have read : hoursMinutes? (rest.filter (· != ':')) = some (h, 0) := by
      rw [digits, hoursMinutes?_padded (by omega)]
    refine ⟨sign, signed, ?_⟩
    rw [ofUnsigned?_of_hoursMinutes? (by rw [digits, all_padded]) read (by omega), ofSeconds?_eq_some, seconds]
    simp
  | @minutes c sign signed h m hours minutes =>
    have read : hoursMinutes? (rest.filter (· != ':')) = some (h, m) := by
      rw [digits, hoursMinutes?_append (by omega) (by omega)]
    refine ⟨sign, signed, ?_⟩
    rw [ofUnsigned?_of_hoursMinutes? (by rw [digits, List.all_append, all_padded, all_padded, Bool.and_self]) read
      minutes, ofSeconds?_eq_some, seconds]
  | @colon c sign signed h m hours minutes =>
    have colon : ':' ∈ rest.filter (· != ':') := by
      rw [digits]
      exact List.mem_append_right _ List.mem_cons_self
    exact absurd (List.mem_filter.mp colon).2 (by decide)

theorem ofText?_of_sign (signed : IsSign c sign) : ofText? (c :: rest) = ofUnsigned? sign rest := by
  cases signed <;> rfl

theorem ofText?_eq_some_iff :
    ofText? cs = some o ↔ ∃ c rest, cs = c :: rest ∧ Spells (c :: rest.filter (· != ':')) o.seconds := by
  constructor
  · intro read
    rw [ofText?.eq_def] at read
    split at read
    · exact ⟨_, _, rfl, spells_of_ofUnsigned? .east read⟩
    · exact ⟨_, _, rfl, spells_of_ofUnsigned? .west read⟩
    · cases read
  · rintro ⟨c, rest, rfl, spelled⟩
    obtain ⟨sign, signed, read⟩ := ofUnsigned?_of_spells spelled
    rw [ofText?_of_sign signed, read]

end Offset

namespace Zone

variable {written : String} {o : Offset} {c : Char} {rest : List Char} {sign : Int}

theorem ofKeyword?_of_sign (signed : Offset.IsSign c sign) : ofKeyword? (upper (c :: rest)) = none := by
  cases signed <;> simp [ofKeyword?, upper]

section TzDatabase

variable [TzDatabase]

theorem ofText_of_sign (gazetteer : IsGazetteer TzDatabase.place?) (signed : Offset.IsSign c sign)
    (starts : trim written.toList = c :: rest) : ofText written =
      match Offset.ofText? (trim written.toList) with
      | some o => .ok (fixed o)
      | none => .error (.invalidZone (.text written)) := by
  have nowhere : TzDatabase.place? (String.ofList (c :: rest)) = none := by
    cases found : TzDatabase.place? (String.ofList (c :: rest)) with
    | none => rfl
    | some place =>
      have letter := gazetteer.initial _ place found
      cases signed <;> simp at letter
  simp only [ofText, ofTrimmed?, starts, ofKeyword?_of_sign signed, nowhere]
  cases Offset.ofText? (c :: rest) <;> rfl

/-- The text stands for a fixed offset of so many seconds. -/
def IsReadAs (written : String) (n : Int) : Prop :=
  ∃ o : Offset, o.seconds = n ∧ ofText written = .ok (fixed o)

theorem ofText_eq_fixed_iff :
    ofText written = .ok (fixed o) ↔ ∃ c rest, trim written.toList = c :: rest ∧
      Offset.Spells (c :: rest.filter (· != ':')) o.seconds := by
  rw [← Offset.ofText?_eq_some_iff]
  constructor
  · intro read
    obtain same | same | ⟨p, clock, same⟩ | ⟨cs, place, -, -, -, same⟩ := ofText_cases read
    · cases same
    · cases same
    · cases same
      exact clock
    · cases same
  · intro clock
    obtain ⟨c, rest, starts, spelled⟩ := Offset.ofText?_eq_some_iff.mp clock
    obtain ⟨sign, signed, -⟩ := Offset.ofUnsigned?_of_spells spelled
    rw [starts] at clock
    rw [ofText_eq_ok, starts, ofTrimmed?, ofKeyword?_of_sign signed, clock]
    rfl

/-- Whatever places there are, a text is read as a fixed offset exactly if it is spelled like one after the colons
behind its first character have been left out. Where no colon is out of place, the text itself is spelled so; where one
is, it is not. All other texts that start with a sign are refused, and the error has the text as it was given. -/
theorem offset_spelled_iff (gazetteer : IsGazetteer TzDatabase.place?) (written : String) :
    (∀ n, IsReadAs written n ↔
      ∃ c rest, trim written.toList = c :: rest ∧ Offset.Spells (c :: rest.filter (· != ':')) n) ∧
    (¬Offset.HasStrayColon (trim written.toList) →
      ∀ n, IsReadAs written n ↔ Offset.Spells (trim written.toList) n) ∧
    (Offset.HasStrayColon (trim written.toList) → ∀ n, ¬Offset.Spells (trim written.toList) n) ∧
    ∀ c rest sign, trim written.toList = c :: rest → Offset.IsSign c sign → (∀ n, ¬IsReadAs written n) →
      ofText written = .error (.invalidZone (.text written)) := by
  have reads : ∀ n, IsReadAs written n ↔
      ∃ c rest, trim written.toList = c :: rest ∧ Offset.Spells (c :: rest.filter (· != ':')) n := by
    intro n
    constructor
    · rintro ⟨o, rfl, read⟩
      exact ofText_eq_fixed_iff.mp read
    · rintro ⟨c, rest, starts, spelled⟩
      obtain ⟨o, rfl⟩ := spelled.exists_offset
      exact ⟨o, rfl, ofText_eq_fixed_iff.mpr ⟨c, rest, starts, spelled⟩⟩
  refine ⟨reads, fun placed n => (reads n).trans ?_, fun stray n spelled => spelled.not_hasStrayColon stray, ?_⟩
  · constructor
    · rintro ⟨c, rest, starts, spelled⟩
      rw [starts] at placed ⊢
      exact spelled.of_drop_colons placed
    · intro spelled
      cases starts : trim written.toList with
      | nil =>
        rw [starts] at spelled
        nomatch spelled
      | cons c rest =>
        rw [starts] at spelled
        exact ⟨c, rest, rfl, spelled.drop_colons⟩
  · intro c rest sign starts signed unread
    have answer := ofText_of_sign gazetteer signed starts
    cases clock : Offset.ofText? (trim written.toList) with
    | none => rw [answer, clock]
    | some o =>
      rw [clock] at answer
      exact absurd ⟨o, rfl, answer⟩ (unread o.seconds)

end TzDatabase

theorem half_past_nine_west :
    IsGazetteer TzDatabase.place? ∧ trim " -09:30 ".toList = '-' :: "09:30".toList ∧
      ¬Offset.HasStrayColon (trim " -09:30 ".toList) ∧ IsReadAs " -09:30 " (-34200) ∧
      Offset.IsSign '+' 1 ∧ (∀ n, ¬IsReadAs "+24:00" n) ∧
      ofText "+24:00" = .error (.invalidZone (.text "+24:00")) := by
  have written : trim " -09:30 ".toList = '-' :: (padded 2 9 ++ ':' :: padded 2 30) := by decide +kernel
  have spelled : Offset.Spells (trim " -09:30 ".toList) (-34200) := by
    rw [written]
    exact .colon (h := 9) (m := 30) .west (by decide) (by decide)
  have placed := spelled.not_hasStrayColon
  obtain ⟨-, exact_form, -, -⟩ := offset_spelled_iff isGazetteer_ofName? " -09:30 "
  obtain ⟨-, -, -, refused⟩ := offset_spelled_iff isGazetteer_ofName? "+24:00"
  have too_far : ∀ n, ¬IsReadAs "+24:00" n := by
    rintro n ⟨o, -, read⟩
    have answer : ofText "+24:00" = .error (.invalidZone (.text "+24:00")) := by decide +kernel
    rw [answer] at read
    cases read
  exact ⟨isGazetteer_ofName?, by decide +kernel, placed, (exact_form placed _).mpr spelled, .east, too_far,
    refused '+' "24:00".toList 1 (by decide +kernel) .east too_far⟩

theorem colon_within_hours_is_read :
    (∃ o : Offset, o.seconds = 7200 ∧ ofText "+0:200" = .ok (fixed o)) ∧
      ∀ n, ¬Offset.Spells (trim "+0:200".toList) n := by
  refine ⟨⟨⟨7200, by decide⟩, rfl, by decide +kernel⟩, fun n spelled => ?_⟩
  exact spelled.not_hasStrayColon ⟨['+', '0'], ['2', '0', '0'], by decide +kernel, by decide⟩

end Zone

end Cadence
