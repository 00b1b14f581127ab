import Cadence.Proofs.Text.Timestamp
import Cadence.Toml.Document

/-!
Lines of a document that were written by a program. A `Pair` is a bare key with the text of a value that ends at the end
of its line. Where such texts follow one another, the document is read by setting one key after the other
(`lines?_pairs`), and a header only changes where they are set. Plain strings, natural numbers that fit a word, and
booleans are values of that kind.
-/

namespace Cadence.Toml

open Text.Decimal

theorem value?_of_scalar {c : Char} (list : c ≠ '[') (table : c ≠ '{') (depth : Nat) (cs : List Char) :
    value? depth (c :: cs) = (scalar? (c :: cs)).map fun (s, rest) => (.scalar s, rest) := by
  rw [value?.eq_def]
  split
  · rename_i first
    exact absurd (List.cons.inj first).1 list
  · rename_i first
    exact absurd (List.cons.inj first).1 table
  · rfl

/-- A plain string ends with its second quote, unless a third one follows directly. -/
theorem string?_quote {cs : List Char} (plain : ∀ c ∈ cs, isPlain c = true) (rest : List Char)
    (other : ∀ tail, rest ≠ '"' :: tail) : string? (quote cs ++ rest) = some (cs, rest) := by
  have read := basic?_plain plain rest
  have text : quote cs ++ rest = '"' :: (cs ++ '"' :: rest) := by simp [quote]
  rw [text, string?.eq_def]
  split
  · rename_i tail triple
    have two := (List.cons.inj triple).2
    cases cs with
    | nil => exact absurd (List.cons.inj two).2 (other _)
    | cons c cs =>
      have quoted := plain c List.mem_cons_self
      rw [(List.cons.inj two).1] at quoted
      exact absurd quoted (by decide)
  · rename_i one
    rw [← (List.cons.inj one).2, read]
  · rename_i one
    exact absurd (List.cons.inj one).1 (by decide)
  · rename_i one
    exact absurd (List.cons.inj one).1 (by decide)
  · rename_i one _ _
    exact absurd rfl (one _)

theorem value?_quote {cs : List Char} (plain : ∀ c ∈ cs, isPlain c = true) (depth : Nat) (rest : List Char) :
    value? depth (quote cs ++ '\n' :: rest) = some (.scalar (.string cs), '\n' :: rest) := by
  have read := string?_quote plain ('\n' :: rest) (by simp)
  have text : quote cs ++ '\n' :: rest = '"' :: (cs ++ '"' :: '\n' :: rest) := by simp [quote]
  rw [text] at read ⊢
  rw [value?_of_scalar (by decide) (by decide), scalar?]
  · simp [read]
  all_goals simp

theorem value?_boolean (b : Bool) (depth : Nat) (rest : List Char) :
    value? depth ((if b then "true".toList else "false".toList) ++ '\n' :: rest) =
      some (.scalar (.boolean b), '\n' :: rest) := by
  cases b with
  | true => exact value?_of_scalar (by decide) (by decide) depth _
  | false => exact value?_of_scalar (by decide) (by decide) depth _

section Naturals

variable {ds rest : List Char}

theorem run_line (all : ∀ c ∈ ds, isDigit c = true) (most : Nat) :
    ∃ left, (run most (ds ++ '\n' :: rest)).2 = left ++ '\n' :: rest ∧ ∀ c ∈ left, isDigit c = true := by
  induction most generalizing ds with
  | zero => exact ⟨ds, rfl, all⟩
  | succ most ih =>
    cases ds with
    | nil => exact ⟨[], rfl, all⟩
    | cons d ds =>
      obtain ⟨first, others⟩ := List.forall_mem_cons.mp all
      obtain ⟨left, same, digits⟩ := ih others
      refine ⟨left, ?_, digits⟩
      rw [List.cons_append, run, if_pos first]
      exact same

theorem expect?_line {c : Char} (other : isDigit c = false) (sameLine : c ≠ '\n') (all : ∀ d ∈ ds, isDigit d = true) :
    expect? c (ds ++ '\n' :: rest) = none := by
  cases ds with
  | nil => exact if_neg (Ne.symm sameLine)
  | cons d ds => exact if_neg (ne_of_isDigit (all d List.mem_cons_self) other)

theorem expect?_fixedField? {c : Char} (other : isDigit c = false) (sameLine : c ≠ '\n')
    (all : ∀ d ∈ ds, isDigit d = true) {width least most n : Nat} {after : List Char}
    (h : fixedField? width least most (ds ++ '\n' :: rest) = some (n, after)) : expect? c after = none := by
  obtain ⟨left, same, digits⟩ := @run_line ds rest all width
  simp only [fixedField?] at h
  split at h
  · cases h
    rw [same]
    exact expect?_line other sameLine digits
  · cases h

theorem dateTime?_line (all : ∀ d ∈ ds, isDigit d = true) : dateTime? (ds ++ '\n' :: rest) = none := by
  have noDate : date? (ds ++ '\n' :: rest) = none := by
    rw [date?]
    cases read : fixedField? 4 0 9999 (ds ++ '\n' :: rest) with
    | none => rfl
    | some found =>
      have stuck := expect?_fixedField? (c := '-') (by decide) (by decide) all read
      simp [stuck]
  have noTime : time? (ds ++ '\n' :: rest) = none := by
    rw [time?]
    cases read : fixedField? 2 0 23 (ds ++ '\n' :: rest) with
    | none => rfl
    | some found =>
      have stuck := expect?_fixedField? (c := ':') (by decide) (by decide) all read
      simp [stuck]
  simp only [dateTime?, noDate, noTime]

theorem moreDigits?_line (all : ∀ d ∈ ds, isDigit d = true) :
    moreDigits? isDigit (ds ++ '\n' :: rest) = some (ds, '\n' :: rest) := by
  induction ds with
  | nil => rw [List.nil_append, moreDigits?] <;> simp [isDigit]
  | cons d ds ih =>
    obtain ⟨first, others⟩ := List.forall_mem_cons.mp all
    have plain : d ≠ '_' := ne_of_isDigit first (by decide)
    rw [List.cons_append, moreDigits?]
    · simp [first, ih others]
    · exact fun _ _ same => absurd same plain
    · exact fun same => absurd same plain

theorem digits_eq_cons (n : Nat) :
    ∃ c cs, digits n = c :: cs ∧ isDigit c = true ∧ (∀ d ∈ cs, isDigit d = true) ∧ (c = '0' → cs = []) := by
  have first : ∃ c cs, digits n = c :: cs ∧ (c = '0' → cs = []) := by
    induction n using digits.induct with
    | case1 n small => exact ⟨_, [], by rw [digits, if_pos small], fun _ => rfl⟩
    | case2 n large ih =>
      obtain ⟨c, cs, same, zero⟩ := ih
      refine ⟨c, cs ++ [digit (n % 10)], by rw [digits, if_neg large, same]; rfl, fun leading => ?_⟩
      have read := value_digits (n / 10)
      rw [same, leading, zero leading] at read
      have none : Text.Decimal.value ['0'] = 0 := rfl
      omega
  obtain ⟨c, cs, same, zero⟩ := first
  have all : ∀ d ∈ c :: cs, isDigit d = true := fun d member => isDigit_of_mem_digits (n := n) (same ▸ member)
  obtain ⟨digit, others⟩ := List.forall_mem_cons.mp all
  exact ⟨c, cs, same, digit, others, zero⟩

theorem wholeDigits?_digits (n : Nat) (rest : List Char) :
    wholeDigits? (digits n ++ '\n' :: rest) = some (digits n, '\n' :: rest) := by
  obtain ⟨c, cs, same, digit, others, zero⟩ := digits_eq_cons n
  rw [same]
  by_cases leading : c = '0'
  · rw [zero leading, leading]
    rfl
  · rw [List.cons_append, wholeDigits?]
    · simp [someDigits?, digit, moreDigits?_line others]
    · exact fun _ first => absurd (List.cons.inj first).1 leading

theorem word?_natural {n : Nat} (word : n ≤ 9223372036854775807) : word? n = some (.integer n) := by
  rw [word?, if_pos (by simp only [FitsWord]; omega)]

theorem digits_append_ne (n : Nat) {d : Char} (other : isDigit d = false) (after tail : List Char) :
    digits n ++ after ≠ d :: tail := by
  obtain ⟨c, cs, same, digit, -, -⟩ := digits_eq_cons n
  rw [same]
  exact fun first => ne_of_isDigit digit other (List.cons.inj first).1

theorem digits_line_ne (n : Nat) {b : Char} (sameLine : b ≠ '\n') (rest tail : List Char) :
    digits n ++ '\n' :: rest ≠ '0' :: b :: tail := by
  obtain ⟨c, cs, same, -, -, zero⟩ := digits_eq_cons n
  rw [same]
  intro first
  obtain ⟨leading, next⟩ := List.cons.inj first
  rw [zero leading] at next
  exact sameLine (List.cons.inj next).1.symm

theorem number?_natural {n : Nat} (word : n ≤ 9223372036854775807) (rest : List Char) :
    number? (digits n ++ '\n' :: rest) = some (.integer n, '\n' :: rest) := by
  have signs : sign (digits n ++ '\n' :: rest) = (1, digits n ++ '\n' :: rest) := by
    rw [sign]
    · exact fun _ first => digits_append_ne n (by decide) _ _ first
    · exact fun _ first => digits_append_ne n (by decide) _ _ first
  rw [number?.eq_def]
  split
  · exact absurd ‹_› (digits_line_ne n (by decide) _ _)
  · exact absurd ‹_› (digits_line_ne n (by decide) _ _)
  · exact absurd ‹_› (digits_line_ne n (by decide) _ _)
  · rw [signs]
    split
    · exact absurd (Prod.mk.inj ‹_›).2 (digits_append_ne n (by decide) _ _)
    · exact absurd (Prod.mk.inj ‹_›).2 (digits_append_ne n (by decide) _ _)
    · rename_i unsigned
      obtain ⟨rfl, rfl⟩ := Prod.mk.inj unsigned
      simp [wholeDigits?_digits, beginsFloatTail, value_digits, word?_natural word]

theorem value?_natural {n : Nat} (word : n ≤ 9223372036854775807) (depth : Nat) (rest : List Char) :
    value? depth (digits n ++ '\n' :: rest) = some (.scalar (.integer n), '\n' :: rest) := by
  have number := number?_natural word rest
  have noDate : dateTime? (digits n ++ '\n' :: rest) = none :=
    dateTime?_line fun d member => isDigit_of_mem_digits member
  obtain ⟨c, cs, same, digit, -, -⟩ := digits_eq_cons n
  rw [same, List.cons_append] at number noDate ⊢
  have other : ∀ d, isDigit d = false → c ≠ d := fun _ => ne_of_isDigit digit
  have quotes : (c == '"' || c == '\'') = false := by
    simp [other '"' (by decide), other '\'' (by decide)]
  rw [value?_of_scalar (other _ (by decide)) (other _ (by decide)), scalar?]
  · simp [quotes, digit, numeral?, noDate, number]
  · exact fun _ first => absurd first (other _ (by decide))
  · exact fun _ first => absurd first (other _ (by decide))
  · exact other _ (by decide)
  · exact other _ (by decide)

end Naturals

def IsBare (k : Key) : Prop := k ≠ [] ∧ ∀ c ∈ k, isBareKeyChar c = true

instance (k : Key) : Decidable (IsBare k) :=
  decidable_of_iff (k ≠ [] ∧ k.all isBareKeyChar = true) (by rw [IsBare, List.all_eq_true])

/-- A bare key with the text of a value that ends where its line does. -/
structure Pair where
  key : Key
  value : List Char
  node : Node
  bare : IsBare key
  reads : ∀ rest, value? maxDepth (value ++ '\n' :: rest) = some (node, '\n' :: rest)

namespace Pair

def text (p : Pair) : List Char := p.key ++ [' ', '=', ' '] ++ p.value ++ ['\n']

def entry (p : Pair) : Key × Node := (p.key, p.node)

end Pair

theorem ne_of_isBareKeyChar {c d : Char} (bare : isBareKeyChar c = true) (other : isBareKeyChar d = false) : c ≠ d := by
  rintro rfl
  rw [bare] at other
  cases other

theorem isSpace_of_isBareKeyChar {c : Char} (bare : isBareKeyChar c = true) : isSpace c = false := by
  have blank := ne_of_isBareKeyChar bare (d := ' ') (by decide)
  have tab := ne_of_isBareKeyChar bare (d := '\t') (by decide)
  simp [isSpace, blank, tab]

theorem IsBare.exists_cons {k : Key} (bare : IsBare k) : ∃ c cs, k = c :: cs ∧ isBareKeyChar c = true := by
  cases k with
  | nil => exact absurd rfl bare.1
  | cons c cs => exact ⟨c, cs, rfl, bare.2 c List.mem_cons_self⟩

theorem IsBare.append_ne {k : Key} (bare : IsBare k) {d : Char} (other : isBareKeyChar d = false)
    (after tail : List Char) : k ++ after ≠ d :: tail := by
  obtain ⟨c, cs, rfl, first⟩ := bare.exists_cons
  exact fun same => ne_of_isBareKeyChar first other (List.cons.inj same).1

theorem IsBare.skipSpace_append {k : Key} (bare : IsBare k) (after : List Char) :
    skipSpace (k ++ after) = k ++ after := by
  obtain ⟨c, cs, rfl, first⟩ := bare.exists_cons
  exact skipSpace_cons (isSpace_of_isBareKeyChar first)

theorem simpleKey?_bare {k : Key} (bare : IsBare k) {d : Char} (stop : isBareKeyChar d = false) (rest : List Char) :
    simpleKey? (k ++ d :: rest) = some (k, d :: rest) := by
  have taken : (k ++ d :: rest).takeWhile isBareKeyChar = k := by
    rw [List.takeWhile_append_of_pos bare.2, List.takeWhile_cons_of_neg (by simp [stop]), List.append_nil]
  have left : (k ++ d :: rest).dropWhile isBareKeyChar = d :: rest := by
    rw [List.dropWhile_append_of_pos bare.2, List.dropWhile_cons_of_neg (by simp [stop])]
  rw [simpleKey?, taken, left]
  · obtain ⟨c, cs, rfl, -⟩ := bare.exists_cons
    rfl
  · exact fun _ first => bare.append_ne (by decide) _ _ first
  · exact fun _ first => bare.append_ne (by decide) _ _ first

theorem path?_bare {k : Key} (bare : IsBare k) {d : Char} (stop : isBareKeyChar d = false) (rest : List Char)
    (last : ∀ tail, skipSpace (d :: rest) ≠ '.' :: tail) :
    path? maxPath (k ++ d :: rest) = some ([k], skipSpace (d :: rest)) := by
  rw [maxPath, path?, bare.skipSpace_append, simpleKey?_bare bare stop]
  dsimp only
  split
  · exact absurd ‹_› (last _)
  · rfl

theorem Pair.skipSpace_value (p : Pair) (after : List Char) : skipSpace (p.value ++ after) = p.value ++ after := by
  have reads := p.reads []
  generalize p.value = value at reads
  cases value with
  | nil => cases reads
  | cons c cs =>
    refine skipSpace_cons ?_
    cases space : isSpace c with
    | false => rfl
    | true =>
      simp only [isSpace, Bool.or_eq_true, beq_iff_eq] at space
      rcases space with rfl | rfl <;> cases reads

theorem pair?_text (p : Pair) (rest : List Char) :
    pair? (value? maxDepth) (p.text ++ rest) = some (([p.key], p.node), '\n' :: rest) := by
  have text : p.text ++ rest = p.key ++ ' ' :: '=' :: ' ' :: (p.value ++ '\n' :: rest) := by simp [Pair.text]
  have equals : ∀ tail, skipSpace (' ' :: '=' :: tail) = '=' :: tail := fun _ => rfl
  have blank : skipSpace (' ' :: (p.value ++ '\n' :: rest)) = p.value ++ '\n' :: rest := p.skipSpace_value _
  have key := path?_bare p.bare (d := ' ') (by decide) ('=' :: ' ' :: (p.value ++ '\n' :: rest)) (by simp [equals])
  rw [text, pair?, key]
  simp [equals, expect?, blank, p.reads]

theorem line?_pair (d : Draft) (p : Pair) (rest : List Char) :
    line? d (p.text ++ rest) = (d.define? [p.key] p.node).map fun next => (next, rest) := by
  have read := pair?_text p rest
  obtain ⟨c, cs, text, first⟩ : ∃ c cs, p.text ++ rest = c :: cs ∧ isBareKeyChar c = true := by
    obtain ⟨c, cs, key, first⟩ := p.bare.exists_cons
    exact ⟨c, _, by rw [Pair.text, key]; rfl, first⟩
  have other : ∀ d, isBareKeyChar d = false → c ≠ d := fun _ => ne_of_isBareKeyChar first
  have plain : (c == '#' || c == '\n' || c == '\r') = false := by
    simp [other '#' (by decide), other '\n' (by decide), other '\r' (by decide)]
  rw [text] at read ⊢
  rw [line?.eq_def, skipSpace_cons (isSpace_of_isBareKeyChar first)]
  split
  · exact absurd ‹_› (by simp)
  · exact absurd (List.cons.inj ‹_›).1 (other _ (by decide))
  · exact absurd (List.cons.inj ‹_›).1 (other _ (by decide))
  · rename_i same
    obtain ⟨rfl, rfl⟩ := List.cons.inj same
    rw [plain, read]
    cases defined : d.define? [p.key] p.node <;> simp [lineEnd?_newline, defined]

theorem lines?_of_line? {d next : Draft} {cs rest : List Char} (h : line? d cs = some (next, rest))
    (shorter : rest.length < cs.length) : lines? d cs = lines? next rest := by
  rw [lines?.eq_def d cs, h]
  have filled : cs.isEmpty = false := by
    cases cs with
    | nil => cases shorter
    | cons c cs => rfl
  simp [filled, shorter]

theorem lines?_pairs {d next : Draft} {ps : List Pair} (rest : List Char)
    (h : ps.foldlM (fun (d : Draft) p => d.define? [p.key] p.node) d = some next) :
    lines? d (ps.flatMap Pair.text ++ rest) = lines? next rest := by
  induction ps generalizing d with
  | nil =>
    cases h
    rfl
  | cons p ps ih =>
    rw [List.foldlM_cons] at h
    obtain ⟨set, first, others⟩ := Option.bind_eq_some_iff.mp h
    have line := line?_pair d p (ps.flatMap Pair.text ++ rest)
    rw [first] at line
    rw [List.flatMap_cons, List.append_assoc, lines?_of_line? line (by simp [Pair.text]; omega), ih others]

end Cadence.Toml
