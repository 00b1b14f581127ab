/-!
Decimal numbers as text. `digits` prints a natural number without leading zeros, `padded` to a least width;
`value` reads digits back (`value_digits`, `value_padded`), and `run` takes a bounded run of digits off a text.
-/

namespace Cadence.Text.Decimal

def isDigit (c : Char) : Bool := 48 ≤ c.toNat && c.toNat ≤ 57

def digit (d : Nat) : Char := Char.ofNat (48 + d)

theorem toNat_digit {d : Nat} (h : d < 10) : (digit d).toNat = 48 + d := by
  have cases : d = 0 ∨ d = 1 ∨ d = 2 ∨ d = 3 ∨ d = 4 ∨ d = 5 ∨ d = 6 ∨ d = 7 ∨ d = 8 ∨ d = 9 := by omega
  rcases cases with h | h | h | h | h | h | h | h | h | h <;> subst h <;> decide

theorem ne_of_isDigit {c d : Char} (digit : isDigit c = true) (other : isDigit d = false) : c ≠ d := by
  rintro rfl
  rw [digit] at other
  cases other

theorem isDigit_digit {d : Nat} (h : d < 10) : isDigit (digit d) = true := by
  simp only [isDigit, toNat_digit h, Bool.and_eq_true, decide_eq_true_eq]
  omega

def digits (n : Nat) : List Char :=
  if n < 10 then [digit n] else digits (n / 10) ++ [digit (n % 10)]

def value (cs : List Char) : Nat := cs.foldl (fun n c => 10 * n + (c.toNat - 48)) 0

theorem value_append_digit (cs : List Char) {d : Nat} (h : d < 10) :
    value (cs ++ [digit d]) = 10 * value cs + d := by
  simp [value, List.foldl_append, toNat_digit h]

theorem value_digits (n : Nat) : value (digits n) = n := by
  induction n using digits.induct with
  | case1 n small => rw [digits, if_pos small]; simp [value, toNat_digit small]
  | case2 n large ih =>
      rw [digits, if_neg large, value_append_digit _ (Nat.mod_lt _ (by omega)), ih]
      omega

theorem isDigit_of_mem_digits {n : Nat} {c : Char} (h : c ∈ digits n) : isDigit c = true := by
  induction n using digits.induct with
  | case1 n small =>
      rw [digits, if_pos small, List.mem_singleton] at h
      exact h ▸ isDigit_digit small
  | case2 n large ih =>
      rw [digits, if_neg large, List.mem_append, List.mem_singleton] at h
      rcases h with h | h
      · exact ih h
      · exact h ▸ isDigit_digit (Nat.mod_lt _ (by omega))

theorem length_digits_pos (n : Nat) : 0 < (digits n).length := by
  rw [digits]
  split <;> simp

def powerOfTen : Nat → Nat
  | 0 => 1
  | k + 1 => 10 * powerOfTen k

theorem length_digits_le {n k : Nat} (k_pos : 0 < k) (h : n < powerOfTen k) : (digits n).length ≤ k := by
  induction n using digits.induct generalizing k with
  | case1 n small => rw [digits, if_pos small]; exact k_pos
  | case2 n large ih =>
      rw [digits, if_neg large, List.length_append, List.length_singleton]
      obtain ⟨k, rfl⟩ : ∃ j, k = j + 1 := ⟨k - 1, by omega⟩
      rw [powerOfTen] at h
      have positive : 0 < k := by
        rcases Nat.eq_zero_or_pos k with rfl | positive
        · rw [powerOfTen] at h; omega
        · exact positive
      have := ih positive (by omega)
      omega

/-- At least `width` digits, with zeros in front. -/
def padded (width n : Nat) : List Char :=
  List.replicate (width - (digits n).length) '0' ++ digits n

theorem value_padded (width n : Nat) : value (padded width n) = n := by
  have zeros : ∀ k, value (List.replicate k '0') = 0 := by
    intro k
    induction k with
    | zero => rfl
    | succ k ih =>
        rw [List.replicate_succ']
        have := value_append_digit (List.replicate k '0') (show 0 < 10 by omega)
        rw [ih] at this
        exact this
  have split : ∀ xs ys : List Char, value xs = 0 → value (xs ++ ys) = value ys := by
    intro xs ys h
    simp only [value] at h
    simp [value, List.foldl_append, h]
  rw [padded, split _ _ (zeros _), value_digits]

theorem length_padded {width n : Nat} (width_pos : 0 < width) (h : n < powerOfTen width) :
    (padded width n).length = width := by
  have := length_digits_le width_pos h
  simp only [padded, List.length_append, List.length_replicate]
  omega

theorem isDigit_of_mem_padded {width n : Nat} {c : Char} (h : c ∈ padded width n) : isDigit c = true := by
  rw [padded, List.mem_append] at h
  rcases h with h | h
  · rw [(List.mem_replicate.mp h).2]; decide
  · exact isDigit_of_mem_digits h

def signed : Int → List Char
  | .ofNat n => digits n
  | .negSucc n => '-' :: digits (n + 1)

/-- The longest run of digits at the front that has at most `most` of them, and the text after it. -/
def run : Nat → List Char → List Char × List Char
  | 0, cs => ([], cs)
  | _ + 1, [] => ([], [])
  | most + 1, c :: cs => if isDigit c then (c :: (run most cs).1, (run most cs).2) else ([], c :: cs)

theorem run_digits {most : Nat} {ds rest : List Char} (all : ∀ c ∈ ds, isDigit c = true)
    (fits : ds.length ≤ most) (stop : ds.length = most ∨ ∀ c, rest.head? = some c → isDigit c = false) :
    run most (ds ++ rest) = (ds, rest) := by
  induction ds generalizing most with
  | nil =>
      rcases most with _ | most
      · rfl
      · rcases stop with stop | stop
        · simp at stop
        · cases rest with
          | nil => rfl
          | cons c cs => simp [run, stop c rfl]
  | cons d ds ih =>
      rcases most with _ | most
      · simp at fits
      · have tail := @ih most (fun c member => all c (by simp [member])) (by simpa using fits)
          (by simpa using stop)
        simp [run, all d (by simp), tail]

def number? (most : Nat) (cs : List Char) : Option (Nat × List Char) :=
  match run most cs with
  | ([], _) => none
  | (ds, rest) => some (value ds, rest)

theorem number?_digits {most : Nat} {ds rest : List Char} (some_digit : ds ≠ []) (all : ∀ c ∈ ds, isDigit c = true)
    (fits : ds.length ≤ most) (stop : ds.length = most ∨ ∀ c, rest.head? = some c → isDigit c = false) :
    number? most (ds ++ rest) = some (value ds, rest) := by
  rw [number?, run_digits all fits stop]
  cases ds with
  | nil => exact absurd rfl some_digit
  | cons d ds => rfl

end Cadence.Text.Decimal
