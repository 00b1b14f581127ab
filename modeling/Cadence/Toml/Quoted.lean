import Cadence.Toml.Blank

/-!
The four kinds of TOML strings. Basic strings know escapes, literal strings do not; both come on one line or between
triple quotes over many. The readers take the text after the opening quotes and give the string and the text after the
closing quotes. `quote` writes a basic string, which reads back (`basic?_plain`).
-/

namespace Cadence.Toml

/-- May stand in a string as it is: anything but a control character, and the tab. -/
def isStringChar (c : Char) : Bool := c == '\t' || (0x20 ≤ c.toNat && c.toNat != 0x7F)

def hexDigit? (c : Char) : Option Nat :=
  let n := c.toNat
  if 48 ≤ n ∧ n ≤ 57 then some (n - 48)
  else if 65 ≤ n ∧ n ≤ 70 then some (n - 55)
  else if 97 ≤ n ∧ n ≤ 102 then some (n - 87)
  else none

/-- The character with a code point in hexadecimal digits. Surrogates are no characters. -/
def ofHex? (ds : List Char) : Option Char := do
  let values ← ds.mapM hexDigit?
  let n := values.foldl (fun n d => 16 * n + d) 0
  if h : n.isValidChar then some (Char.ofNatAux n h) else none

def escape? : Char → Option Char
  | 'b' => some '\x08'
  | 't' => some '\t'
  | 'n' => some '\n'
  | 'f' => some '\x0c'
  | 'r' => some '\r'
  | '"' => some '"'
  | '\\' => some '\\'
  | _ => none

private def consTo (c : Char) : List Char × List Char → List Char × List Char
  | (string, rest) => (c :: string, rest)

def basic? : List Char → Option (List Char × List Char)
  | [] => none
  | '"' :: rest => some ([], rest)
  | '\\' :: 'u' :: a :: b :: c :: d :: rest => do
    let decoded ← ofHex? [a, b, c, d]
    (basic? rest).map (consTo decoded)
  | '\\' :: 'U' :: a :: b :: c :: d :: e :: f :: g :: h :: rest => do
    let decoded ← ofHex? [a, b, c, d, e, f, g, h]
    (basic? rest).map (consTo decoded)
  | '\\' :: c :: rest => do
    let decoded ← escape? c
    (basic? rest).map (consTo decoded)
  | c :: rest => if isStringChar c && c != '\\' then (basic? rest).map (consTo c) else none

def literal? : List Char → Option (List Char × List Char)
  | [] => none
  | '\'' :: rest => some ([], rest)
  | c :: rest => if isStringChar c then (literal? rest).map (consTo c) else none

def skipNewline (cs : List Char) : List Char := (newline? cs).getD cs

/-- A backslash before these characters ends a line: nothing but blanks is left of it. -/
def endsLine (cs : List Char) : Bool := (newline? (skipSpace cs)).isSome

/-- A basic string of many lines. Up to two quotes directly before the closing three belong to the string. After a
backslash at the end of a line, which sets the flag, blanks and line ends are left out. -/
def manyLineBasicFrom? : Bool → List Char → Option (List Char × List Char)
  | _, [] => none
  | _, '"' :: '"' :: '"' :: '"' :: '"' :: rest => some (['"', '"'], rest)
  | _, '"' :: '"' :: '"' :: '"' :: rest => some (['"'], rest)
  | _, '"' :: '"' :: '"' :: rest => some ([], rest)
  | trimming, '\n' :: rest =>
    if trimming then manyLineBasicFrom? true rest else (manyLineBasicFrom? false rest).map (consTo '\n')
  | trimming, '\r' :: '\n' :: rest =>
    if trimming then manyLineBasicFrom? true rest else (manyLineBasicFrom? false rest).map (consTo '\n')
  | _, '\\' :: 'u' :: a :: b :: c :: d :: rest => do
    let decoded ← ofHex? [a, b, c, d]
    (manyLineBasicFrom? false rest).map (consTo decoded)
  | _, '\\' :: 'U' :: a :: b :: c :: d :: e :: f :: g :: h :: rest => do
    let decoded ← ofHex? [a, b, c, d, e, f, g, h]
    (manyLineBasicFrom? false rest).map (consTo decoded)
  | trimming, c :: rest =>
    if trimming && isSpace c then manyLineBasicFrom? true rest
    else if c == '\\' then
      if endsLine rest then manyLineBasicFrom? true rest
      else match rest with
        | [] => none
        | d :: rest => do
          let decoded ← escape? d
          (manyLineBasicFrom? false rest).map (consTo decoded)
    else if isStringChar c then (manyLineBasicFrom? false rest).map (consTo c)
    else none

def manyLineLiteralFrom? : List Char → Option (List Char × List Char)
  | [] => none
  | '\'' :: '\'' :: '\'' :: '\'' :: '\'' :: rest => some (['\'', '\''], rest)
  | '\'' :: '\'' :: '\'' :: '\'' :: rest => some (['\''], rest)
  | '\'' :: '\'' :: '\'' :: rest => some ([], rest)
  | '\n' :: rest => (manyLineLiteralFrom? rest).map (consTo '\n')
  | '\r' :: '\n' :: rest => (manyLineLiteralFrom? rest).map (consTo '\n')
  | c :: rest => if isStringChar c then (manyLineLiteralFrom? rest).map (consTo c) else none

def string? : List Char → Option (List Char × List Char)
  | '"' :: '"' :: '"' :: rest => manyLineBasicFrom? false (skipNewline rest)
  | '"' :: rest => basic? rest
  | '\'' :: '\'' :: '\'' :: rest => manyLineLiteralFrom? (skipNewline rest)
  | '\'' :: rest => literal? rest
  | _ => none

def isPlain (c : Char) : Bool := isStringChar c && c != '"' && c != '\\'

def quote (cs : List Char) : List Char := '"' :: cs ++ ['"']

theorem basic?_plain {cs : List Char} (plain : ∀ c ∈ cs, isPlain c = true) (rest : List Char) :
    basic? (cs ++ '"' :: rest) = some (cs, rest) := by
  induction cs with
  | nil => simp [basic?]
  | cons c cs ih =>
      have here := plain c (by simp)
      simp only [isPlain, Bool.and_eq_true, bne_iff_ne] at here
      have tail := ih fun d member => plain d (by simp [member])
      rw [List.cons_append, basic?]
      · simp [here.1.1, here.2, tail, consTo]
      all_goals simp_all

end Cadence.Toml
