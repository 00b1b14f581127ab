import Cadence.Text.Decimal

/-!
What stands between the tokens of a TOML document: blanks, line ends and comments.
-/

namespace Cadence.Toml

def isSpace (c : Char) : Bool := c == ' ' || c == '\t'

def skipSpace (cs : List Char) : List Char := cs.dropWhile isSpace

/-- May stand in a comment: anything but a control character, and the tab. -/
def isCommentChar (c : Char) : Bool := c == '\t' || (0x20 ≤ c.toNat && c.toNat != 0x7F)

def newline? : List Char → Option (List Char)
  | '\n' :: rest => some rest
  | '\r' :: '\n' :: rest => some rest
  | _ => none

def skipComment : List Char → List Char
  | '#' :: rest => rest.dropWhile isCommentChar
  | cs => cs

def lineEnd? (cs : List Char) : Option (List Char) :=
  match skipComment (skipSpace cs) with
  | [] => some []
  | rest => newline? rest

/-- Blanks, line ends and comments. The flag tells whether a comment has begun. -/
def skipFillerFrom : Bool → List Char → List Char
  | _, '\n' :: rest => skipFillerFrom false rest
  | _, '\r' :: '\n' :: rest => skipFillerFrom false rest
  | comment, c :: rest =>
    if comment && isCommentChar c then skipFillerFrom true rest
    else if isSpace c then skipFillerFrom false rest
    else if c == '#' then skipFillerFrom true rest
    else c :: rest
  | _, [] => []

def skipFiller (cs : List Char) : List Char := skipFillerFrom false cs

theorem skipSpace_cons {c : Char} {cs : List Char} (h : isSpace c = false) : skipSpace (c :: cs) = c :: cs := by
  simp [skipSpace, h]

theorem lineEnd?_newline (cs : List Char) : lineEnd? ('\n' :: cs) = some cs := by
  simp [lineEnd?, skipSpace, isSpace, skipComment, newline?]

end Cadence.Toml
