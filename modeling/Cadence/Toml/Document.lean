import Cadence.Toml.Table

/-!
TOML documents: `document?` gives the table that a text describes, or nothing where the text breaks a rule of TOML 1.0.
Lists of items and of lines are read by loops that go on only while the text gets shorter. Arrays and inline tables may
be nested 79 deep, and a dotted key may have 79 parts.
-/

namespace Cadence.Toml

def isBareKeyChar (c : Char) : Bool := c.isAlphanum || c == '-' || c == '_'

def simpleKey? (cs : List Char) : Option (Key × List Char) :=
  match cs with
  | '"' :: rest => basic? rest
  | '\'' :: rest => literal? rest
  | _ =>
    match cs.takeWhile isBareKeyChar with
    | [] => none
    | k => some (k, cs.dropWhile isBareKeyChar)

def path? : Nat → List Char → Option (List Key × List Char)
  | 0, _ => none
  | budget + 1, cs =>
    match simpleKey? (skipSpace cs) with
    | none => none
    | some (k, cs) =>
      match skipSpace cs with
      | '.' :: rest => (path? budget rest).map fun (ks, rest) => (k :: ks, rest)
      | rest => some ([k], rest)

def maxPath : Nat := 79
def maxDepth : Nat := 79

def pair? (value : List Char → Option (Node × List Char)) (cs : List Char) :
    Option ((List Key × Node) × List Char) := do
  let (path, cs) ← path? maxPath cs
  let cs ← expect? '=' cs
  let (node, cs) ← value (skipSpace cs)
  some ((path, node), cs)

/-- The items of an array and its closing bracket. A comma may follow the last item. -/
def items? (value : List Char → Option (Node × List Char)) (cs : List Char) : Option (List Node × List Char) :=
  match skipFiller cs with
  | ']' :: rest => some ([], rest)
  | filled =>
    match value filled with
    | none => none
    | some (node, afterItem) =>
      match skipFiller afterItem with
      | ']' :: rest => some ([node], rest)
      | ',' :: rest =>
        if _shorter : rest.length < cs.length then (items? value rest).map fun (nodes, rest) => (node :: nodes, rest)
        else none
      | _ => none
termination_by cs.length

def pairs? (value : List Char → Option (Node × List Char)) (cs : List Char) :
    Option (List (List Key × Node) × List Char) :=
  match pair? value cs with
  | none => none
  | some (entry, afterPair) =>
    match skipSpace afterPair with
    | '}' :: rest => some ([entry], rest)
    | ',' :: rest =>
      if _shorter : rest.length < cs.length then (pairs? value rest).map fun (entries, rest) => (entry :: entries, rest)
      else none
    | _ => none
termination_by cs.length

def inlineTable? (value : List Char → Option (Node × List Char)) (cs : List Char) : Option (Node × List Char) :=
  match skipSpace cs with
  | '}' :: rest => some (.inline Table.empty, rest)
  | _ => do
    let (entries, rest) ← pairs? value cs
    let table ← entries.foldlM (fun t (path, node) => t.defineInline? path node) Table.empty
    some (.inline table, rest)

def value? : Nat → List Char → Option (Node × List Char)
  | depth + 1, '[' :: rest => (items? (value? depth) rest).map fun (nodes, rest) => (.array nodes, rest)
  | depth + 1, '{' :: rest => inlineTable? (value? depth) rest
  | _, cs => (scalar? cs).map fun (s, rest) => (.scalar s, rest)

/-- What has been read: the document, and the header under which the next pair belongs. -/
structure Draft where
  header : List Key
  root : Table

namespace Draft

def start : Draft := ⟨[], Table.empty⟩

/-- A table is opened where none is yet, or where one is that only longer headers have mentioned. -/
def openTable? (path : List Key) (d : Draft) : Option Draft :=
  let (parents, k) := Table.splitPath path
  let fresh := fun parent : Table =>
    match parent.find? k with
    | none => some (parent.set k (.table Table.empty))
    | some (.table t) =>
      if t.implicit && ! t.dotted then some (parent.set k (.table { t with implicit := false })) else none
    | some _ => none
  (Table.change? false fresh parents d.root).map fun root => ⟨path, root⟩

def openElement? (path : List Key) (d : Draft) : Option Draft :=
  let (parents, k) := Table.splitPath path
  let appended := fun parent : Table =>
    match parent.find? k with
    | none => some (parent.set k (.tables [Table.empty]))
    | some (.tables elements) => some (parent.set k (.tables (elements ++ [Table.empty])))
    | some _ => none
  (Table.change? false appended parents d.root).map fun root => ⟨path, root⟩

def define? (path : List Key) (n : Node) (d : Draft) : Option Draft :=
  (Table.change? false (Table.define? path n) d.header d.root).map fun root => ⟨d.header, root⟩

end Draft

def line? (draft : Draft) (cs : List Char) : Option (Draft × List Char) :=
  match skipSpace cs with
  | [] => some (draft, [])
  | '[' :: '[' :: rest => do
    let (path, rest) ← path? maxPath rest
    let rest ← expect? ']' rest
    let rest ← expect? ']' rest
    let rest ← lineEnd? rest
    let draft ← draft.openElement? path
    some (draft, rest)
  | '[' :: rest => do
    let (path, rest) ← path? maxPath rest
    let rest ← expect? ']' rest
    let rest ← lineEnd? rest
    let draft ← draft.openTable? path
    some (draft, rest)
  | c :: rest =>
    if c == '#' || c == '\n' || c == '\r' then (lineEnd? (c :: rest)).map fun rest => (draft, rest)
    else do
      let ((path, node), rest) ← pair? (value? maxDepth) (c :: rest)
      let rest ← lineEnd? rest
      let draft ← draft.define? path node
      some (draft, rest)

def lines? (draft : Draft) (cs : List Char) : Option Draft :=
  if cs.isEmpty then some draft
  else match line? draft cs with
    | none => none
    | some (next, rest) => if _shorter : rest.length < cs.length then lines? next rest else none
termination_by cs.length

/-- The table that a text describes. A byte order mark at its start is left out. -/
def document? (cs : List Char) : Option Table :=
  let text := match cs with
    | '\uFEFF' :: rest => rest
    | cs => cs
  (lines? .start text).map Draft.root

end Cadence.Toml
