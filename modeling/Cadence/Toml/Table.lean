import Cadence.Toml.Scalar

/-!
What a TOML document holds: tables of values by key. A table is remembered as `implicit` if nothing but a longer path
has mentioned it so far, and as `dotted` if that path stood before an equals sign and not in a header. The two decide
which of the later mentions are allowed: a table is defined once, and a dotted key does not enter a table that a header
has defined. `Table.define?` sets a value under a path of keys and fails where it would define something twice.
-/

namespace Cadence.Toml

abbrev Key := List Char

structure TableOf (α : Type) where
  implicit : Bool
  dotted : Bool
  entries : List (Key × α)

inductive Node
  | scalar (value : Scalar)
  | array (items : List Node)
  /-- A table in braces, which is a value. -/
  | inline (table : TableOf Node)
  /-- A table that a header or a path has made. -/
  | table (table : TableOf Node)
  /-- The tables of one header in double brackets. -/
  | tables (elements : List (TableOf Node))

abbrev Table := TableOf Node

namespace Table

def empty : Table := ⟨false, false, []⟩

def find? (t : Table) (k : Key) : Option Node := t.entries.lookup k

def set (t : Table) (k : Key) (n : Node) : Table :=
  if t.entries.any (fun e => e.1 == k) then
    { t with entries := t.entries.map fun e => if e.1 == k then (k, n) else e }
  else { t with entries := t.entries ++ [(k, n)] }

/-- Changes the table under a path, which is made where it is not there. The flag tells whether the path is that of a
dotted key. Of the tables of one header the last one is meant. -/
def change? (dotted : Bool) (f : Table → Option Table) : List Key → Table → Option Table
  | [], t => f t
  | k :: path, t =>
    match t.find? k with
    | none => (change? dotted f path ⟨true, dotted, []⟩).map fun child => t.set k (.table child)
    | some (.table child) =>
      if dotted && ! child.implicit then none
      else (change? dotted f path child).map fun child => t.set k (.table child)
    | some (.tables elements) =>
      match elements.getLast? with
      | none => none
      | some last => (change? dotted f path last).map fun child => t.set k (.tables (elements.dropLast ++ [child]))
    | some _ => none

def changeInline? (f : Table → Option Table) : List Key → Table → Option Table
  | [], t => f t
  | k :: path, t =>
    match t.find? k with
    | none => (changeInline? f path ⟨true, true, []⟩).map fun child => t.set k (.inline child)
    | some (.inline child) =>
      if ! child.implicit then none
      else (changeInline? f path child).map fun child => t.set k (.inline child)
    | some _ => none

/-- Sets a new key. A table made by dotted keys is extended by dotted keys only, and any other table by plain keys
only. -/
def insert? (bare : Bool) (k : Key) (n : Node) (t : Table) : Option Table :=
  if t.dotted == bare then none
  else match t.find? k with
    | some _ => none
    | none => some (t.set k n)

def splitPath (path : List Key) : List Key × Key := (path.dropLast, path.getLastD [])

def define? (path : List Key) (n : Node) (t : Table) : Option Table :=
  let (parents, k) := splitPath path
  change? true (insert? parents.isEmpty k n) parents t

def defineInline? (path : List Key) (n : Node) (t : Table) : Option Table :=
  let (parents, k) := splitPath path
  changeInline? (insert? parents.isEmpty k n) parents t

end Table

end Cadence.Toml
