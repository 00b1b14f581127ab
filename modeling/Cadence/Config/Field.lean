import Cadence.Zone.Basic

/-!
The fields of a timer's configuration and the values they take. A field takes values of one kind. `Settings` holds a
value of the right kind, or none, for every field; `get` and `put` address it by field (`get_put_self`,
`get_put_other`), and `put` refuses a value of the wrong kind (`put_eq_error`). Taken apart, settings are a list of
cells, one for every field that has a value. Put together again one by one, where a value of the wrong kind would get
lost, the cells give the same settings, since values are always of the kind of their field (`ofCells_cells`).
-/

namespace Cadence

inductive Field
  | period | startTime | endTime | timezone | nextExecution
deriving DecidableEq

inductive FieldKind
  | period | instant | zone
deriving DecidableEq

inductive FieldValue
  | period (value : Period)
  | instant (value : Instant)
  | zone (value : Zone)
deriving DecidableEq

namespace Field

def all : List Field := [period, startTime, endTime, timezone, nextExecution]

theorem mem_all (f : Field) : f ∈ all := by cases f <;> decide

def name : Field → String
  | period => "period"
  | startTime => "start_time"
  | endTime => "end_time"
  | timezone => "timezone"
  | nextExecution => "next_execution_time"

def ofName? (text : String) : Option Field := all.find? (fun f => f.name == text)

theorem ofName?_name (f : Field) : ofName? f.name = some f := by cases f <;> decide

theorem toList_name_inj {f g : Field} : f.name.toList = g.name.toList ↔ f = g := by
  constructor
  · intro same
    have found := ofName?_name f
    rw [String.toList_inj.mp same, ofName?_name] at found
    exact (Option.some.inj found).symm
  · rintro rfl
    rfl

def kind : Field → FieldKind
  | period => .period
  | timezone => .zone
  | startTime | endTime | nextExecution => .instant

end Field

def FieldKind.name : FieldKind → String
  | period => "period"
  | instant => "instant"
  | zone => "zone"

def FieldValue.kind : FieldValue → FieldKind
  | period _ => .period
  | instant _ => .instant
  | zone _ => .zone

def Field.check (f : Field) (v : FieldValue) : Except Error Unit :=
  if v.kind = f.kind then .ok () else .error (.typeMismatch f.name f.kind.name)

structure Settings where
  period : Option Period
  startTime : Option Instant
  endTime : Option Instant
  timezone : Option Zone
  nextExecution : Option Instant
deriving DecidableEq

namespace Settings

def empty : Settings := ⟨none, none, none, none, none⟩

def zone (s : Settings) : Zone := s.timezone.getD .system

def get (s : Settings) : Field → Option FieldValue
  | .period => s.period.map .period
  | .startTime => s.startTime.map .instant
  | .endTime => s.endTime.map .instant
  | .timezone => s.timezone.map .zone
  | .nextExecution => s.nextExecution.map .instant

def put (s : Settings) : Field → Option FieldValue → Except Error Settings
  | .period, none => .ok { s with period := none }
  | .startTime, none => .ok { s with startTime := none }
  | .endTime, none => .ok { s with endTime := none }
  | .timezone, none => .ok { s with timezone := none }
  | .nextExecution, none => .ok { s with nextExecution := none }
  | .period, some (.period p) => .ok { s with period := some p }
  | .startTime, some (.instant i) => .ok { s with startTime := some i }
  | .endTime, some (.instant i) => .ok { s with endTime := some i }
  | .timezone, some (.zone z) => .ok { s with timezone := some z }
  | .nextExecution, some (.instant i) => .ok { s with nextExecution := some i }
  | f, some _ => .error (.typeMismatch f.name f.kind.name)

theorem get_kind {s : Settings} {f : Field} {v : FieldValue} (h : s.get f = some v) : v.kind = f.kind := by
  cases f <;>
    · obtain ⟨_, _, rfl⟩ := Option.map_eq_some_iff.mp h
      rfl

theorem get_put_self {s t : Settings} {f : Field} {v : Option FieldValue} (h : s.put f v = .ok t) : t.get f = v := by
  rcases v with _ | (v | v | v) <;> cases f <;> cases h <;> rfl

theorem get_put_other {s t : Settings} {f g : Field} {v : Option FieldValue} (h : s.put f v = .ok t) (other : g ≠ f) :
    t.get g = s.get g := by
  rcases v with _ | (v | v | v) <;> cases f <;> cases h <;> cases g <;> first | rfl | exact absurd rfl other

theorem put_none (s : Settings) (f : Field) : ∃ t, s.put f none = .ok t := by
  cases f <;> exact ⟨_, rfl⟩

theorem put_some (s : Settings) (f : Field) (v : FieldValue) :
    (∃ t, s.put f (some v) = .ok t) ↔ f.check v = .ok () := by
  cases v <;> cases f <;> simp [put, Field.check, FieldValue.kind, Field.kind]

theorem put_eq_error {s : Settings} {f : Field} {v : FieldValue} (h : v.kind ≠ f.kind) :
    s.put f (some v) = .error (.typeMismatch f.name f.kind.name) := by
  cases v <;> cases f <;> first | rfl | exact absurd rfl h

theorem ext_get {s t : Settings} (h : ∀ f, s.get f = t.get f) : s = t := by
  have period := h .period
  have startTime := h .startTime
  have endTime := h .endTime
  have timezone := h .timezone
  have nextExecution := h .nextExecution
  cases s
  cases t
  simp only [get] at *
  simp only [mk.injEq]
  refine ⟨?_, ?_, ?_, ?_, ?_⟩
  · exact Option.map_injective (fun _ _ e => FieldValue.period.inj e) period
  · exact Option.map_injective (fun _ _ e => FieldValue.instant.inj e) startTime
  · exact Option.map_injective (fun _ _ e => FieldValue.instant.inj e) endTime
  · exact Option.map_injective (fun _ _ e => FieldValue.zone.inj e) timezone
  · exact Option.map_injective (fun _ _ e => FieldValue.instant.inj e) nextExecution

def entries (s : Settings) : List (Field × Option FieldValue) := Field.all.map fun f => (f, s.get f)

/-- The fields that have a value, each with its value. -/
def cells (s : Settings) : List (Field × FieldValue) := s.entries.filterMap fun e => e.2.map (e.1, ·)

/-- Puts a value into its place. If it is of the wrong kind, the place is left empty. -/
def fill (s : Settings) (cell : Field × FieldValue) : Settings :=
  match s.put cell.1 (some cell.2), s.put cell.1 none with
  | .ok filled, _ => filled
  | .error _, .ok cleared => cleared
  | .error _, .error _ => s

def ofCells (cells : List (Field × FieldValue)) : Settings := cells.foldl fill .empty

/-- The values of some fields; every other field is left empty. -/
def restrict (s : Settings) (fields : List Field) : Settings := ofCells (fields.filterMap fun f => (s.get f).map (f, ·))

section Cells

variable {s : Settings} {f g : Field} {v : FieldValue}

theorem mem_entries {value : Option FieldValue} : (f, value) ∈ s.entries ↔ s.get f = value := by
  simp only [entries, List.mem_map, Prod.mk.injEq]
  constructor
  · rintro ⟨_, -, rfl, found⟩
    exact found
  · exact fun found => ⟨f, f.mem_all, rfl, found⟩

theorem mem_cells : (f, v) ∈ s.cells ↔ s.get f = some v := by
  simp [cells, entries, f.mem_all]

theorem get_empty (f : Field) : empty.get f = none := by cases f <;> rfl

theorem get_fill_self (kind : v.kind = f.kind) : (s.fill (f, v)).get f = some v := by
  obtain ⟨filled, put⟩ := (put_some s f v).mpr (if_pos kind)
  rw [fill, put]
  exact get_put_self put

theorem get_fill_other (other : g ≠ f) : (s.fill (f, v)).get g = s.get g := by
  unfold fill
  split
  · next put => exact get_put_other put other
  · next put => exact get_put_other put other
  · rfl

theorem get_foldl_fill (s t : Settings) (fields : List Field) (g : Field) :
    ((fields.filterMap fun f => (s.get f).map (f, ·)).foldl fill t).get g =
      (if g ∈ fields then s.get g else none).or (t.get g) := by
  induction fields generalizing t with
  | nil => rfl
  | cons f fields ih =>
    cases value : s.get f with
    | none =>
      rw [List.filterMap_cons_none (by rw [value]; rfl), ih]
      by_cases here : g = f
      · simp [here, value]
      · simp [here]
    | some v =>
      rw [List.filterMap_cons_some (by rw [value]; rfl), List.foldl_cons, ih]
      by_cases here : g = f
      · rw [here, get_fill_self (get_kind value)]
        by_cases later : f ∈ fields <;> simp [value, later]
      · rw [get_fill_other here]
        simp [here]

theorem get_restrict (s : Settings) (fields : List Field) (f : Field) :
    (s.restrict fields).get f = if f ∈ fields then s.get f else none := by
  rw [restrict, ofCells, get_foldl_fill, get_empty, Option.or_none]

theorem timezone_restrict {fields : List Field} (asked : .timezone ∈ fields) :
    (s.restrict fields).timezone = s.timezone := by
  have same := s.get_restrict fields .timezone
  rw [if_pos asked] at same
  exact Option.map_injective (fun _ _ e => FieldValue.zone.inj e) same

theorem restrict_all (s : Settings) : s.restrict Field.all = s := by
  apply ext_get
  intro f
  rw [get_restrict, if_pos f.mem_all]

theorem ofCells_cells (s : Settings) : ofCells s.cells = s := by
  rw [cells, entries, List.filterMap_map]
  exact s.restrict_all

end Cells

end Settings

end Cadence
