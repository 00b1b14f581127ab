import Cadence.Config.Folder
import Cadence.Proofs.Toml.Word
import Cadence.Proofs.Toml.Written
import Cadence.Proofs.Zone.Text

/-!
Configurations that were read can be written, and what is written reads back (`load_save`). Reading takes many spellings
to one value, and it yields only values that have a text of their own (`isReadable_of_ofTable?`): moments with leap
seconds only at the end of a minute, zones that are read from some text, and factors that fit a word.
Writing such a configuration lays down the very table that reading looks into (`exists_written`, `ofTable?_entries`).
-/

namespace Cadence

open Toml

/-- There is a text that reads as this value. -/
def FieldValue.IsReadable [TzDatabase] : FieldValue → Prop
  | .period p => p.factor ≤ 9223372036854775807
  | .instant i => Text.Timestamp.IsProper i.toMoment
  | .zone z => z.IsSpelled

namespace Configuration

def IsReadable [TzDatabase] (c : Configuration) : Prop := ∀ f v, c.settings.get f = some v → v.IsReadable

/-- Everything but the zone has a text of its own. -/
def IsReadableButZone [TzDatabase] (c : Configuration) : Prop :=
  ∀ f v, f ≠ .timezone → c.settings.get f = some v → v.IsReadable

theorem IsReadable.butZone [TzDatabase] {c : Configuration} (readable : c.IsReadable) : c.IsReadableButZone :=
  fun f v _ => readable f v

theorem IsReadableButZone.isWritable [TzDatabase] {c : Configuration} (readable : c.IsReadableButZone) : c.IsWritable :=
  fun p there => readable .period (.period p) (by decide) (by rw [Settings.get, there]; rfl)

theorem isPlain_of_toNat {c : Char} (printed : 32 ≤ c.toNat ∧ c.toNat ≠ 127) (unquoted : c.toNat ≠ 34 ∧ c.toNat ≠ 92) :
    isPlain c = true := by
  have quote : c ≠ '"' := by
    rintro rfl
    exact unquoted.1 rfl
  have backslash : c ≠ '\\' := by
    rintro rfl
    exact unquoted.2 rfl
  simp [isPlain, isStringChar, quote, backslash, printed]

theorem isPlain_of_isDigit {c : Char} (h : Text.Decimal.isDigit c = true) : isPlain c = true := by
  simp only [Text.Decimal.isDigit, Bool.and_eq_true, decide_eq_true_eq] at h
  exact isPlain_of_toNat (by omega) (by omega)

theorem isPlain_padded (width n : Nat) : ∀ c ∈ Text.Decimal.padded width n, isPlain c = true :=
  fun _ member => isPlain_of_isDigit (Text.Decimal.isDigit_of_mem_padded member)

theorem isPlain_yearText (year : Int) : ∀ c ∈ Text.Timestamp.yearText year, isPlain c = true := by
  rw [Text.Timestamp.yearText]
  split
  · exact isPlain_padded 4 _
  · refine List.forall_mem_cons.mpr ⟨?_, isPlain_padded 4 _⟩
    split <;> decide

theorem isPlain_fractionText (nanos : Nat) : ∀ c ∈ Text.Timestamp.fractionText nanos, isPlain c = true := by
  have point : ∀ width n, ∀ c ∈ '.' :: Text.Decimal.padded width n, isPlain c = true := fun width n =>
    List.forall_mem_cons.mpr ⟨by decide, isPlain_padded width n⟩
  rw [Text.Timestamp.fractionText]
  split
  · exact fun _ member => absurd member List.not_mem_nil
  · split
    · exact point 3 _
    · split
      · exact point 6 _
      · exact point 9 _

theorem isPlain_instantText (i : Instant) : ∀ c ∈ Text.Timestamp.instantText i, isPlain c = true := by
  simp only [Text.Timestamp.instantText, Text.Timestamp.momentText, Text.Timestamp.dateText, Text.Timestamp.clockText,
    List.forall_mem_append, List.forall_mem_cons]
  have year := isPlain_yearText i.date.year
  have two := isPlain_padded 2
  have fraction := isPlain_fractionText (i.timeOfDay.toNat % 1000000000)
  have marks : isPlain '-' = true ∧ isPlain ':' = true ∧ isPlain 'T' = true ∧ isPlain 'Z' = true := by decide
  exact ⟨⟨⟨⟨year, marks.1, two _⟩, marks.1, two _⟩, marks.2.2.1,
    ⟨⟨two _, marks.2.1, two _⟩, marks.2.1, two _⟩, fraction⟩, marks.2.2.2,
    fun _ member => absurd member List.not_mem_nil⟩

theorem isPlain_unit (u : TimeUnit) : ∀ c ∈ u.name.toList, isPlain c = true := by
  have plain : (TimeUnit.all.all fun u => u.name.toList.all isPlain) = true := by decide +kernel
  exact List.all_eq_true.mp (List.all_eq_true.mp plain u u.mem_all)

theorem isPlain_offset (o : Offset) : ∀ c ∈ o.text.toList, isPlain c = true := by
  intro c member
  rcases Offset.mem_text member with rfl | rfl | rfl | digit
  · decide
  · decide
  · decide
  · exact isPlain_of_isDigit digit

theorem isPlain_of_isNameChar {c : Char} (h : isNameChar c = true) : isPlain c = true := by
  have bounds := toNat_of_isNameChar h
  exact isPlain_of_toNat (by omega) (by omega)

theorem isPlain_zone [TzDatabase] (gazetteer : IsGazetteer TzDatabase.place?) {z : Zone} (given : z.IsGiven) :
    ∀ c ∈ z.text.toList, isPlain c = true := by
  obtain ⟨n, made⟩ | ⟨written, read⟩ := given
  · obtain ⟨o, -, rfl⟩ := Zone.ofSeconds_cases made
    exact isPlain_offset o
  · obtain rfl | rfl | ⟨o, -, rfl⟩ | ⟨cs, place, -, -, found, rfl⟩ := Zone.ofText_cases read
    · exact List.all_eq_true.mp (by decide)
    · exact List.all_eq_true.mp (by decide)
    · exact isPlain_offset o
    · intro c member
      rw [Zone.text, gazetteer.name _ place found] at member
      exact isPlain_of_isNameChar (gazetteer.spelling _ place found c member)

def periodTable (p : Period) : Table :=
  .ofEntries [("factor".toList, .scalar (.integer p.factor)), ("unit".toList, .scalar (.string p.unit.name.toList))]

def node : FieldValue → Node
  | .period p => .table (periodTable p)
  | .instant i => .scalar (.string (Text.Timestamp.instantText i))
  | .zone z => .scalar (.string z.text.toList)

def entry (c : Configuration) (f : Field) : List (Key × Node) :=
  ((c.settings.get f).map fun v => (f.name.toList, node v)).toList

def entries (c : Configuration) : List (Key × Node) :=
  c.entry .startTime ++ c.entry .endTime ++ c.entry .timezone ++ c.entry .nextExecution ++
    [("active".toList, .scalar (.boolean c.active))] ++ c.entry .period

theorem lookup_entry (c : Configuration) (f : Field) (k : Key) :
    (c.entry f).lookup k = if k = f.name.toList then (c.settings.get f).map node else none := by
  rw [entry]
  cases c.settings.get f with
  | none => simp
  | some v =>
    by_cases same : k = f.name.toList
    · simp [same]
    · have other : (k == f.name.toList) = false := by simp [same]
      simp [List.lookup_cons, same, other]

theorem find?_entries (c : Configuration) (f : Field) :
    (Table.ofEntries c.entries).find? f.name.toList = (c.settings.get f).map node := by
  have active : ∀ k : Key, k ≠ "active".toList →
      [("active".toList, Node.scalar (.boolean c.active))].lookup k = none := by
    intro k other
    have differs : (k == "active".toList) = false := by simpa using other
    simp only [List.lookup_cons, differs, List.lookup_nil]
  have found : (Table.ofEntries c.entries).find? f.name.toList = c.entries.lookup f.name.toList := rfl
  rw [found, entries]
  simp only [List.lookup_append, lookup_entry, Field.toList_name_inj]
  cases f
  all_goals
    rw [active _ (by decide)]
    simp

theorem find?_active (c : Configuration) :
    (Table.ofEntries c.entries).find? "active".toList = some (.scalar (.boolean c.active)) := by
  have found : (Table.ofEntries c.entries).find? "active".toList = c.entries.lookup "active".toList := rfl
  rw [found, entries]
  simp only [List.lookup_append, lookup_entry]
  simp [Field.name]

theorem valueOf?_entries {α : Type} (c : Configuration) {f : Field} {read? : Node → Option α} (wrap : α → FieldValue)
    {o : Option α} (same : c.settings.get f = o.map wrap) (reads : ∀ a, o = some a → read? (node (wrap a)) = some a) :
    valueOf? read? f.name (Table.ofEntries c.entries) = some o := by
  rw [valueOf?, find?_entries, same]
  cases o with
  | none => rfl
  | some a => simp [reads a rfl]

theorem period?_node (p : Period) : period? (node (.period p)) = some p := by
  have factor : (periodTable p).find? "factor".toList = some (.scalar (.integer p.factor)) := rfl
  have unit : (periodTable p).find? "unit".toList = some (.scalar (.string p.unit.name.toList)) := rfl
  rw [node, period?, periodOfTable?, factor, unit]
  simp [periodOfParts?, factor?, unit?, TimeUnit.ofName?_name]

theorem instant?_entries {c : Configuration} {f : Field} {o : Option Instant} (same : c.settings.get f = o.map .instant)
    (proper : ∀ i, c.settings.get f = some (.instant i) → Text.Timestamp.IsProper i.toMoment) :
    valueOf? instant? f.name (Table.ofEntries c.entries) = some o :=
  valueOf?_entries c .instant same fun i there =>
    Text.Timestamp.instant?_instantText (proper i (by rw [same, there]; rfl))

theorem period?_entries (c : Configuration) :
    valueOf? period? Field.period.name (Table.ofEntries c.entries) = some c.settings.period :=
  valueOf?_entries c .period rfl fun p _ => period?_node p

theorem active?_entries (c : Configuration) :
    valueOf? boolean? "active" (Table.ofEntries c.entries) = some (some c.active) := by
  rw [valueOf?, find?_active]
  rfl

theorem ofTable?_entries [TzDatabase] {c : Configuration} (readable : c.IsReadableButZone) :
    ofTable? (Table.ofEntries c.entries) =
      (valueOf? zone? Field.timezone.name (Table.ofEntries c.entries)).map fun back =>
        ⟨{ c.settings with timezone := back }, c.active⟩ := by
  rw [ofTable?, instant?_entries (f := .startTime) rfl fun i => readable .startTime (.instant i) (by decide),
    instant?_entries (f := .endTime) rfl fun i => readable .endTime (.instant i) (by decide),
    instant?_entries (f := .nextExecution) rfl fun i => readable .nextExecution (.instant i) (by decide),
    c.active?_entries, c.period?_entries]
  cases valueOf? zone? Field.timezone.name (Table.ofEntries c.entries) <;> rfl

theorem zone?_entries [TzDatabase] (gazetteer : IsGazetteer TzDatabase.place?) {c : Configuration}
    (readable : c.IsReadable) :
    valueOf? zone? Field.timezone.name (Table.ofEntries c.entries) = some c.settings.timezone := by
  refine valueOf?_entries c .zone rfl fun z there => ?_
  have spelled : z.IsSpelled := readable .timezone (.zone z) (by rw [Settings.get, there]; rfl)
  simp [node, zone?, Zone.ofText_text gazetteer spelled, Except.toOption]

theorem exists_pairs {c : Configuration} {f : Field} {α : Type} {write : α → List Char} {wrap : α → FieldValue}
    {o : Option α} (same : c.settings.get f = o.map wrap)
    (reads : ∀ a, o = some a → ∀ rest,
      value? maxDepth (write a ++ '\n' :: rest) = some (node (wrap a), '\n' :: rest)) :
    ∃ ps : List Pair, ps.flatMap Pair.text = optionalText f.name write o ∧ ps.map Pair.entry = c.entry f := by
  cases o with
  | none => exact ⟨[], rfl, by rw [entry, same]; rfl⟩
  | some a =>
    have bare : IsBare f.name.toList := by cases f <;> decide
    refine ⟨[⟨f.name.toList, write a, node (wrap a), bare, reads a rfl⟩], ?_, ?_⟩
    · simp [Pair.text, optionalText, entryText]
    · simp [Pair.entry, entry, same]

theorem keys_entry (c : Configuration) (f : Field) : ((c.entry f).map Prod.fst).Sublist [f.name.toList] := by
  rw [entry]
  cases c.settings.get f with
  | none => exact List.nil_sublist _
  | some v => exact List.Sublist.refl _

theorem keys_entries_nodup (c : Configuration) : (c.entries.map Prod.fst).Nodup := by
  have keys : (c.entries.map Prod.fst).Sublist
      ([Field.startTime.name.toList] ++ [Field.endTime.name.toList] ++ [Field.timezone.name.toList] ++
        [Field.nextExecution.name.toList] ++ ["active".toList] ++ [Field.period.name.toList]) := by
    simp only [entries, List.map_append]
    exact ((((((c.keys_entry _).append (c.keys_entry _)).append (c.keys_entry _)).append (c.keys_entry _)).append
      (List.Sublist.refl _)).append (c.keys_entry _))
  exact keys.nodup (by decide)

def activePair (b : Bool) : Pair where
  key := "active".toList
  value := if b then "true".toList else "false".toList
  node := .scalar (.boolean b)
  bare := by decide
  reads := value?_boolean b maxDepth

theorem text_activePair (b : Bool) :
    (activePair b).text = entryText "active" (if b then "true".toList else "false".toList) := rfl

def periodDivision (p : Period) (fits : p.factor ≤ 9223372036854775807) : Division where
  header := Field.period.name.toList
  pairs :=
    [⟨"factor".toList, Text.Decimal.digits p.factor, .scalar (.integer p.factor), by decide,
        value?_natural fits maxDepth⟩,
      ⟨"unit".toList, quote p.unit.name.toList, .scalar (.string p.unit.name.toList), by decide,
        value?_quote (isPlain_unit p.unit) maxDepth⟩]
  bare := by decide
  distinct := show ["factor".toList, "unit".toList].Nodup by decide

theorem exists_division {c : Configuration} (writable : c.IsWritable) :
    ∃ d : Option Division, d.toList.flatMap Division.text = (c.settings.period.map periodText).getD [] ∧
      d.toList.map Division.entry = c.entry .period := by
  cases there : c.settings.period with
  | none => exact ⟨none, rfl, by simp [entry, Settings.get, there]⟩
  | some p =>
    refine ⟨some (periodDivision p (writable p there)), ?_, ?_⟩
    · simp [periodDivision, Division.text, Pair.text, periodText, entryText, Field.name]
    · simp [periodDivision, Division.entry, Pair.entry, entry, Settings.get, there, node, periodTable]

/-- What can be written is a document with just the entries of the configuration. -/
theorem exists_written {c : Configuration} (writable : c.IsWritable)
    (plain : ∀ z, c.settings.timezone = some z → ∀ d ∈ z.text.toList, isPlain d = true) :
    ∃ w : Written, w.text = c.text ∧ w.entries = c.entries := by
  have instants : ∀ {o : Option Instant} (i : Instant) (_ : o = some i) (rest : List Char),
      value? maxDepth (instantText i ++ '\n' :: rest) = some (node (.instant i), '\n' :: rest) := fun i _ =>
    value?_quote (isPlain_instantText i) maxDepth
  have zones : ∀ (z : Zone) (_ : c.settings.timezone = some z) (rest : List Char),
      value? maxDepth (quote z.text.toList ++ '\n' :: rest) = some (node (.zone z), '\n' :: rest) := fun z there =>
    value?_quote (plain z there) maxDepth
  obtain ⟨starts, starts_text, starts_entry⟩ := exists_pairs (c := c) (f := .startTime) rfl instants
  obtain ⟨ends, ends_text, ends_entry⟩ := exists_pairs (c := c) (f := .endTime) rfl instants
  obtain ⟨timezones, timezones_text, timezones_entry⟩ := exists_pairs (c := c) (f := .timezone) rfl zones
  obtain ⟨nexts, nexts_text, nexts_entry⟩ := exists_pairs (c := c) (f := .nextExecution) rfl instants
  obtain ⟨division, division_text, division_entry⟩ := exists_division writable
  have entries_eq : (starts ++ ends ++ timezones ++ nexts ++ [activePair c.active]).map Pair.entry ++
      division.toList.map Division.entry = c.entries := by
    simp only [List.map_append, starts_entry, ends_entry, timezones_entry, nexts_entry, division_entry]
    rfl
  have distinct : ((starts ++ ends ++ timezones ++ nexts ++ [activePair c.active]).map Pair.key ++
      division.toList.map Division.header).Nodup := by
    have nodup := c.keys_entries_nodup
    rw [← entries_eq, List.map_append, List.map_map, List.map_map] at nodup
    exact nodup
  refine ⟨⟨_, division, distinct⟩, ?_, entries_eq⟩
  simp only [Written.text, List.flatMap_append, starts_text, ends_text, timezones_text, nexts_text, division_text,
    List.flatMap_singleton, text_activePair]
  rfl

theorem ofText_eq_ok [TzDatabase] {written : String} {c : Configuration} :
    ofText written = .ok c ↔ (document? written.toList).bind ofTable? = some c ∧ c.settings.validate = .ok () := by
  rw [ofText]
  cases (document? written.toList).bind ofTable? with
  | none => simp
  | some d =>
    cases valid : d.settings.validate with
    | error e =>
      simp only [Option.some.injEq]
      constructor
      · intro read
        simp [Except.map, valid] at read
      · rintro ⟨rfl, sound⟩
        rw [valid] at sound
        cases sound
    | ok _ =>
      simp only [Option.some.injEq]
      constructor
      · intro read
        simp only [Except.map, valid, Except.ok.injEq] at read
        exact ⟨read, read ▸ valid⟩
      · rintro ⟨rfl, -⟩
        simp [Except.map, valid]

theorem fits_of_factor? {n : Node} {k : Nat} (bounded : n.IsBounded) (h : factor? n = some k) :
    k ≤ 9223372036854775807 := by
  rw [factor?.eq_def] at h
  split at h
  · split at h
    · cases h
      cases bounded with
      | scalar word =>
        have upper := word.2
        omega
    · cases h
  · cases h

theorem fits_of_periodOfParts? {factor unit : Node} {p : Period} (bounded : factor.IsBounded)
    (h : periodOfParts? factor unit = some p) : p.factor ≤ 9223372036854775807 := by
  simp only [periodOfParts?, Option.bind_eq_bind, Option.bind_eq_some_iff] at h
  obtain ⟨k, read, _, -, same⟩ := h
  cases same
  exact fits_of_factor? bounded read

theorem fits_of_periodOfTable? {t : Table} {p : Period} (bounded : t.IsBounded) (h : periodOfTable? t = some p) :
    p.factor ≤ 9223372036854775807 := by
  simp only [periodOfTable?, Option.bind_eq_bind, Option.bind_eq_some_iff] at h
  obtain ⟨_, factor, _, -, parts⟩ := h
  exact fits_of_periodOfParts? (bounded.find? factor) parts

theorem fits_of_period? {n : Node} {p : Period} (bounded : n.IsBounded) (h : period? n = some p) :
    p.factor ≤ 9223372036854775807 := by
  rw [period?.eq_def] at h
  split at h
  · cases bounded with
    | inline each => exact fits_of_periodOfTable? each h
  · cases bounded with
    | table each => exact fits_of_periodOfTable? each h
  · cases bounded with
    | array each => exact fits_of_periodOfParts? (each _ List.mem_cons_self) h
  · cases h

theorem isProper_of_instant? {n : Node} {i : Instant} (h : instant? n = some i) :
    Text.Timestamp.IsProper i.toMoment := by
  rw [instant?.eq_def] at h
  split at h
  · exact Text.Timestamp.isProper_of_instant? h
  · cases h

theorem isSpelled_of_zone? [TzDatabase] {n : Node} {z : Zone} (h : zone? n = some z) : z.IsSpelled := by
  rw [zone?.eq_def] at h
  split at h
  · exact ⟨_, toOption_eq_some.mp h⟩
  · cases h

theorem forall_of_valueOf? {α : Type} {read? : Node → Option α} {key : String} {t : Table} {o : Option α}
    {good : α → Prop} (bounded : t.IsBounded) (reads : ∀ n a, n.IsBounded → read? n = some a → good a)
    (h : valueOf? read? key t = some o) : ∀ a, o = some a → good a := by
  rw [valueOf?] at h
  split at h
  · cases h
    intro a there
    cases there
  · rename_i n found
    obtain ⟨b, read, rfl⟩ := Option.map_eq_some_iff.mp h
    intro a there
    cases there
    exact reads n b (bounded.find? found) read

theorem isReadable_of_ofTable? [TzDatabase] {t : Table} {c : Configuration} (bounded : t.IsBounded)
    (h : ofTable? t = some c) : c.IsReadable := by
  simp only [ofTable?, Option.bind_eq_bind, Option.bind_eq_some_iff] at h
  obtain ⟨startTime, starts, endTime, ends, timezone, zones, nextExecution, nexts, _, -, period, periods, same⟩ := h
  cases same
  have proper : ∀ (n : Node) (i : Instant), n.IsBounded → instant? n = some i → Text.Timestamp.IsProper i.toMoment :=
    fun _ _ _ => isProper_of_instant?
  intro f v there
  cases f with
  | period =>
    obtain ⟨p, found, rfl⟩ := Option.map_eq_some_iff.mp there
    exact forall_of_valueOf? bounded (fun _ _ => fits_of_period?) periods p found
  | startTime =>
    obtain ⟨i, found, rfl⟩ := Option.map_eq_some_iff.mp there
    exact forall_of_valueOf? bounded proper starts i found
  | endTime =>
    obtain ⟨i, found, rfl⟩ := Option.map_eq_some_iff.mp there
    exact forall_of_valueOf? bounded proper ends i found
  | timezone =>
    obtain ⟨z, found, rfl⟩ := Option.map_eq_some_iff.mp there
    exact forall_of_valueOf? bounded (fun _ _ _ => isSpelled_of_zone?) zones z found
  | nextExecution =>
    obtain ⟨i, found, rfl⟩ := Option.map_eq_some_iff.mp there
    exact forall_of_valueOf? bounded proper nexts i found

theorem isReadable_of_ofText [TzDatabase] {written : String} {c : Configuration} (h : ofText written = .ok c) :
    c.IsReadable := by
  obtain ⟨t, document, table⟩ := Option.bind_eq_some_iff.mp (ofText_eq_ok.mp h).1
  exact isReadable_of_ofTable? (isBounded_of_document? document) table

theorem toText_of_isReadable [TzDatabase] {c : Configuration} (readable : c.IsReadable) :
    c.toText = .ok (String.ofList c.text) :=
  if_pos readable.butZone.isWritable

theorem document?_configuration {c : Configuration} (writable : c.IsWritable)
    (plain : ∀ z, c.settings.timezone = some z → ∀ d ∈ z.text.toList, isPlain d = true) :
    document? c.text = some (Table.ofEntries c.entries) := by
  obtain ⟨w, text_eq, entries_eq⟩ := exists_written writable plain
  rw [← text_eq, document?_text, entries_eq]

theorem ofText_text [TzDatabase] (gazetteer : IsGazetteer TzDatabase.place?) {c : Configuration}
    (readable : c.IsReadable) (valid : c.settings.validate = .ok ()) : ofText (String.ofList c.text) = .ok c := by
  have plain : ∀ z, c.settings.timezone = some z → ∀ d ∈ z.text.toList, isPlain d = true := fun z there =>
    isPlain_zone gazetteer (.inr (readable .timezone (.zone z) (by rw [Settings.get, there]; rfl)))
  refine ofText_eq_ok.mpr ⟨?_, valid⟩
  rw [String.toList_ofList, document?_configuration readable.butZone.isWritable plain, Option.bind_some,
    ofTable?_entries readable.butZone, zone?_entries gazetteer readable]
  rfl

theorem read_save {c : Configuration} {f other : Folder} {path : FolderPath} {content : Option String}
    (writable : c.IsWritable) (free : f.write path content = .ok other) :
    ∃ g, f.save path c = .ok g ∧ g.read path = .ok (String.ofList c.text) := by
  obtain ⟨g, put⟩ := Folder.write_other free (some (String.ofList c.text))
  refine ⟨g, ?_, Folder.read_write put⟩
  simp only [Folder.save, toText, if_pos writable, bind, Except.bind, Folder.putText, put]

theorem exists_write_empty : ∃ other, Folder.empty.write ⟨[], some Folder.fileName, false⟩ none = .ok other := by
  have free : (Folder.empty.write ⟨[], some Folder.fileName, false⟩ none).toOption.isSome = true := by decide +kernel
  obtain ⟨other, writable⟩ := Option.isSome_iff_exists.mp free
  exact ⟨other, toOption_eq_some.mp writable⟩

/-- Whatever places there are, a configuration that was read has a text, which is read as the same configuration. So it
can be saved wherever the folder takes a file, and is loaded from there. -/
theorem load_save [TzDatabase] (gazetteer : IsGazetteer TzDatabase.place?) {written : String} {c : Configuration}
    (h : ofText written = .ok c) :
    (∃ saved, c.toText = .ok saved ∧ ofText saved = .ok c) ∧
      ∀ (f other : Folder) (path : FolderPath) (content : Option String), f.write path content = .ok other →
        ∃ g, f.save path c = .ok g ∧ ∀ shown, g.load path shown = .ok c := by
  have readable := isReadable_of_ofText h
  have saved := toText_of_isReadable readable
  have back := ofText_text gazetteer readable (ofText_eq_ok.mp h).2
  refine ⟨⟨_, saved, back⟩, fun f other path content writable => ?_⟩
  obtain ⟨g, put, read⟩ := read_save readable.butZone.isWritable writable
  exact ⟨g, put, fun shown => by simp only [Folder.load, read, back]⟩

/-- A byte order mark, a period in an array, a factor in another base, a year of five digits before UTC, and blanks. -/
def looseText : String :=
  "\uFEFFperiod = [0x5A, \x7bMINUTES = []\x7d]\nstart_time = \"2016-12-31 23:59:60.5+00:00\"\n" ++
    "'end_time' = '+12345-6-7t8:9:10-05:30'\r\ntimezone = \" +0530 \"\n"

def strictText : String :=
  "start_time = \"2016-12-31T23:59:60.500Z\"\nend_time = \"+12345-06-07T13:39:10Z\"\n" ++
    "timezone = \"+05:30\"\nactive = true\n\n[period]\nfactor = 90\nunit = \"MINUTES\"\n"

theorem loose_text_load_save :
    IsGazetteer TzDatabase.place? ∧ ∃ c g, ofText looseText = .ok c ∧ c.toText = .ok strictText ∧
      Folder.empty.save ⟨[], some Folder.fileName, false⟩ c = .ok g ∧
      g.load ⟨[], some Folder.fileName, false⟩ Folder.fileName = .ok c := by
  have written : ((ofText looseText).bind toText).toOption = some strictText := by decide +kernel
  obtain ⟨other, writable⟩ := exists_write_empty
  cases read : ofText looseText with
  | error e =>
    rw [read] at written
    cases written
  | ok c =>
    rw [read] at written
    obtain ⟨g, saved, loaded⟩ := (load_save isGazetteer_ofName? read).2 _ other _ none writable
    exact ⟨isGazetteer_ofName?, c, g, rfl, toOption_eq_some.mp written, saved, loaded _⟩

end Configuration

end Cadence
