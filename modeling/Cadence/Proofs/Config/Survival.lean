import Cadence.Proofs.Config.ReadBack

/-!
A time zone in a configuration file. A zone is written by its text, so that a configuration whose other values can be
read again survives in a file exactly if its zone survives as text: an offset with seconds makes the whole file
unreadable (`timezone_survives_iff`).
-/

namespace Cadence

open Toml

namespace Configuration

section TzDatabase

variable [TzDatabase] {c : Configuration} {z : Zone}

theorem ofText_text_of_zone (gazetteer : IsGazetteer TzDatabase.place?) (given : z.IsGiven)
    (readable : c.IsReadableButZone) (there : c.settings.timezone = some z) : ofText (String.ofList c.text) =
      match Zone.ofText z.text with
      | .ok back => Except.map (fun _ => ⟨{ c.settings with timezone := some back }, c.active⟩)
          ({ c.settings with timezone := some back } : Settings).validate
      | .error _ => .error (.config .unreadableText) := by
  have plain : ∀ y, c.settings.timezone = some y → ∀ d ∈ y.text.toList, isPlain d = true := by
    intro y same
    rw [there, Option.some.injEq] at same
    exact same ▸ isPlain_zone gazetteer given
  have timezone : valueOf? zone? Field.timezone.name (Table.ofEntries c.entries) =
      (Zone.ofText z.text).toOption.map some := by
    simp [valueOf?, find?_entries, Settings.get, there, node, zone?]
  rw [ofText, String.toList_ofList, document?_configuration readable.isWritable plain, Option.bind_some,
    ofTable?_entries readable, timezone]
  cases Zone.ofText z.text <;> rfl

/-- With any gazetteer, a zone survives as text, and in a file with what else can be read again, exactly if it is a
word, a place or an offset of whole minutes. Otherwise its text is refused, and so is the file. -/
theorem timezone_survives_iff (gazetteer : IsGazetteer TzDatabase.place?) (given : z.IsGiven) :
    (Zone.ofText z.text = .ok z ↔ z.IsWhole) ∧
    (¬z.IsWhole → Zone.ofText z.text = .error (.invalidZone (.text z.text))) ∧
    ∀ c : Configuration, c.settings.timezone = some z → c.IsReadableButZone → c.settings.validate = .ok () →
      ∀ (f other : Folder) (path : FolderPath) (content : Option String), f.write path content = .ok other →
        ∃ g saved, f.save path c = .ok g ∧ g.read path = .ok saved ∧
          (ofText saved = .ok c ↔ z.IsWhole) ∧
          (¬z.IsWhole → ofText saved = .error (.config .unreadableText)) := by
  have back := Zone.ofText_text_iff gazetteer given
  refine ⟨back, Zone.ofText_text_of_not_isWhole gazetteer, ?_⟩
  intro c there readable valid f other path content writable
  obtain ⟨g, saved, read⟩ := read_save readable.isWritable writable
  have text := ofText_text_of_zone gazetteer given readable there
  have refused : ¬z.IsWhole → ofText (String.ofList c.text) = .error (.config .unreadableText) := by
    intro odd
    rw [text, Zone.ofText_text_of_not_isWhole gazetteer odd]
  refine ⟨g, _, saved, read, ⟨fun loaded => ?_, fun whole => ?_⟩, refused⟩
  · by_contra odd
    rw [refused odd] at loaded
    cases loaded
  · have same : { c.settings with timezone := some z } = c.settings := by rw [← there]
    simp only [text, back.mpr whole, same, valid, Except.map]

end TzDatabase

def quarterHourly (z : Zone) : Configuration := ⟨⟨some ⟨15, .clock .minutes⟩, none, none, some z, none⟩, true⟩

def oddOffset : Offset := ⟨3661, by decide⟩

theorem odd_offset_is_lost :
    ∃ saved, Zone.ofSeconds 3661 = .ok (.fixed oddOffset) ∧ (Zone.fixed oddOffset).text = "+01:01:01" ∧
      Zone.ofText "+01:01:01" = .error (.invalidZone (.text "+01:01:01")) ∧
      (quarterHourly (.fixed oddOffset)).settings.validate = .ok () ∧
      (quarterHourly (.fixed oddOffset)).toText = .ok saved ∧ ofText saved = .error (.config .unreadableText) := by
  have text : (quarterHourly (.fixed oddOffset)).toText = .ok
      "timezone = \"+01:01:01\"\nactive = true\n\n[period]\nfactor = 15\nunit = \"MINUTES\"\n" := by decide +kernel
  exact ⟨_, rfl, by decide +kernel, rfl, by decide +kernel, text, by decide +kernel⟩

theorem isReadableButZone_quarterHourly [TzDatabase] (z : Zone) : (quarterHourly z).IsReadableButZone := by
  intro f v other there
  cases f with
  | timezone => exact absurd rfl other
  | period =>
    cases there
    exact show 15 ≤ 9223372036854775807 by decide
  | startTime | endTime | nextExecution => cases there

theorem place_survives_and_odd_offset_does_not :
    IsGazetteer TzDatabase.place? ∧
      (Zone.region Region.berlin).IsGiven ∧
      Zone.ofText "Europe/Berlin" = .ok (.region Region.berlin) ∧
      (Zone.fixed oddOffset).IsGiven ∧ ¬(Zone.fixed oddOffset).IsWhole ∧
      ∀ z : Zone, z = .region Region.berlin ∨ z = .fixed oddOffset →
        ∃ g saved, Folder.empty.save ⟨[], some Folder.fileName, false⟩ (quarterHourly z) = .ok g ∧
          g.read ⟨[], some Folder.fileName, false⟩ = .ok saved ∧
          (ofText saved = .ok (quarterHourly z) ↔ z.IsWhole) := by
  have berlin : (Zone.region Region.berlin).IsGiven := .inr ⟨" Europe/Berlin ", by rfl⟩
  have odd : (Zone.fixed oddOffset).IsGiven := .inl ⟨3661, rfl⟩
  obtain ⟨other, writable⟩ := exists_write_empty
  refine ⟨isGazetteer_ofName?, berlin, ?_, odd, ?_, ?_⟩
  · exact (timezone_survives_iff isGazetteer_ofName? berlin).1.mpr fun _ same => nomatch same
  · exact mt Zone.isWhole_fixed.mp (by decide)
  · intro z which
    have given : z.IsGiven := by
      rcases which with rfl | rfl
      · exact berlin
      · exact odd
    have valid : (quarterHourly z).settings.validate = .ok () := rfl
    obtain ⟨-, -, files⟩ := timezone_survives_iff isGazetteer_ofName? given
    obtain ⟨g, saved, written, read, survives, -⟩ :=
      files _ rfl (isReadableButZone_quarterHourly z) valid _ other _ none writable
    exact ⟨g, saved, written, read, survives⟩

end Configuration

end Cadence
