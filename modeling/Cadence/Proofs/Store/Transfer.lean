import Cadence.Proofs.Store.Contents

/-!
From a configuration to a store and back. A store is made from the cells of a configuration, and shows its own cells
as a configuration. Since nothing gets lost in between, a valid configuration is what a store that was made from it
shows, and whatever has been done to a store, the one that is made from what it shows has the same cells
(`ofConfiguration_toConfiguration`).
-/

namespace Cadence

namespace Store

variable {κ : Type} {start s : Store κ} {ops : List (Operation κ)}

theorem mem_cells_run (present : (start.run ops).status ≠ .deleted) (f : Field) (v : FieldValue) :
    (f, v) ∈ (start.run ops).cells ↔ start.lastWritten ops f = some v := by
  have kept : .delete ∉ ops := fun member => present ((status_run_eq_deleted start ops).mpr (.inr member))
  rw [cells, Settings.mem_cells, get_run start kept]

/-- A valid configuration is taken over as it is: the store has its values as cells, which make up its settings again,
and shows it. A store that is there shows its cells as a configuration, and if that is valid, then the store that is
made from it has the same cells and shows the same, whatever fields are asked for. -/
theorem ofConfiguration_toConfiguration :
    (∀ c : Configuration, c.settings.validate = .ok () →
      ∃ made : Store κ, ofConfiguration c = .ok made ∧ made.toConfiguration = .ok c ∧
        (∀ f v, (f, v) ∈ made.cells ↔ (f, some v) ∈ c.settings.entries) ∧
        Settings.ofCells made.cells = c.settings) ∧
    ∀ (start : Store κ) (ops : List (Operation κ)), (start.run ops).status ≠ .deleted →
      ∃ c, (start.run ops).toConfiguration = .ok c ∧ c.settings = Settings.ofCells (start.run ops).cells ∧
        (∀ f v, (f, v) ∈ (start.run ops).cells ↔ start.lastWritten ops f = some v) ∧
        (c.settings.validate = .ok () →
          ∃ made : Store κ, ofConfiguration c = .ok made ∧ made.cells = (start.run ops).cells ∧
            made.isActive = (start.run ops).isActive ∧
            ∀ fields, ∃ before after, (start.run ops).snapshot fields = .ok before ∧
              made.snapshot fields = .ok after ∧ after.settings = before.settings ∧ after.active = before.active) := by
  constructor
  · intro c valid
    refine ⟨_, ofConfiguration_of_valid valid, toConfiguration_new c, fun f v => ?_, Settings.ofCells_cells _⟩
    rw [cells, Settings.mem_cells, Settings.mem_entries]
    rfl
  · intro start ops present
    have shown := toConfiguration_of_present present
    refine ⟨_, shown, (Settings.ofCells_cells _).symm, mem_cells_run present, fun valid => ?_⟩
    refine ⟨_, ofConfiguration_of_valid valid, rfl, isActive_new _ _, fun fields => ?_⟩
    exact ⟨_, _, if_neg present, if_neg (status_new_ne_deleted _ _), rfl, isActive_new _ _⟩

theorem redraft_taken_over :
    everyOtherDay.settings.validate = .ok () ∧
      ∃ first second : Store Unit, ofConfiguration everyOtherDay = .ok first ∧
        first.toConfiguration = .ok everyOtherDay ∧
        (first.run redraft).status = .inactive ∧
        (first.run redraft).toConfiguration = .ok ⟨⟨some ⟨1, .clock .hours⟩, none, none, some .system, none⟩, false⟩ ∧
        ofConfiguration ⟨⟨some ⟨1, .clock .hours⟩, none, none, some .system, none⟩, false⟩ = .ok second ∧
        second.cells = (first.run redraft).cells ∧ second.isActive = (first.run redraft).isActive := by
  have valid : everyOtherDay.settings.validate = .ok () := rfl
  obtain ⟨first, made, shown, -, -⟩ := ofConfiguration_toConfiguration.1 everyOtherDay valid
  obtain rfl : _ = first := Except.ok.inj made
  have present : ((new everyOtherDay.settings .active : Store Unit).run redraft).status = .inactive := by decide +kernel
  obtain ⟨c, exported, -, -, imported⟩ :=
    ofConfiguration_toConfiguration.2 (new everyOtherDay.settings .active : Store Unit) redraft
      (by rw [present]; decide)
  have same : ((new everyOtherDay.settings .active : Store Unit).run redraft).toConfiguration =
      .ok ⟨⟨some ⟨1, .clock .hours⟩, none, none, some .system, none⟩, false⟩ :=
    toOption_eq_some.mp (by decide +kernel)
  obtain rfl : c = _ := Except.ok.inj (exported.symm.trans same)
  obtain ⟨second, again, cells, active, -⟩ := imported rfl
  exact ⟨valid, _, second, made, shown, present, same, again, cells, active⟩

end Store

end Cadence
