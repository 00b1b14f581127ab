import Cadence.Proofs.Store.Announcement

/-!
What a version stands for. Along a run a store either shows the same values and the same status as before, or it has a
greater version (`Supersedes`). So the version never goes back, and between two moments with the same version nothing
has changed that anybody could read, whatever the listeners did in the meantime (`same_contents_of_version`).
-/

namespace Cadence

namespace Store

variable {κ : Type} {s t u : Store κ}

/-- A store that was `s` at an earlier moment has a greater version since, or still the same contents. -/
def Supersedes (t s : Store κ) : Prop :=
  s.version < t.version ∨ t.version = s.version ∧ t.settings = s.settings ∧ t.status = s.status

namespace Supersedes

theorem refl (s : Store κ) : Supersedes s s := .inr ⟨rfl, rfl, rfl⟩

theorem trans (second : Supersedes u t) (first : Supersedes t s) : Supersedes u s := by
  obtain newer | ⟨version, settings, status⟩ := first
  · obtain newest | ⟨version', -, -⟩ := second
    · exact .inl (Nat.lt_trans newer newest)
    · exact .inl (by rwa [version'])
  · obtain newer | ⟨version', settings', status'⟩ := second
    · exact .inl (by rwa [← version])
    · exact .inr ⟨version'.trans version, settings'.trans settings, status'.trans status⟩

theorem version_le (h : Supersedes t s) : s.version ≤ t.version := by
  obtain newer | ⟨version, -, -⟩ := h
  · exact Nat.le_of_lt newer
  · exact Nat.le_of_eq version.symm

theorem contents (h : Supersedes t s) (same : s.version = t.version) :
    s.settings = t.settings ∧ s.status = t.status := by
  obtain newer | ⟨-, settings, status⟩ := h
  · exact absurd same (Nat.ne_of_lt newer)
  · exact ⟨settings.symm, status.symm⟩

end Supersedes

theorem Does.supersedes {op : Operation κ} {events : List Event} (h : Does s op t events) : Supersedes t s := by
  cases h with
  | write _ _ _ _ | writeBatch _ _ _ _ | activate _ | deactivate _ | delete _ => exact .inl (Nat.lt_succ_self _)
  | nothing _ | reserve _ _ | release _ | subscribe _ _ | unsubscribe _ => exact .refl s

theorem supersedes_after (s : Store κ) (op : Operation κ) : Supersedes (s.after op).1 s := by
  obtain ⟨-, same⟩ | ⟨-, done⟩ := s.after_cases op
  · rw [same]
    exact .refl s
  · exact done.supersedes

theorem snapshot_congr (version : s.version = t.version) (contents : s.settings = t.settings ∧ s.status = t.status)
    (fields : List Field) : s.snapshot fields = t.snapshot fields := by
  rw [snapshot, snapshot, isActive, isActive, version, contents.1, contents.2]

theorem version_of_snapshot {fields : List Field} {shown : Snapshot} (h : s.snapshot fields = .ok shown) :
    shown.version = s.version := by
  rw [snapshot] at h
  split at h
  · cases h
  · cases h
    rfl

end Store

namespace Hub

def reached (h : Hub) (turns : List Turn) (count : Nat) : Hub := h.run (turns.take count)

theorem supersedes_take (h : Hub) (turn : Turn) : (h.take turn).store.Supersedes h.store := by
  rw [(h.takes turn).store, result]
  cases h.operation? turn with
  | none => exact .refl h.store
  | some op => exact h.store.supersedes_after op

theorem supersedes_run (h : Hub) (turns : List Turn) : (h.run turns).store.Supersedes h.store := by
  induction turns generalizing h with
  | nil => exact .refl h.store
  | cons turn turns ih => exact (ih (h.take turn)).trans (h.supersedes_take turn)

theorem supersedes_reached (h : Hub) (turns : List Turn) {i j : Nat} (later : i ≤ j) :
    (h.reached turns j).store.Supersedes (h.reached turns i).store := by
  obtain ⟨more, rfl⟩ := Nat.exists_eq_add_of_le later
  have split : turns.take (i + more) = turns.take i ++ (turns.drop i).take more := List.take_add
  rw [reached, reached, split, run, run, List.foldl_append]
  exact supersedes_run _ _

theorem contents_reached (h : Hub) (turns : List Turn) {i j : Nat}
    (same : (h.reached turns i).store.version = (h.reached turns j).store.version) :
    (h.reached turns i).store.settings = (h.reached turns j).store.settings ∧
      (h.reached turns i).store.status = (h.reached turns j).store.status := by
  obtain later | earlier := Nat.le_total i j
  · exact (h.supersedes_reached turns later).contents same
  · obtain ⟨settings, status⟩ := (h.supersedes_reached turns earlier).contents same.symm
    exact ⟨settings.symm, status.symm⟩

/-- At two moments of a run, the later version is no smaller; and if the versions are the same, then so are all values
and the status, and two snapshots of the same fields with the same version cannot be told apart. -/
theorem same_contents_of_version (h : Hub) (turns : List Turn) (i j : Nat) :
    (i ≤ j → (h.reached turns i).store.version ≤ (h.reached turns j).store.version) ∧
      ((h.reached turns i).store.version = (h.reached turns j).store.version →
        (h.reached turns i).store.settings = (h.reached turns j).store.settings ∧
          (h.reached turns i).store.status = (h.reached turns j).store.status) ∧
      ∀ fields first second, (h.reached turns i).store.snapshot fields = .ok first →
        (h.reached turns j).store.snapshot fields = .ok second → first.version = second.version → first = second := by
  refine ⟨fun later => (h.supersedes_reached turns later).version_le, h.contents_reached turns, ?_⟩
  intro fields first second shown shown' same
  rw [Store.version_of_snapshot shown, Store.version_of_snapshot shown'] at same
  have unchanged := Store.snapshot_congr same (h.contents_reached turns same) fields
  rw [shown, shown'] at unchanged
  exact Except.ok.inj unchanged

theorem meddlers_same_contents :
    (4 ≤ 7 ∧ ((ofStore (.new .empty .active)).reached meddlers 4).store.version ≤
        ((ofStore (.new .empty .active)).reached meddlers 7).store.version) ∧
      ((ofStore (.new .empty .active)).reached meddlers 5).store.subscriptions.map Subscription.id = [1, 2, 3, 4] ∧
      ((ofStore (.new .empty .active)).reached meddlers 7).store.subscriptions.map Subscription.id = [1, 3, 4] ∧
      ((ofStore (.new .empty .active)).reached meddlers 5).store.settings =
        ((ofStore (.new .empty .active)).reached meddlers 7).store.settings ∧
      ∃ first second, ((ofStore (.new .empty .active)).reached meddlers 5).store.snapshot [.period] = .ok first ∧
        ((ofStore (.new .empty .active)).reached meddlers 7).store.snapshot [.period] = .ok second ∧
        first.version = 1 ∧ first = second := by
  have same : ((ofStore (.new .empty .active)).reached meddlers 5).store.version =
      ((ofStore (.new .empty .active)).reached meddlers 7).store.version := by decide +kernel
  obtain ⟨grows, -, -⟩ := same_contents_of_version (ofStore (.new .empty .active)) meddlers 4 7
  obtain ⟨-, contents, alike⟩ := same_contents_of_version (ofStore (.new .empty .active)) meddlers 5 7
  refine ⟨⟨by decide, grows (by decide)⟩, by decide +kernel, by decide +kernel, (contents same).1, ?_⟩
  exact ⟨_, _, rfl, rfl, by decide +kernel, alike [.period] _ _ rfl rfl same⟩

end Hub

end Cadence
