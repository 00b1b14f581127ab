import Cadence.Store.Basic

/-!
Edits that are made one after the other in one step, and what the leases have to say to them. A field that a batch does
not change keeps its value (`putAll_get`), and a batch that holds a leased field is refused (`forM_checkLease_none`). A
single edit without a lease is a batch of one (`write_none`).
-/

namespace Cadence

namespace Settings

theorem put_of_get_eq {s t : Settings} {f : Field} {v : Option FieldValue} (h : s.put f v = .ok t)
    (same : s.get f = v) : t = s := by
  apply ext_get
  intro g
  by_cases other : g = f
  · rw [other, get_put_self h, same]
  · exact get_put_other h other

end Settings

namespace Store

variable {settings final : Settings} {entries : List (Field × Option FieldValue)} {changed : List Field}

theorem putAll_cons {e : Field × Option FieldValue} (h : putAll settings (e :: entries) = .ok (final, changed)) :
    ∃ next rest, settings.put e.1 e.2 = .ok next ∧ putAll next entries = .ok (final, rest) ∧
      changed = if settings.get e.1 = e.2 then rest else e.1 :: rest := by
  simp only [putAll, bind, Except.bind] at h
  cases put : settings.put e.1 e.2 with
  | error e => simp [put] at h
  | ok next =>
    simp only [put] at h
    cases rest : putAll next entries with
    | error e => simp [rest] at h
    | ok result =>
      simp only [rest, Except.ok.injEq, Prod.mk.injEq] at h
      exact ⟨next, result.2, rfl, by rw [rest, ← h.1], h.2.symm⟩

theorem putAll_get (h : putAll settings entries = .ok (final, changed)) (f : Field) :
    final.get f = settings.get f ∨ f ∈ changed := by
  induction entries generalizing settings changed with
  | nil =>
    cases h
    exact Or.inl rfl
  | cons e entries ih =>
    obtain ⟨next, rest, put, after, listed⟩ := putAll_cons h
    by_cases same : settings.get e.1 = e.2
    · rw [if_pos same] at listed
      rw [listed, ← Settings.put_of_get_eq put same]
      exact ih after
    rw [if_neg same] at listed
    by_cases first : f = e.1
    · exact Or.inr (by simp [listed, first])
    obtain kept | later := ih after
    · exact Or.inl (kept.trans (Settings.get_put_other put first))
    · exact Or.inr (by simp [listed, later])

theorem mem_of_putAll (h : putAll settings entries = .ok (final, changed)) {f : Field} (member : f ∈ changed) :
    f ∈ entries.map Prod.fst := by
  induction entries generalizing settings changed with
  | nil =>
    cases h
    exact member
  | cons e entries ih =>
    obtain ⟨next, rest, _, after, listed⟩ := putAll_cons h
    rw [List.map_cons, List.mem_cons]
    by_cases same : settings.get e.1 = e.2
    · rw [if_pos same] at listed
      exact Or.inr (ih after (listed ▸ member))
    · rw [if_neg same] at listed
      rw [listed, List.mem_cons] at member
      exact member.imp id (ih after)

theorem eq_of_putAll_nil (h : putAll settings entries = .ok (final, [])) : final = settings :=
  Settings.ext_get fun f => (putAll_get h f).resolve_right List.not_mem_nil

variable {κ : Type}

theorem write_none (s : Store κ) (f : Field) (v : Option FieldValue) : s.write none f v = s.writeBatch [(f, v)] := by
  simp only [write, writeBatch, putAll, bind, Except.bind, List.forM, pure, Except.pure]
  cases s.settings.put f v with
  | error e => rfl
  | ok settings =>
    by_cases deleted : s.status = .deleted
    · simp [deleted]
    · cases s.checkLease none f with
      | error e => simp [deleted]
      | ok _ => by_cases same : s.settings.get f = v <;> simp [deleted, same]

theorem checkLease_none (s : Store κ) (f : Field) : s.checkLease none f = .ok () ↔ s.leaseOf? f = none := by
  cases held : s.leaseOf? f <;> simp [checkLease, held]

theorem forM_checkLease_none (s : Store κ) (entries : List (Field × Option FieldValue)) :
    (entries.forM fun e => s.checkLease none e.1) = .ok () ↔ ∀ e ∈ entries, s.leaseOf? e.1 = none := by
  induction entries with
  | nil => simp [List.forM, pure, Except.pure]
  | cons e entries ih =>
    rw [List.forall_mem_cons, ← ih, ← checkLease_none]
    cases free : s.checkLease none e.1 <;> simp [List.forM, bind, Except.bind, free]

end Store

end Cadence
