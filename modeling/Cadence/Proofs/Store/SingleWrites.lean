import Cadence.Proofs.Store.InPlace
import Mathlib.Data.List.Perm.Basic

/-!
A batch beside single writes. The entries of a batch are checked together, applied together and announced together,
under one version; single writes do each of that for themselves. With distinct fields it makes no difference to the
values, nor to who hears of which field, in whatever order the single writes are made (`Hub.writeBatch_iff_writeEach`).
The version tells them apart.
-/

namespace Cadence

def Notice.about (n : Notice) : Nat × Change := (n.subscription, n.event.change)

def Watcher.IsQuiet (w : Watcher) : Prop := w.reaction = .record ∨ w.reaction = .panic

namespace Store

/-- The fields of those entries that have another value than the settings. -/
def differing (settings : Settings) (entries : List (Field × Option FieldValue)) : List Field :=
  (entries.filter fun e => settings.get e.1 ≠ e.2).map Prod.fst

def heardOf (subscriptions : List (Subscription Watcher)) (changes : List Change) : List (Nat × Change) :=
  subscriptions.flatMap fun sub => (changes.filter sub.wants).map fun c => (sub.id, c)

variable {settings final : Settings} {entries order : List (Field × Option FieldValue)} {changed : List Field}

theorem differing_congr {next : Settings} (same : ∀ e ∈ entries, next.get e.1 = settings.get e.1) :
    differing next entries = differing settings entries := by
  rw [differing, differing, List.filter_congr fun e member => by rw [same e member]]

theorem putAll_distinct (distinct : (entries.map Prod.fst).Nodup)
    (put : putAll settings entries = .ok (final, changed)) :
    changed = differing settings entries ∧ (∀ e ∈ entries, final.get e.1 = e.2) ∧
      ∀ f ∉ entries.map Prod.fst, final.get f = settings.get f := by
  induction entries generalizing settings changed with
  | nil =>
    cases put
    exact ⟨rfl, List.forall_mem_nil _, fun _ _ => rfl⟩
  | cons e entries ih =>
    obtain ⟨next, rest, first, after, rfl⟩ := putAll_cons put
    rw [List.map_cons, List.nodup_cons] at distinct
    obtain ⟨rfl, given, kept⟩ := ih distinct.2 after
    have moved : ∀ f, f ≠ e.1 → next.get f = settings.get f := fun f other => Settings.get_put_other first other
    have same : differing next entries = differing settings entries := by
      refine differing_congr fun later member => moved later.1 ?_
      rintro again
      exact distinct.1 (again ▸ List.mem_map_of_mem member)
    refine ⟨?_, List.forall_mem_cons.mpr ⟨?_, given⟩, fun f absent => ?_⟩
    · rw [same]
      by_cases equal : settings.get e.1 = e.2 <;> simp [differing, equal]
    · rw [kept e.1 distinct.1, Settings.get_put_self first]
    · rw [List.map_cons, List.mem_cons, not_or] at absent
      rw [kept f absent.2, moved f absent.1]

theorem putAll_perm (distinct : (entries.map Prod.fst).Nodup) (shuffled : order.Perm entries)
    (put : putAll settings entries = .ok (final, changed)) (fit : ∀ e ∈ entries, checkKind e = .ok ()) :
    putAll settings order = .ok (final, differing settings order) := by
  obtain ⟨final', changed', put'⟩ := exists_putAll (fun e member => fit e (shuffled.mem_iff.mp member)) settings
  have fields := shuffled.map Prod.fst
  obtain ⟨-, given, kept⟩ := putAll_distinct distinct put
  obtain ⟨rfl, given', kept'⟩ := putAll_distinct (fields.nodup_iff.mpr distinct) put'
  have same : final' = final := by
    refine Settings.ext_get fun f => ?_
    by_cases member : f ∈ entries.map Prod.fst
    · obtain ⟨e, listed, rfl⟩ := List.mem_map.mp member
      rw [given e listed, given' e (shuffled.mem_iff.mpr listed)]
    · rw [kept f member, kept' f (mt fields.mem_iff.mp member)]
  rw [put', same]

theorem about_deliveries (s : Store Watcher) (events : List Event) :
    ((s.deliveries events).map .of).map Notice.about = heardOf s.subscriptions (events.map Event.change) := by
  simp only [deliveries, heardOf, List.map_flatMap, List.map_map, List.filter_map]
  rfl

theorem heardOf_nil (subscriptions : List (Subscription Watcher)) : heardOf subscriptions [] = [] :=
  List.flatMap_eq_nil_iff.mpr fun _ _ => rfl

theorem heardOf_each (subscriptions : List (Subscription Watcher)) (changes : List Change) :
    (heardOf subscriptions changes).Perm (changes.flatMap fun c => heardOf subscriptions [c]) := by
  induction changes with
  | nil => rw [heardOf_nil, List.flatMap_nil]
  | cons c changes ih =>
    have apart : (heardOf subscriptions [c] ++ heardOf subscriptions changes).Perm
        (heardOf subscriptions (c :: changes)) := by
      refine (List.flatMap_append_perm _ _ _).trans (List.Perm.flatMap_left _ fun sub _ => ?_)
      rw [← List.map_append, ← List.filter_append, List.singleton_append]
    rw [List.flatMap_cons]
    exact apart.symm.trans (ih.append_left _)

variable {s : Store Watcher}

theorem writeBatch_ok_iff : (∃ next, s.writeBatch entries = .ok next) ↔ s.screen none entries = .ok () := by
  constructor
  · rintro ⟨next, done⟩
    cases screened : s.screen none entries with
    | ok _ => rfl
    | error e => cases (writeBatch_of_screen_error screened).symm.trans done
  · intro passed
    obtain ⟨final, changed, put⟩ := exists_putAll (screen_eq_ok_iff.mp passed).1 s.settings
    exact ⟨_, writeBatch_of_screen passed put⟩

theorem write_none_ok_iff {e : Field × Option FieldValue} :
    (∃ next, s.write none e.1 e.2 = .ok next) ↔ s.screen none [e] = .ok () := by
  rw [write_none, writeBatch_ok_iff]

theorem screen_iff_each (some : entries ≠ []) :
    s.screen none entries = .ok () ↔ ∀ e ∈ entries, s.screen none [e] = .ok () := by
  simp only [screen_eq_ok_iff, List.forall_mem_singleton]
  constructor
  · rintro ⟨fit, present, free⟩ e member
    exact ⟨fit e member, present, free e member⟩
  · intro each
    obtain ⟨e, member⟩ := List.exists_mem_of_ne_nil entries some
    exact ⟨fun e member => (each e member).1, (each e member).2.1, fun e member => (each e member).2.2⟩

theorem write_of_putAll {e : Field × Option FieldValue} (passed : s.screen none [e] = .ok ())
    (put : putAll s.settings [e] = .ok (final, changed)) :
    s.write none e.1 e.2 = .ok ({ s with settings := final, version := s.version + changed.length },
      changed.map fun f => ⟨.value f, s.version + 1⟩) := by
  obtain ⟨next, rest, first, after, listed⟩ := putAll_cons put
  cases after
  rw [write_of_screen passed first]
  by_cases same : s.settings.get e.1 = e.2
  · rw [if_pos same] at listed ⊢
    rw [listed, Settings.put_of_get_eq first same]
    rfl
  · rw [if_neg same] at listed ⊢
    rw [listed]
    rfl

end Store

namespace Hub

variable {h : Hub} {op : Operation Watcher} {entries order : List (Field × Option FieldValue)}

/-- Nothing is waiting to be heard, and nobody acts on what is heard. -/
structure IsQuiet (h : Hub) : Prop where
  idle : h.pending = []
  quiet : ∀ sub ∈ h.store.subscriptions, sub.listener.IsQuiet

def finish (h : Hub) (op : Operation Watcher) : Hub :=
  let asked := h.take (.ask op)
  settle asked.pending.length asked

/-- Writes the entries one after the other. What a write announces is heard before the next one. -/
def writeEach (h : Hub) (entries : List (Field × Option FieldValue)) : Hub :=
  entries.foldl (fun h e => h.finish (.write none e.1 e.2)) h

def advanced (h : Hub) (settings : Settings) (versions : Nat) (heard : List Notice) : Hub :=
  { h with
    store := { h.store with settings := settings, version := h.store.version + versions }
    log := h.log ++ heard }

theorem advanced_advanced (h : Hub) (first second : Settings) (m n : Nat) (heard later : List Notice) :
    (h.advanced first m heard).advanced second n later = h.advanced second (m + n) (heard ++ later) := by
  simp only [advanced, List.append_assoc, Nat.add_assoc]

theorem screen_advanced (h : Hub) (settings : Settings) (versions : Nat) (heard : List Notice) :
    (h.advanced settings versions heard).store.screen none entries = h.store.screen none entries := rfl

theorem subscriptions_advanced (h : Hub) (settings : Settings) (versions : Nat) (heard : List Notice) :
    (h.advanced settings versions heard).store.subscriptions = h.store.subscriptions := rfl

theorem IsQuiet.advanced (q : h.IsQuiet) (settings : Settings) (versions : Nat) (heard : List Notice) :
    (h.advanced settings versions heard).IsQuiet := ⟨q.idle, q.quiet⟩

theorem settle_of_quiet (quiet : ∀ d ∈ h.pending, d.1.listener.IsQuiet) :
    settle h.pending.length h = { h with pending := [], log := h.log ++ h.pending.map .of } := by
  obtain ⟨store, names, pending, log⟩ := h
  induction pending generalizing log with
  | nil => simp [settle]
  | cons d pending ih =>
    obtain ⟨first, rest⟩ := List.forall_mem_cons.mp quiet
    have heard : step? ⟨store, names, d :: pending, log⟩ = some ⟨store, names, pending, log ++ [.of d]⟩ := by
      rcases first with records | panics
      · simp only [step?, react, records]
        rfl
      · simp only [step?, react, panics]
        rfl
    rw [List.length_cons, settle, heard]
    refine (ih (log ++ [.of d]) rest).trans ?_
    rw [List.append_assoc, List.map_cons, List.singleton_append]

theorem take_of_ok {next : Store Watcher × List Event} (edit : op.IsEdit) (done : h.store.perform op = .ok next) :
    h.take (.ask op) = h.commit next := by
  cases op with
  | subscribe _ _ => exact edit.elim
  | _ =>
    simp only [take, done]
    rfl

theorem IsQuiet.finish (q : h.IsQuiet) (edit : op.IsEdit) {t : Store Watcher} {events : List Event}
    (done : h.store.perform op = .ok (t, events)) (members : t.subscriptions = h.store.subscriptions) :
    h.finish op = { h with store := t, log := h.log ++ (t.deliveries events).map .of } := by
  have asked : h.take (.ask op) = { h with store := t, pending := t.deliveries events } := by
    rw [take_of_ok edit done, commit, q.idle, List.append_nil]
  rw [Hub.finish, asked, settle_of_quiet]
  · rw [← q.idle]
  · rintro d member
    obtain ⟨sub, listed, heard⟩ := List.mem_flatMap.mp member
    obtain ⟨e, -, rfl⟩ := List.mem_map.mp heard
    exact q.quiet sub (members ▸ listed)

theorem IsQuiet.finish_of_edit (q : h.IsQuiet) (op : Operation Watcher) (edit : op.IsEdit) {final : Settings}
    {versions version : Nat} {changed : List Field} (done : h.store.perform op =
      .ok ({ h.store with settings := final, version := h.store.version + versions },
        changed.map fun f => ⟨.value f, version⟩)) :
    ∃ heard, h.finish op = h.advanced final versions heard ∧
      heard.map Notice.about = Store.heardOf h.store.subscriptions (changed.map .value) := by
  refine ⟨_, q.finish edit done rfl, ?_⟩
  rw [Store.about_deliveries, List.map_map]
  rfl

theorem IsQuiet.writeEach (q : h.IsQuiet) {final : Settings} {changed : List Field}
    (passed : ∀ e ∈ entries, h.store.screen none [e] = .ok ())
    (put : Store.putAll h.store.settings entries = .ok (final, changed)) :
    ∃ heard, h.writeEach entries = h.advanced final changed.length heard ∧
      heard.map Notice.about = changed.flatMap fun f => Store.heardOf h.store.subscriptions [.value f] := by
  induction entries generalizing h changed with
  | nil =>
    cases put
    refine ⟨[], ?_, rfl⟩
    rw [Hub.advanced, List.append_nil]
    rfl
  | cons e entries ih =>
    obtain ⟨next, rest, first, after, rfl⟩ := Store.putAll_cons put
    obtain ⟨passes, others⟩ := List.forall_mem_cons.mp passed
    have alone : Store.putAll h.store.settings [e] =
        .ok (next, if h.store.settings.get e.1 = e.2 then [] else [e.1]) := by
      simp only [Store.putAll, first, bind, Except.bind]
    obtain ⟨heard, finished, about⟩ :=
      q.finish_of_edit (.write none e.1 e.2) trivial (Store.write_of_putAll passes alone)
    -- The hub is as quiet as before when the first entry has been heard of.
    obtain ⟨later, reached, about'⟩ := ih (q.advanced next _ heard) others after
    refine ⟨heard ++ later, ?_, ?_⟩
    · have onward : h.writeEach (e :: entries) = (h.finish (.write none e.1 e.2)).writeEach entries := rfl
      rw [onward, finished, reached, advanced_advanced]
      split <;> simp [Nat.add_comm]
    · rw [List.map_append, about, about', subscriptions_advanced]
      split
      · rw [List.map_nil, Store.heardOf_nil, List.nil_append]
      · rw [List.map_singleton, List.flatMap_cons]

theorem IsQuiet.finish_writeBatch (q : h.IsQuiet) {final : Settings} {changed : List Field}
    (passed : h.store.screen none entries = .ok ())
    (put : Store.putAll h.store.settings entries = .ok (final, changed)) :
    ∃ heard, h.finish (.writeBatch entries) = h.advanced final (if changed = [] then 0 else 1) heard ∧
      heard.map Notice.about = Store.heardOf h.store.subscriptions (changed.map .value) := by
  have done : h.store.writeBatch entries = .ok
      ({ h.store with settings := final, version := h.store.version + (if changed = [] then 0 else 1) },
        changed.map fun f => ⟨.value f, h.store.version + 1⟩) := by
    rw [Store.writeBatch_of_screen passed put]
    cases changed with
    | nil =>
      rw [Store.eq_of_putAll_nil put]
      rfl
    | cons f changed => rfl
  exact q.finish_of_edit (.writeBatch entries) trivial done

/-- Where nobody acts on what is heard, a batch with distinct fields succeeds if each of its entries could be written
alone. Then single writes succeed in every order, and lead to the same store but for the version; each field is heard of
by the same subscriptions. The batch counts one version if there is a change, and single writes count one for each. -/
theorem writeBatch_iff_writeEach (q : h.IsQuiet) (some : entries ≠ []) (distinct : (entries.map Prod.fst).Nodup) :
    ((∃ next, h.store.writeBatch entries = .ok next) ↔ ∀ e ∈ entries, ∃ next, h.store.write none e.1 e.2 = .ok next) ∧
      ((∃ next, h.store.writeBatch entries = .ok next) → ∀ order, order.Perm entries →
        (∀ before e after, order = before ++ e :: after →
          ∃ next, (h.writeEach before).store.write none e.1 e.2 = .ok next) ∧
        ∃ settings heard heard',
          h.finish (.writeBatch entries) =
            h.advanced settings (if Store.differing h.store.settings entries = [] then 0 else 1) heard ∧
          h.writeEach order = h.advanced settings (Store.differing h.store.settings entries).length heard' ∧
          (heard.map Notice.about).Perm (heard'.map Notice.about)) := by
  refine ⟨?_, fun done order shuffled => ?_⟩
  · rw [Store.writeBatch_ok_iff, Store.screen_iff_each some]
    exact forall₂_congr fun e _ => Store.write_none_ok_iff.symm
  have passed := Store.writeBatch_ok_iff.mp done
  obtain ⟨fit, -, -⟩ := Store.screen_eq_ok_iff.mp passed
  have each : ∀ e ∈ order, h.store.screen none [e] = .ok () := fun e member =>
    (Store.screen_iff_each some).mp passed e (shuffled.mem_iff.mp member)
  obtain ⟨final, changed, put⟩ := Store.exists_putAll fit h.store.settings
  obtain ⟨rfl, -, -⟩ := Store.putAll_distinct distinct put
  have fields : (Store.differing h.store.settings order).Perm (Store.differing h.store.settings entries) :=
    (shuffled.filter _).map _
  refine ⟨?_, ?_⟩
  · rintro before e after rfl
    have early : ∀ e ∈ before, h.store.screen none [e] = .ok () := fun e member =>
      each e (List.mem_append_left _ member)
    obtain ⟨settings, written, putBefore⟩ := Store.exists_putAll
      (fun e member => (Store.screen_eq_ok_iff.mp (early e member)).1 e List.mem_cons_self) h.store.settings
    obtain ⟨heard, reached, -⟩ := q.writeEach early putBefore
    rw [Store.write_none_ok_iff, reached, screen_advanced]
    exact each e (List.mem_append_right _ List.mem_cons_self)
  · obtain ⟨heard, once, about⟩ := q.finish_writeBatch passed put
    obtain ⟨heard', oneByOne, about'⟩ := q.writeEach each (Store.putAll_perm distinct shuffled put fit)
    refine ⟨final, heard, heard', once, by rw [oneByOne, fields.length_eq], ?_⟩
    rw [about, about']
    refine (Store.heardOf_each _ _).trans ?_
    rw [List.flatMap_map]
    exact (fields.symm.flatMap_right _)

def hall : Hub :=
  (ofStore (.new { Settings.empty with period := some ⟨1, .clock .hours⟩, timezone := some .utc } .active)).run
    [.ask (.subscribe [.period, .timezone] ⟨"clock", .record⟩), .ask (.subscribe [.period] ⟨"stage", .panic⟩),
      .ask (.subscribe [.timezone] ⟨"door", .record⟩), .ask (.reserve .nextExecution)]

def programme : List (Field × Option FieldValue) :=
  [(.timezone, none), (.endTime, none), (.period, some (.period ⟨15, .clock .minutes⟩))]

theorem programme_backwards :
    hall.IsQuiet ∧ programme ≠ [] ∧ (programme.map Prod.fst).Nodup ∧
      (∃ next, hall.store.writeBatch programme = .ok next) ∧ programme.reverse.Perm programme ∧
      (∃ settings heard heard', hall.finish (.writeBatch programme) = hall.advanced settings 1 heard ∧
        hall.writeEach programme.reverse = hall.advanced settings 2 heard' ∧
        (heard.map Notice.about).Perm (heard'.map Notice.about)) ∧
      ((hall.finish (.writeBatch programme)).log.map Notice.about =
        [(1, .value .timezone), (1, .value .period), (2, .value .period), (3, .value .timezone)]) ∧
      (hall.writeEach programme.reverse).log.map Notice.about =
        [(1, .value .period), (2, .value .period), (1, .value .timezone), (3, .value .timezone)] := by
  have calm : hall.IsQuiet := by
    refine ⟨rfl, fun sub member => ?_⟩
    have listeners : ∀ sub ∈ hall.store.subscriptions,
        sub.listener.reaction = .record ∨ sub.listener.reaction = .panic := by decide
    exact listeners sub member
  have fields : (programme.map Prod.fst).Nodup := by decide
  obtain ⟨separately, together⟩ := writeBatch_iff_writeEach calm (by decide) fields
  have done : ∃ next, hall.store.writeBatch programme = .ok next := ⟨_, rfl⟩
  have shuffled := List.reverse_perm programme
  exact ⟨calm, by decide, fields, done, shuffled, (together done _ shuffled).2, by decide +kernel, by decide +kernel⟩

end Hub

end Cadence
