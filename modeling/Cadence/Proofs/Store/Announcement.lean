import Cadence.Proofs.Store.Timeline
import Mathlib.Data.List.Nodup

/-!
What a run announces. Everything that is asked for along a run is a request. Those that lead to a new version lead to
one version after the other, and everybody who has subscribed when a request is granted hears of all that it changes of
his fields, and of nothing else, once all deliveries are made (`announced_once`). Listeners may ask for more, or leave,
before that. Then what is still to be delivered is part of the line of notices already (`IsAccounted`).
-/

namespace Cadence

structure Request where
  before : Store Watcher
  operation : Operation Watcher

namespace Request

/-- The version that a request leads to, if it is granted and leads to a new one. -/
def version? (r : Request) : Option Nat :=
  match r.before.perform r.operation with
  | .ok next => if next.1.version = r.before.version then none else some next.1.version
  | .error _ => none

/-- What a subscription ought to hear of a request that leads to a version. -/
def heardBy (r : Request) (version : Nat) (sub : Subscription Watcher) : List Notice :=
  ((r.before.changes r.operation).filter sub.wants).map fun c => ⟨sub.id, sub.listener.name, ⟨c, version⟩⟩

def notices (r : Request) (version : Nat) : List Notice := r.before.subscriptions.flatMap (r.heardBy version)

end Request

namespace Hub

def request? (h : Hub) (turn : Turn) : Option Request := (h.operation? turn).map fun op => ⟨h.store, op⟩

def history : Hub → List Turn → List Request
  | _, [] => []
  | h, turn :: turns => (h.request? turn).toList ++ history (h.take turn) turns

end Hub

theorem Request.version_cases (r : Request) :
    r.version? = none ∧ (r.before.after r.operation).1.version = r.before.version ∧
        (r.before.after r.operation).2 = [] ∨
      r.version? = some (r.before.version + 1) ∧
        (r.before.after r.operation).1.version = r.before.version + 1 ∧ (r.before.after r.operation).2 ≠ [] ∧
        Store.Does r.before r.operation (r.before.after r.operation).1 (r.before.after r.operation).2 := by
  obtain ⟨⟨e, failed⟩, same⟩ | ⟨performed, done⟩ := r.before.after_cases r.operation
  · rw [same, version?, failed]
    exact Or.inl ⟨rfl, rfl, rfl⟩
  · rw [version?, performed]
    have version := done.version
    by_cases silent : (r.before.after r.operation).2 = []
    · rw [if_pos silent] at version
      exact Or.inl ⟨if_pos version, version, silent⟩
    · rw [if_neg silent] at version
      exact Or.inr ⟨by simp [version], version, silent, done⟩

namespace Store

structure Numbered (s : Store Watcher) : Prop where
  older : ∀ sub ∈ s.subscriptions, sub.id < s.nextSubscription
  distinct : (s.subscriptions.map Subscription.id).Nodup

theorem numbered_new (settings : Settings) (status : Status) : (new settings status).Numbered :=
  ⟨fun _ member => absurd member List.not_mem_nil, List.nodup_nil⟩

variable {s t : Store Watcher} {op : Operation Watcher} {events : List Event}

theorem Numbered.does (h : s.Numbered) (done : Does s op t events) : t.Numbered := by
  cases done with
  | subscribe fields w =>
    refine ⟨fun sub member => ?_, ?_⟩
    · obtain before | last := List.mem_append.mp member
      · exact Nat.lt_succ_of_lt (h.older sub before)
      · rw [List.mem_singleton.mp last]
        exact Nat.lt_succ_self _
    · have fresh : s.nextSubscription ∉ s.subscriptions.map Subscription.id := by
        intro member
        obtain ⟨sub, inside, same⟩ := List.mem_map.mp member
        exact absurd (h.older sub inside) (by omega)
      simp only [subscribe, List.map_append, List.map_cons, List.map_nil]
      rw [List.nodup_append]
      refine ⟨h.distinct, List.pairwise_singleton _ _, fun a first b second => ?_⟩
      rw [List.mem_singleton.mp second]
      rintro rfl
      exact fresh first
  | unsubscribe id =>
    refine ⟨fun sub member => h.older sub (List.mem_filter.mp member).1, ?_⟩
    exact h.distinct.sublist (List.filter_sublist.map _)
  | nothing _ | write _ _ _ _ | writeBatch _ _ _ _ | reserve _ _ | release _ | activate _ | deactivate _ | delete _ =>
    exact ⟨h.older, h.distinct⟩

theorem Numbered.after (h : s.Numbered) (op : Operation Watcher) : (s.after op).1.Numbered := by
  obtain ⟨_, same⟩ | ⟨_, done⟩ := s.after_cases op
  · rw [same]
    exact h
  · exact h.does done

end Store

namespace Hub

variable {h : Hub} {turn : Turn} {r : Request} {past : List Request}

theorem take_store_of_asked (asked : h.request? turn = some r) :
    r.before = h.store ∧ (h.take turn).store = (h.store.after r.operation).1 ∧
      h.announced turn = (h.store.after r.operation).1.deliveries (h.store.after r.operation).2 := by
  obtain ⟨op, wanted, rfl⟩ := Option.map_eq_some_iff.mp asked
  rw [(h.takes turn).store, announced, result_of_some wanted]
  exact ⟨rfl, rfl, rfl⟩

theorem take_store_of_idle (idle : h.request? turn = none) :
    (h.take turn).store = h.store ∧ h.announced turn = [] := by
  have wanted : h.operation? turn = none := Option.map_eq_none_iff.mp idle
  exact ⟨by rw [(h.takes turn).store, result, wanted], announced_of_none wanted⟩

theorem numbered_take (numbered : h.store.Numbered) (turn : Turn) : (h.take turn).store.Numbered := by
  cases asked : h.request? turn with
  | none =>
    rw [(take_store_of_idle asked).1]
    exact numbered
  | some r =>
    rw [(take_store_of_asked asked).2.1]
    exact numbered.after r.operation

theorem announced_of_asked (asked : h.request? turn = some r) (loud : (r.before.after r.operation).2 ≠ [])
    (done : Store.Does r.before r.operation (r.before.after r.operation).1 (r.before.after r.operation).2) :
    (h.announced turn).map Notice.of = r.notices (h.store.version + 1) := by
  obtain ⟨before, -, announced⟩ := take_store_of_asked asked
  rw [announced, ← before, Store.deliveries, (done.subscriptions loud).1, done.announces, Request.notices,
    List.map_flatMap]
  congr 1
  funext sub
  rw [Request.heardBy, List.filter_map, List.map_map, List.map_map]
  rfl

theorem mem_timeline_take {x : Notice} :
    x ∈ (h.take turn).timeline ↔ x ∈ h.timeline ∨ x ∈ (h.announced turn).map .of := by
  rw [timeline_take, h.timeline_eq turn]
  simp only [List.mem_append]
  grind

theorem filter_timeline_of_none {p : Notice → Bool} (none : ∀ x ∈ (h.announced turn).map .of, ¬p x) :
    (h.take turn).timeline.filter p = h.timeline.filter p := by
  rw [timeline_take, h.timeline_eq turn]
  simp only [List.filter_append]
  rw [List.filter_eq_nil_iff.mpr none, List.nil_append]

theorem filter_timeline_of_all {p : Notice → Bool} (old : ∀ x ∈ h.timeline, ¬p x)
    (new : ∀ x ∈ (h.announced turn).map .of, p x) :
    (h.take turn).timeline.filter p = (h.announced turn).map .of := by
  have before := List.filter_eq_nil_iff.mpr old
  rw [h.timeline_eq turn, List.filter_append, List.append_eq_nil_iff] at before
  rw [timeline_take, List.filter_append, List.filter_append ((h.announced turn).map Notice.of), before.1, before.2,
    List.filter_eq_self.mpr new, List.nil_append, List.append_nil]

/-- The line of notices is what the requests so far have announced, each of them its own version. -/
structure IsAccounted (past : List Request) (h : Hub) : Prop where
  numbered : h.store.Numbered
  distinct : ∀ r ∈ past, r.before.Numbered
  versions : past.filterMap Request.version? = List.range' 1 h.store.version
  told : ∀ r ∈ past, ∀ n, r.version? = some n → (h.timeline.filter fun x => x.event.version = n) = r.notices n
  known : ∀ x ∈ h.timeline, ∃ r ∈ past, r.version? = some x.event.version ∧ x ∈ r.notices x.event.version

theorem isAccounted_ofStore (settings : Settings) (status : Status) :
    IsAccounted [] (ofStore (.new settings status)) where
  numbered := Store.numbered_new settings status
  distinct _ member := absurd member List.not_mem_nil
  versions := rfl
  told _ member := absurd member List.not_mem_nil
  known _ member := absurd member List.not_mem_nil

theorem version_of_mem_notices {x : Notice} {version : Nat} (member : x ∈ r.notices version) :
    x.event.version = version ∧ ∃ sub ∈ r.before.subscriptions, sub.id = x.subscription := by
  obtain ⟨sub, inside, listed⟩ := List.mem_flatMap.mp member
  obtain ⟨c, -, rfl⟩ := List.mem_map.mp listed
  exact ⟨rfl, sub, inside, rfl⟩

namespace IsAccounted

theorem version_le (a : IsAccounted past h) (member : r ∈ past) {n : Nat} (led : r.version? = some n) :
    n ≤ h.store.version := by
  have listed : n ∈ past.filterMap Request.version? := List.mem_filterMap.mpr ⟨r, member, led⟩
  rw [a.versions, List.mem_range'_1] at listed
  omega

theorem timeline_le (a : IsAccounted past h) {x : Notice} (member : x ∈ h.timeline) :
    x.event.version ≤ h.store.version := by
  obtain ⟨r, inside, led, _⟩ := a.known x member
  exact a.version_le inside led

theorem of_silent (a : IsAccounted past h) {asked : List Request} (numbered : (h.take turn).store.Numbered)
    (distinct : ∀ r ∈ asked, r.before.Numbered) (none : ∀ r ∈ asked, r.version? = none)
    (version : (h.take turn).store.version = h.store.version) (silent : h.announced turn = []) :
    IsAccounted (past ++ asked) (h.take turn) := by
  have line : (h.take turn).timeline = h.timeline := by
    rw [timeline_take, h.timeline_eq turn, silent, List.map_nil, List.nil_append]
  refine ⟨numbered, fun r member => ?_, ?_, fun r member n led => ?_, fun x member => ?_⟩
  · exact (List.mem_append.mp member).elim (a.distinct r) (distinct r)
  · rw [List.filterMap_append, List.filterMap_eq_nil_iff.mpr none, List.append_nil, version, a.versions]
  · obtain before | now := List.mem_append.mp member
    · rw [line]
      exact a.told r before n led
    · rw [none r now] at led
      cases led
  · rw [line] at member
    obtain ⟨r, inside, known⟩ := a.known x member
    exact ⟨r, List.mem_append_left _ inside, known⟩

theorem of_loud (a : IsAccounted past h) (numbered : (h.take turn).store.Numbered) (before : r.before = h.store)
    (led : r.version? = some (h.store.version + 1)) (version : (h.take turn).store.version = h.store.version + 1)
    (announced : (h.announced turn).map .of = r.notices (h.store.version + 1)) :
    IsAccounted (past ++ [r]) (h.take turn) := by
  refine ⟨numbered, fun q member => ?_, ?_, fun q member n known => ?_, fun x member => ?_⟩
  · obtain earlier | now := List.mem_append.mp member
    · exact a.distinct q earlier
    · rw [List.mem_singleton.mp now, before]
      exact a.numbered
  · rw [List.filterMap_append, a.versions, version, List.range'_concat]
    simp [led, Nat.add_comm]
  -- What is announced has the new version, and all that was in the line before has an older one.
  · obtain earlier | now := List.mem_append.mp member
    · rw [filter_timeline_of_none, a.told q earlier n known]
      intro x new
      rw [announced] at new
      have bound := a.version_le earlier known
      simp only [decide_eq_true_eq, (version_of_mem_notices new).1]
      omega
    · rw [List.mem_singleton.mp now] at known ⊢
      obtain rfl : h.store.version + 1 = n := Option.some.inj (led.symm.trans known)
      rw [filter_timeline_of_all, announced]
      · intro x old
        have bound := a.timeline_le old
        simp only [decide_eq_true_eq]
        omega
      · intro x new
        rw [announced] at new
        exact decide_eq_true (version_of_mem_notices new).1
  · obtain old | new := mem_timeline_take.mp member
    · obtain ⟨q, inside, known⟩ := a.known x old
      exact ⟨q, List.mem_append_left _ inside, known⟩
    · rw [announced] at new
      have same := (version_of_mem_notices new).1
      exact ⟨r, by simp, by rw [led, same], by rwa [same]⟩

theorem take (a : IsAccounted past h) (turn : Turn) :
    IsAccounted (past ++ (h.request? turn).toList) (h.take turn) := by
  cases asked : h.request? turn with
  | none =>
    obtain ⟨store, silent⟩ := take_store_of_idle asked
    refine a.of_silent (numbered_take a.numbered turn) ?_ ?_ (by rw [store]) silent
    · exact fun _ member => absurd member List.not_mem_nil
    · exact fun _ member => absurd member List.not_mem_nil
  | some r =>
    obtain ⟨before, store, announced⟩ := take_store_of_asked asked
    have numbered := numbered_take a.numbered turn
    have single : ∀ q ∈ (some r).toList, q = r := fun q member => List.mem_singleton.mp member
    obtain ⟨none, same, silent⟩ | ⟨led, version, loud, done⟩ := r.version_cases
    · rw [before] at same silent
      refine a.of_silent numbered ?_ ?_ (by rw [store, same]) (by rw [announced, silent, Store.deliveries_nil])
      · intro q member
        rw [single q member, before]
        exact a.numbered
      · intro q member
        rw [single q member, none]
    · have notices := announced_of_asked asked loud done
      rw [before] at led version
      exact a.of_loud numbered before led (by rw [store, version]) notices

theorem run (a : IsAccounted past h) (turns : List Turn) : IsAccounted (past ++ h.history turns) (h.run turns) := by
  induction turns generalizing h past with
  | nil => exact (List.append_nil past).symm ▸ a
  | cons turn turns ih =>
    rw [history, ← List.append_assoc]
    exact ih (a.take turn)

end IsAccounted

theorem run_store (h : Hub) (turns : List Turn) :
    (h.run turns).store = h.store.run ((h.history turns).map Request.operation) := by
  induction turns generalizing h with
  | nil => rfl
  | cons turn turns ih =>
    refine (ih (h.take turn)).trans ?_
    rw [history, List.map_append, Store.run, Store.run, List.foldl_append]
    congr 1
    cases asked : h.request? turn with
    | none => exact (take_store_of_idle asked).1
    | some r => exact (take_store_of_asked asked).2.1

end Hub

/-- Where no two subscriptions have the same number, those of the notices that are for one of them are what it ought
to hear. -/
theorem Request.filter_notices {r : Request} (numbered : r.before.Numbered) {sub : Subscription Watcher}
    (member : sub ∈ r.before.subscriptions) (version : Nat) :
    ((r.notices version).filter fun x => x.subscription = sub.id) = r.heardBy version sub := by
  have own : ∀ other, ((r.heardBy version other).filter fun x => x.subscription = sub.id) =
      if other.id = sub.id then r.heardBy version other else [] := by
    intro other
    rw [heardBy, List.filter_map]
    by_cases same : other.id = sub.id <;> simp [same, Function.comp_def]
  obtain ⟨front, back, split⟩ := List.append_of_mem member
  have distinct := numbered.distinct
  rw [split, List.map_append, List.map_cons, List.nodup_middle, List.nodup_cons, ← List.map_append] at distinct
  have foreign : ∀ others : List (Subscription Watcher), (∀ other ∈ others, other ∈ front ++ back) →
      (others.flatMap fun other => if other.id = sub.id then r.heardBy version other else []) = [] := by
    intro others among
    refine List.flatMap_eq_nil_iff.mpr fun other inside => if_neg fun same => ?_
    exact distinct.1 (List.mem_map.mpr ⟨other, among other inside, same⟩)
  rw [notices, List.filter_flatMap]
  simp only [own]
  rw [split, List.flatMap_append, List.flatMap_cons, if_pos rfl, foreign front, foreign back, List.nil_append,
    List.append_nil]
  · exact fun _ inside => List.mem_append_right _ inside
  · exact fun _ inside => List.mem_append_left _ inside

namespace Hub

variable {settings : Settings} {status : Status} {turns : List Turn} {h : Hub} {past : List Request}

/-- Once all deliveries are made: the versions are those of the requests that led to one, in their order; whoever had
subscribed when such a request was granted has heard, with its version, of each change that he wants to hear of, once
and in order; and nothing else has been heard. -/
theorem announced_once (ran : (ofStore (.new settings status)).run turns = h)
    (asked : (ofStore (.new settings status)).history turns = past) (drained : h.pending = []) :
    h.store = (Store.new settings status).run (past.map Request.operation) ∧
      past.filterMap Request.version? = List.range' 1 h.store.version ∧
      (∀ r ∈ past, ∀ n, r.version? = some n → ∀ sub ∈ r.before.subscriptions,
        (h.log.filter fun x => x.event.version = n ∧ x.subscription = sub.id) = r.heardBy n sub) ∧
      ∀ x ∈ h.log, ∃ r ∈ past, r.version? = some x.event.version ∧
        ∃ sub ∈ r.before.subscriptions, sub.id = x.subscription := by
  have accounted := (isAccounted_ofStore settings status).run turns
  rw [List.nil_append, asked, ran] at accounted
  have line : h.timeline = h.log := by rw [timeline, drained, List.map_nil, List.append_nil]
  refine ⟨?_, accounted.versions, fun r member n led sub subscribed => ?_, fun x heard => ?_⟩
  · rw [← ran, ← asked]
    exact run_store _ turns
  · have told := accounted.told r member n led
    rw [line] at told
    rw [← Request.filter_notices (accounted.distinct r member) subscribed, ← told, List.filter_filter]
    congr 1
    funext x
    simp [and_comm]
  · obtain ⟨r, inside, led, listed⟩ := accounted.known x (line ▸ heard)
    exact ⟨r, inside, led, (version_of_mem_notices listed).2⟩

/-- One listener panics, one leaves, one writes something else, and one deletes everything when it hears of that. -/
def meddlers : List Turn :=
  [.ask (.subscribe [.period] ⟨"panics", .panic⟩),
    .ask (.subscribe [.period] ⟨"leaves", .unsubscribe⟩),
    .ask (.subscribe [.period, .timezone] ⟨"writes", .write .timezone (some (.zone .utc))⟩),
    .ask (.subscribe [.timezone] ⟨"deletes", .delete⟩),
    .ask (.writeBatch [(.period, some (.period ⟨1, .clock .hours⟩)), (.startTime, none)])] ++
  List.replicate 8 .deliver

theorem meddlers_announced_once :
    ((ofStore (.new .empty .active)).run meddlers).pending = [] ∧
      (((ofStore (.new .empty .active)).run meddlers).log.map fun x => (x.subscription, x.event.version)) =
        [(1, 1), (2, 1), (3, 1), (3, 2), (4, 2), (1, 3), (3, 3), (4, 3)] ∧
      ((ofStore (.new .empty .active)).history meddlers).filterMap Request.version? = List.range' 1 3 ∧
      ∀ r ∈ (ofStore (.new .empty .active)).history meddlers, ∀ n, r.version? = some n →
        ∀ sub ∈ r.before.subscriptions,
          (((ofStore (.new .empty .active)).run meddlers).log.filter fun x =>
            x.event.version = n ∧ x.subscription = sub.id) = r.heardBy n sub := by
  have drained : ((ofStore (.new .empty .active)).run meddlers).pending = [] := by decide +kernel
  obtain ⟨-, versions, heard, -⟩ := announced_once rfl rfl drained
  exact ⟨drained, by decide +kernel, versions, heard⟩

end Hub

end Cadence
