import Cadence.Proofs.Store.Announcement

/-!
The order in which a subscription hears of events. What a listener changes is announced before the deliveries that are
waiting already are made, also to a subscription that one of these is for: it hears of the new events first. A
subscription hears of versions in their order, and of the deletion last, exactly if nothing overtakes like that
(`received_inOrder_iff`). Two listeners are enough for it to happen (`deletion_overtakes`).
-/

namespace Cadence

namespace Hub

def received (h : Hub) (id : Nat) : List Event := (h.log.filter fun x => x.subscription = id).map Notice.event

/-- What a subscription has heard, and after that what it will hear if nothing else is announced. -/
def expected (h : Hub) (id : Nat) : List Event := (h.timeline.filter fun x => x.subscription = id).map Notice.event

def news (h : Hub) (turn : Turn) (id : Nat) : List Event :=
  (((h.announced turn).map Notice.of).filter fun x => x.subscription = id).map Notice.event

/-- What a turn announces to a subscription for which older deliveries are waiting. -/
def overtaking (h : Hub) (turn : Turn) (id : Nat) : List Event :=
  if (h.waiting turn).filter (fun d => d.1.id = id) = [] then [] else h.news turn id

def Along (condition : Hub → Turn → Prop) : Hub → List Turn → Prop
  | _, [] => True
  | h, turn :: turns => condition h turn ∧ Along condition (h.take turn) turns

instance decidableAlong (condition : Hub → Turn → Prop) [∀ h turn, Decidable (condition h turn)] :
    (h : Hub) → (turns : List Turn) → Decidable (Along condition h turns)
  | _, [] => .isTrue trivial
  | h, turn :: turns =>
    have := decidableAlong condition (h.take turn) turns
    inferInstanceAs (Decidable (_ ∧ _))

variable {h : Hub} {turn : Turn} {id : Nat} {e : Event}

/-- News come between what a subscription has heard and what is waiting for it, and overtake that if there is any. -/
theorem expected_take (h : Hub) (turn : Turn) (id : Nat) :
    ∃ front back, h.expected id = front ++ back ∧ (h.take turn).expected id = front ++ (h.news turn id ++ back) ∧
      h.overtaking turn id = if back = [] then [] else h.news turn id := by
  refine ⟨((h.log ++ (h.heard turn).map Notice.of).filter fun x => x.subscription = id).map Notice.event,
    (((h.waiting turn).map Notice.of).filter fun x => x.subscription = id).map Notice.event, ?_, ?_, ?_⟩
  · rw [expected, h.timeline_eq turn, List.filter_append, List.map_append]
  · rw [expected, timeline_take, List.filter_append, List.filter_append ((h.announced turn).map Notice.of),
      List.map_append, List.map_append]
    rfl
  · simp only [overtaking, List.filter_map, List.map_eq_nil_iff]
    rfl

theorem mem_expected_take : e ∈ (h.take turn).expected id ↔ e ∈ h.expected id ∨ e ∈ h.news turn id := by
  obtain ⟨front, back, before, after, -⟩ := h.expected_take turn id
  rw [before, after]
  simp only [List.mem_append]
  grind

/-- A relation between events that a turn can break only by what overtakes: it holds among the news and from everything
older to them, and the other way round for those news that satisfy a condition. -/
structure Extends (R : Event → Event → Prop) (condition : Event → Prop) (h : Hub) (turn : Turn) (id : Nat) : Prop where
  inner : (h.news turn id).Pairwise R
  older : ∀ a ∈ h.expected id, ∀ b ∈ h.news turn id, R a b
  newer : ∀ a ∈ h.news turn id, ∀ b ∈ h.expected id, R a b ↔ condition a

theorem Extends.pairwise_take {R : Event → Event → Prop} {condition : Event → Prop}
    (x : Extends R condition h turn id) :
    ((h.take turn).expected id).Pairwise R ↔
      (h.expected id).Pairwise R ∧ ∀ e ∈ h.overtaking turn id, condition e := by
  obtain ⟨front, back, before, after, overtakes⟩ := h.expected_take turn id
  have older := x.older
  have newer := x.newer
  rw [before] at older newer
  -- All that waits is older than the news, so that one event of it decides for the rest.
  have crossing : (∀ a ∈ h.news turn id, ∀ b ∈ back, R a b) ↔ ∀ e ∈ h.overtaking turn id, condition e := by
    rw [overtakes]
    cases back with
    | nil => simp
    | cons b back =>
      rw [if_neg (List.cons_ne_nil b back)]
      constructor
      · exact fun all e new => (newer e new b (by simp)).mp (all e new b (by simp))
      · exact fun all a new c waits => (newer a new c (List.mem_append_right _ waits)).mpr (all a new)
  have first : ∀ a ∈ front, ∀ b ∈ h.news turn id, R a b := fun a inside => older a (List.mem_append_left _ inside)
  rw [after, before, ← crossing, List.pairwise_append, List.pairwise_append, List.pairwise_append]
  constructor
  · rintro ⟨heard, ⟨-, waits, overtaken⟩, ordered⟩
    exact ⟨⟨heard, waits, fun a inside b member => ordered a inside b (List.mem_append_right _ member)⟩, overtaken⟩
  · rintro ⟨⟨heard, waits, ordered⟩, overtaken⟩
    refine ⟨heard, ⟨x.inner, waits, overtaken⟩, fun a inside b member => ?_⟩
    exact (List.mem_append.mp member).elim (first a inside b) (ordered a inside b)

/-- The deletion was announced when everything was deleted, and every version when it was new. -/
structure IsDated (h : Hub) : Prop where
  accounted : ∃ past, IsAccounted past h
  final : ∀ id, ∀ e ∈ h.expected id, e.change = .lifecycle .deleted → h.store.status = .deleted

theorem isDated_ofStore (settings : Settings) (status : Status) : IsDated (ofStore (.new settings status)) where
  accounted := ⟨[], isAccounted_ofStore settings status⟩
  final _ _ member := absurd member List.not_mem_nil

theorem IsDated.numbered (d : IsDated h) : h.store.Numbered := by
  obtain ⟨past, a⟩ := d.accounted
  exact a.numbered

theorem IsDated.older (d : IsDated h) (member : e ∈ h.expected id) : e.version ≤ h.store.version := by
  obtain ⟨past, a⟩ := d.accounted
  obtain ⟨x, listed, rfl⟩ := List.mem_map.mp member
  exact a.timeline_le (List.mem_filter.mp listed).1

theorem news_of_silent (silent : h.announced turn = []) : h.news turn id = [] := by
  rw [news, silent]
  rfl

theorem news_cases (numbered : h.store.Numbered) (turn : Turn) (id : Nat) :
    h.news turn id = [] ∨ ∃ op events, ∃ sub : Subscription Watcher, events ≠ [] ∧
      Store.Does h.store op (h.take turn).store events ∧
      h.news turn id = ((h.store.changes op).filter sub.wants).map fun c => ⟨c, h.store.version + 1⟩ := by
  cases asked : h.request? turn with
  | none => exact Or.inl (news_of_silent (take_store_of_idle asked).2)
  | some r =>
    obtain ⟨before, store, announced⟩ := take_store_of_asked asked
    obtain ⟨-, -, silent⟩ | ⟨-, -, loud, done⟩ := r.version_cases
    · rw [before] at silent
      exact Or.inl (news_of_silent (by rw [announced, silent, Store.deliveries_nil]))
    · have notices := announced_of_asked asked loud done
      by_cases subscribed : ∃ sub ∈ r.before.subscriptions, sub.id = id
      · obtain ⟨sub, member, rfl⟩ := subscribed
        refine Or.inr ⟨r.operation, _, sub, loud, by rw [store, ← before]; exact done, ?_⟩
        rw [news, notices, Request.filter_notices (before ▸ numbered) member, Request.heardBy, List.map_map, before]
        rfl
      · refine Or.inl ?_
        rw [news, notices, List.map_eq_nil_iff, List.filter_eq_nil_iff]
        intro x listed
        obtain ⟨sub, member, same⟩ := (version_of_mem_notices listed).2
        exact fun mine => subscribed ⟨sub, member, same.trans (of_decide_eq_true mine)⟩

theorem news_spec (numbered : h.store.Numbered) (member : e ∈ h.news turn id) :
    e.version = h.store.version + 1 ∧ h.store.status ≠ .deleted ∧
      (e.change = .lifecycle .deleted → (h.take turn).store.status = .deleted) := by
  obtain none | ⟨op, events, sub, loud, done, same⟩ := news_cases numbered turn id
  · rw [none] at member
    cases member
  · rw [same] at member
    obtain ⟨c, listed, rfl⟩ := List.mem_map.mp member
    obtain ⟨present, gone⟩ := done.status loud
    refine ⟨rfl, present, fun deletion => gone ?_⟩
    rw [← deletion]
    exact (List.mem_filter.mp listed).1

theorem deleted_take (gone : h.store.status = .deleted) (turn : Turn) : (h.take turn).store.status = .deleted := by
  cases asked : h.request? turn with
  | none =>
    rw [(take_store_of_idle asked).1]
    exact gone
  | some r =>
    rw [(take_store_of_asked asked).2.1]
    obtain ⟨_, same⟩ | ⟨_, done⟩ := h.store.after_cases r.operation
    · rw [same]
      exact gone
    · exact done.deleted gone

namespace IsDated

theorem take (d : IsDated h) (turn : Turn) : IsDated (h.take turn) where
  accounted := by
    obtain ⟨past, a⟩ := d.accounted
    exact ⟨_, a.take turn⟩
  final id e member deletion := by
    obtain old | new := mem_expected_take.mp member
    · exact deleted_take (d.final id e old deletion) turn
    · exact (news_spec d.numbered new).2.2 deletion

theorem extends_version (d : IsDated h) (turn : Turn) (id : Nat) :
    Extends (fun a b => a.version ≤ b.version) (fun _ => False) h turn id where
  inner := by
    refine List.pairwise_of_forall_mem_list fun a first b second => ?_
    exact Nat.le_of_eq ((news_spec d.numbered first).1.trans (news_spec d.numbered second).1.symm)
  older a old b new := by
    have bound := d.older old
    have version := (news_spec d.numbered new).1
    omega
  newer a new b old := by
    have bound := d.older old
    have version := (news_spec d.numbered new).1
    simp only [iff_false, Nat.not_le]
    omega

theorem extends_deletion (d : IsDated h) (turn : Turn) (id : Nat) :
    Extends (fun a _ => a.change ≠ .lifecycle .deleted) (fun a => a.change ≠ .lifecycle .deleted) h turn id where
  inner := by
    obtain none | ⟨op, events, sub, -, -, same⟩ := news_cases d.numbered turn id
    · rw [none]
      exact List.Pairwise.nil
    · rw [same, List.pairwise_map]
      exact (h.store.changes_pairwise op).filter _
  older a old b new deletion := (news_spec d.numbered new).2.1 (d.final id a old deletion)
  newer _ _ _ _ := Iff.rfl

end IsDated

theorem pairwise_run {R : Event → Event → Prop} {condition : Event → Prop} {id : Nat}
    (extend : ∀ {g : Hub}, IsDated g → ∀ turn, Extends R condition g turn id) (d : IsDated h) (turns : List Turn) :
    ((h.run turns).expected id).Pairwise R ↔
      (h.expected id).Pairwise R ∧ h.Along (fun g turn => ∀ e ∈ g.overtaking turn id, condition e) turns := by
  induction turns generalizing h with
  | nil => exact (iff_of_eq (and_true _)).symm
  | cons turn turns ih =>
    rw [Along, ← and_assoc, ← (extend d turn).pairwise_take]
    exact ih (d.take turn)

variable {settings : Settings} {status : Status} {turns : List Turn}

/-- Once all deliveries are made, a subscription has heard of versions in their order exactly if nothing has overtaken
what was waiting for it, and of nothing after the deletion exactly if the deletion has not. -/
theorem received_inOrder_iff (ran : (ofStore (.new settings status)).run turns = h) (drained : h.pending = [])
    (id : Nat) :
    ((h.received id).Pairwise (fun a b => a.version ≤ b.version) ↔
        (ofStore (.new settings status)).Along (fun g turn => g.overtaking turn id = []) turns) ∧
      ((h.received id).Pairwise (fun a _ => a.change ≠ .lifecycle .deleted) ↔
        (ofStore (.new settings status)).Along
          (fun g turn => ∀ e ∈ g.overtaking turn id, e.change ≠ .lifecycle .deleted) turns) := by
  have all : h.received id = h.expected id := by
    rw [received, expected, timeline, drained, List.map_nil, List.append_nil]
  have nothing : (fun (g : Hub) turn => g.overtaking turn id = []) = fun g turn =>
      ∀ e ∈ g.overtaking turn id, False := by
    funext g turn
    exact propext List.eq_nil_iff_forall_not_mem
  have dated := isDated_ofStore settings status
  have versions := pairwise_run (fun d turn => d.extends_version turn id) dated turns
  have deletions := pairwise_run (fun d turn => d.extends_deletion turn id) dated turns
  rw [all, nothing, ← ran]
  exact ⟨versions.trans (and_iff_right List.Pairwise.nil), deletions.trans (and_iff_right List.Pairwise.nil)⟩

theorem meddlers_inOrder :
    ((ofStore (.new .empty .active)).run meddlers).pending = [] ∧
      ∀ id ∈ [1, 2, 3, 4],
        (((ofStore (.new .empty .active)).run meddlers).received id).Pairwise (fun a b => a.version ≤ b.version) ∧
        (((ofStore (.new .empty .active)).run meddlers).received id).Pairwise
          (fun a _ => a.change ≠ .lifecycle .deleted) := by
  have drained : ((ofStore (.new .empty .active)).run meddlers).pending = [] := by decide +kernel
  have behind : ∀ id ∈ [1, 2, 3, 4],
      (ofStore (.new .empty .active)).Along (fun g turn => g.overtaking turn id = []) meddlers ∧
      (ofStore (.new .empty .active)).Along
        (fun g turn => ∀ e ∈ g.overtaking turn id, e.change ≠ .lifecycle .deleted) meddlers := by decide +kernel
  refine ⟨drained, fun id member => ?_⟩
  obtain ⟨versions, deletion⟩ := received_inOrder_iff rfl drained id
  exact ⟨versions.mpr (behind id member).1, deletion.mpr (behind id member).2⟩

/-- The first listener deletes everything before the second has heard of the change. -/
def hasty : List Turn :=
  [.ask (.subscribe [.period] ⟨"deletes", .delete⟩),
    .ask (.subscribe [.period] ⟨"listens", .record⟩),
    .ask (.write none .period (some (.period ⟨1, .clock .hours⟩)))] ++
  List.replicate 4 .deliver

theorem deletion_overtakes :
    ((ofStore (.new .empty .inactive)).run hasty).pending = [] ∧
      ((ofStore (.new .empty .inactive)).run hasty).received 2 = [⟨.lifecycle .deleted, 2⟩, ⟨.value .period, 1⟩] ∧
      ¬ (((ofStore (.new .empty .inactive)).run hasty).received 2).Pairwise (fun a b => a.version ≤ b.version) ∧
      ¬ (((ofStore (.new .empty .inactive)).run hasty).received 2).Pairwise
        (fun a _ => a.change ≠ .lifecycle .deleted) := by
  decide +kernel

end Hub

end Cadence
