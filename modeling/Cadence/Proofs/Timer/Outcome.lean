import Cadence.Proofs.Timer.Course

/-!
What an action can come to. `Handles` lists every way in which a piece of work can end, with what must have been the
case; it is the only place where a recompute is taken apart. An edit leaves a field as it is, or the timer hears of it
if it runs (`edit_get`). A recompute that finds a usable period but no next occurrence stalls: it leaves everything to a
later one.
-/

namespace Cadence

namespace Situation

def recomputing? (v : Situation) : Work → Option Bool
  | .recompute reanchor => some reanchor
  | .fire => if v.settings.nextExecution.any (v.now < ·) then none else some false
  | .lifecycle .activated => if v.phase = .running then some false else none
  | .lifecycle _ => none

/-- A step that recomputes the schedule, and with a usable period fails to find the next occurrence. -/
def Stalls [Host] (v : Situation) (a : Action) : Prop :=
  a = .work ∧ v.IsLive ∧ v.settings.hasEnded v.now = false ∧ ∃ work ∈ v.queue.head?,
    ∃ reanchor ∈ v.recomputing? work, ∃ next ∈ v.settings.next? reanchor v.now, next.isOk = false

instance [Host] (v : Situation) (a : Action) : Decidable (v.Stalls a) := inferInstanceAs (Decidable (_ ∧ _))

inductive Handles [Host] (v : Situation) : Work → Situation → Prop
  | dormant {work : Work} (asleep : ¬ v.IsLive) (stays : work ≠ .lifecycle .deactivated ∧ work ≠ .lifecycle .deleted) :
      Handles v work v
  | finished {work : Work} (live : v.IsLive) (ended : v.settings.hasEnded v.now = true) : Handles v work v.destroy
  | idle {work : Work} (live : v.IsLive) (unusable : v.settings.amount? = none) :
      Handles v work { v with armed := none }
  | stalled {work : Work} {reanchor : Bool} {e : Error} (asked : v.recomputing? work = some reanchor) (live : v.IsLive)
      (goesOn : v.settings.hasEnded v.now = false) (failed : v.settings.next? reanchor v.now = some (.error e)) :
      Handles v work (v.seed reanchor)
  | scheduled {work : Work} {reanchor : Bool} {next : Instant} (asked : v.recomputing? work = some reanchor)
      (live : v.IsLive) (found : v.settings.next? reanchor v.now = some (.ok next)) :
      Handles v work ((v.seed reanchor).schedule next)
  | early {next : Instant} (live : v.IsLive) (stored : v.settings.nextExecution = some next) (ahead : v.now < next) :
      Handles v .fire (v.arm (next.since v.now))
  | deleted : Handles v (.lifecycle .deleted) v.destroy
  | deactivated : Handles v (.lifecycle .deactivated) v.stop
  | resumed (resting : v.phase ≠ .running) : Handles v (.lifecycle .activated) v.resume

theorem handles_recompute [Host] {v : Situation} {work : Work} {reanchor : Bool}
    (asked : v.recomputing? work = some reanchor) : Handles v work (v.recompute reanchor) := by
  have stays : work ≠ .lifecycle .deactivated ∧ work ≠ .lifecycle .deleted := by
    constructor <;> (rintro rfl; cases asked)
  by_cases live : v.IsLive
  · cases ended : v.settings.hasEnded v.now with
    | true =>
      rw [recompute_of_ended reanchor live ended]
      exact .finished live ended
    | false =>
      cases found : v.settings.next? reanchor v.now with
      | none =>
        have unusable := Option.map_eq_none_iff.mp found
        rw [recompute_of_unusable reanchor live ended unusable]
        exact .idle live unusable
      | some result =>
        cases result with
        | error e =>
          rw [recompute_of_failed live ended found]
          exact .stalled asked live ended found
        | ok next =>
          rw [recompute_of_found live ended found]
          exact .scheduled asked live found
  · rw [recompute, if_neg live]
    exact .dormant live stays

theorem handles [Host] (v : Situation) (work : Work) : Handles v work (v.handle work) := by
  cases work with
  | recompute reanchor => exact handles_recompute rfl
  | fire =>
    change Handles v .fire v.fire
    by_cases early : v.settings.nextExecution.any (v.now < ·) = true
    · by_cases live : v.IsLive
      · obtain ⟨next, stored, ahead⟩ := (Option.any_eq_true _ _).mp early
        rw [fire_of_early live stored (of_decide_eq_true ahead)]
        exact .early live stored (of_decide_eq_true ahead)
      · rw [fire, if_neg live]
        exact .dormant live (by simp)
    · have due : v.settings.nextExecution.any (v.now < ·) = false := by simpa using early
      rw [fire_of_due due]
      exact handles_recompute (if_neg early)
  | lifecycle event =>
    cases event with
    | deleted => exact .deleted
    | deactivated => exact .deactivated
    | activated =>
      change Handles v _ (if v.phase = .running then v.recompute false else v.resume)
      by_cases running : v.phase = .running
      · rw [if_pos running]
        exact handles_recompute (if_pos running)
      · rw [if_neg running]
        exact .resumed running

/-- To show what holds after the next piece of work, it is enough to look at what a handling can end in. -/
theorem workNext_of_handles [Host] {P : Situation → Prop} {v : Situation} (idle : P v)
    (step : ∀ work rest w, v.queue = work :: rest → Handles { v with queue := rest } work w → P w) : P v.workNext := by
  cases queued : v.queue with
  | nil =>
    rw [workNext_nil queued]
    exact idle
  | cons work rest =>
    rw [workNext_cons queued]
    exact step work rest _ queued (handles _ work)

theorem phase_of_handles [Host] {v w : Situation} {work : Work} (handled : Handles v work w)
    (gone : v.phase = .destroyed) : w.phase = .destroyed := by
  have asleep := not_isLive_of_destroyed gone
  cases handled with
  | dormant _ _ => exact gone
  | finished live _ | idle live _ | stalled _ live _ _ | scheduled _ live _ | early live _ _ => exact absurd live asleep
  | deleted => simp
  | deactivated => rw [stop_of_destroyed gone, gone]
  | resumed _ => rw [resume_of_destroyed gone, gone]

theorem stalls_of_failed [Host] {v : Situation} {work : Work} {rest : List Work} {reanchor : Bool} {e : Error}
    (queued : v.queue = work :: rest) (asked : v.recomputing? work = some reanchor) (live : v.IsLive)
    (goesOn : v.settings.hasEnded v.now = false) (failed : v.settings.next? reanchor v.now = some (.error e)) :
    v.Stalls .work :=
  ⟨rfl, live, goesOn, work, by rw [queued]; rfl, reanchor, asked, _, failed, rfl⟩

theorem usable_of_next? [Host] {settings : Settings} {reanchor : Bool} {now : Instant} {result : Except Error Instant}
    (found : settings.next? reanchor now = some result) : settings.amount? ≠ none := by
  intro unusable
  rw [Settings.next?, unusable] at found
  cases found

theorem after_of_next? [Host] {settings : Settings} {reanchor : Bool} {now next : Instant}
    (found : settings.next? reanchor now = some (.ok next)) : now < next := by
  obtain ⟨amount, _, advanced⟩ := Option.map_eq_some_iff.mp found
  exact Amount.advancePast_after advanced

theorem edit_cases (v : Situation) (entries : List (Field × Option FieldValue)) :
    v.edit entries = v ∨ ∃ settings changed, Store.putAll v.settings entries = .ok (settings, changed) ∧
      v.status ≠ .deleted ∧ (v.phase ≠ .destroyed → .nextExecution ∉ entries.map Prod.fst) ∧
      v.edit entries = { v with settings := settings, queue := v.queue ++ v.hears changed } := by
  by_cases refused : v.status = .deleted ∨ v.phase ≠ .destroyed ∧ .nextExecution ∈ entries.map Prod.fst
  · exact Or.inl (edit_of_refused refused)
  cases put : Store.putAll v.settings entries with
  | error e => exact Or.inl (edit_of_failed put)
  | ok result =>
    have present : v.status ≠ .deleted := fun deleted => refused (Or.inl deleted)
    have free : v.phase ≠ .destroyed → .nextExecution ∉ entries.map Prod.fst :=
      fun going member => refused (Or.inr ⟨going, member⟩)
    exact Or.inr ⟨result.1, result.2, rfl, present, free, edit_of_put put refused⟩

/-- An edit of one field either changes it, and the timer may hear of that, or does nothing. -/
theorem edit_one (v : Situation) (f : Field) (value : Option FieldValue) :
    v.edit [(f, value)] = v ∨ ∃ settings, v.settings.put f value = .ok settings ∧ v.settings.get f ≠ value ∧
      v.edit [(f, value)] = { v with settings := settings, queue := v.queue ++ v.hears [f] } := by
  obtain same | ⟨settings, changed, put, _, _, edited⟩ := v.edit_cases [(f, value)]
  · exact Or.inl same
  obtain ⟨next, rest, written, after, listed⟩ := Store.putAll_cons put
  cases after
  by_cases same : v.settings.get f = value
  · rw [if_pos same] at listed
    have silent : v.hears [] = [] := by simp [hears]
    rw [edited, listed, Settings.put_of_get_eq written same, silent, List.append_nil]
    exact Or.inl rfl
  · rw [if_neg same] at listed
    rw [listed] at edited
    exact Or.inr ⟨settings, written, same, edited⟩

@[simp] theorem edit_frame (v : Situation) (entries : List (Field × Option FieldValue)) :
    (v.edit entries).status = v.status ∧ (v.edit entries).now = v.now ∧ (v.edit entries).phase = v.phase ∧
      (v.edit entries).armed = v.armed ∧ (v.edit entries).listeners = v.listeners ∧
      (v.edit entries).nextListener = v.nextListener := by
  obtain same | ⟨settings, changed, _, _, _, edited⟩ := v.edit_cases entries
  · rw [same]
    exact ⟨rfl, rfl, rfl, rfl, rfl, rfl⟩
  · rw [edited]
    exact ⟨rfl, rfl, rfl, rfl, rfl, rfl⟩

theorem edit_queue (v : Situation) (entries : List (Field × Option FieldValue)) :
    ∃ works, (v.edit entries).queue = v.queue ++ works ∧ ∀ work ∈ works, ∃ reanchor, work = .recompute reanchor := by
  obtain same | ⟨settings, changed, _, _, _, edited⟩ := v.edit_cases entries
  · rw [same]
    exact ⟨[], (List.append_nil _).symm, fun _ member => absurd member List.not_mem_nil⟩
  · rw [edited]
    refine ⟨v.hears changed, rfl, ?_⟩
    intro work member
    rw [hears] at member
    by_cases running : v.phase = .running
    · rw [if_pos running] at member
      obtain ⟨f, _, routed⟩ := List.mem_filterMap.mp member
      cases f <;> exact ⟨_, (Option.some.inj routed).symm⟩
    · rw [if_neg running] at member
      cases member

theorem edit_get (v : Situation) (entries : List (Field × Option FieldValue)) (running : v.phase = .running) {f : Field}
    (watched : f ∈ Timer.watchedFields) {work : Work} (routed : Timer.route .values (.value f) = some work) :
    (v.edit entries).settings.get f = v.settings.get f ∨ work ∈ (v.edit entries).queue := by
  obtain same | ⟨settings, changed, put, _, _, edited⟩ := v.edit_cases entries
  · exact Or.inl (by rw [same])
  rw [edited]
  obtain kept | listed := Store.putAll_get put f
  · exact Or.inl kept
  · have heard : work ∈ v.hears changed := by
      rw [hears, if_pos running]
      exact List.mem_filterMap.mpr ⟨f, List.mem_filter.mpr ⟨listed, decide_eq_true watched⟩, routed⟩
    exact Or.inr (List.mem_append_right _ heard)

theorem edit_nextExecution (v : Situation) (entries : List (Field × Option FieldValue)) (going : v.phase ≠ .destroyed) :
    (v.edit entries).settings.nextExecution = v.settings.nextExecution := by
  obtain same | ⟨settings, changed, put, _, free, edited⟩ := v.edit_cases entries
  · rw [same]
  rw [edited]
  obtain kept | listed := Store.putAll_get put .nextExecution
  · exact Option.map_injective (fun _ _ e => FieldValue.instant.inj e) kept
  · exact absurd (Store.mem_of_putAll put listed) (free going)

section Heard

variable (v : Situation) (entries : List (Field × Option FieldValue))

theorem isLive_edit_iff : (v.edit entries).IsLive ↔ v.IsLive := by
  obtain ⟨status, _, phase, _⟩ := v.edit_frame entries
  rw [IsLive, IsLive, status, phase]

theorem edit_period (running : v.phase = .running) :
    (v.edit entries).settings.period = v.settings.period ∨ .recompute true ∈ (v.edit entries).queue :=
  (v.edit_get entries running (f := .period) (by decide) rfl).imp
    (fun same => Option.map_injective (fun _ _ e => FieldValue.period.inj e) same) id

theorem edit_startTime (running : v.phase = .running) :
    (v.edit entries).settings.startTime = v.settings.startTime ∨ .recompute true ∈ (v.edit entries).queue :=
  (v.edit_get entries running (f := .startTime) (by decide) rfl).imp
    (fun same => Option.map_injective (fun _ _ e => FieldValue.instant.inj e) same) id

theorem edit_amount? (running : v.phase = .running) :
    (v.edit entries).settings.amount? = v.settings.amount? ∨ .recompute true ∈ (v.edit entries).queue := by
  refine (v.edit_period entries running).imp (fun same => ?_) id
  rw [Settings.amount?, Settings.amount?, same]

end Heard

end Situation

end Cadence
