import Cadence.Proofs.Store.Operation

/-!
Leases over a whole run. Tokens are handed out once (`Issued`, `grants_increase`). From the reservation of a field
until its lease is given back or the configuration is deleted, nobody else gets at the field; afterwards the lease is
of no use any more (`lease_isExclusive`). Leases that were made up, or that are for another field or of another time,
are leases like any others here: they are not the one that is held.
-/

namespace Cadence

namespace Store

variable {κ : Type} {s t : Store κ} {op : Operation κ} {events : List Event} {f : Field} {l : Lease}

/-- Every lease that is held has been handed out, no field is under two, and nothing is held of what is deleted. -/
structure Issued (s : Store κ) : Prop where
  older : ∀ l ∈ s.leases, l.token < s.nextToken
  distinct : ∀ a ∈ s.leases, ∀ b ∈ s.leases, a.field = b.field → a = b
  cleared : s.status = .deleted → s.leases = []

/-- The lease was handed out, and is not held any more. -/
structure Retired (l : Lease) (s : Store κ) : Prop where
  older : l.token < s.nextToken
  unheld : l ∉ s.leases

/-- As long as the lease is held, its field is left to its holder. -/
structure IsGuarded (s : Store κ) (l : Lease) : Prop where
  reserve : ∃ e, s.reserve l.field = .error e
  write : ∀ shown v, shown ≠ some l → ∃ e, s.write shown l.field v = .error e
  writeBatch : ∀ entries : List (Field × Option FieldValue), l.field ∈ entries.map Prod.fst →
    ∃ e, s.writeBatch entries = .error e
  value : ∀ op : Operation κ, (s.after op).1.settings.get l.field ≠ s.settings.get l.field →
    op = .delete ∨ ∃ v next, op = .write (some l) l.field v ∧ s.write (some l) l.field v = .ok next

/-- The lease opens nothing, and giving it back changes nothing. -/
structure IsVoid (s : Store κ) (l : Lease) : Prop where
  write : ∀ f v, ∃ e, s.write (some l) f v = .error e
  release : s.release l = s

def granted? (s : Store κ) : Operation κ → Option Lease
  | .reserve f => (s.reserve f).toOption.map Prod.snd
  | _ => none

def grants : Store κ → List (Operation κ) → List Lease
  | _, [] => []
  | s, op :: ops => (s.granted? op).toList ++ grants (s.after op).1 ops

theorem issued_new (settings : Settings) (status : Status) : Issued (new settings status : Store κ) :=
  ⟨fun _ held => absurd held List.not_mem_nil, fun _ held => absurd held List.not_mem_nil, fun _ => rfl⟩

theorem mem_of_leaseOf? (h : s.leaseOf? f = some l) : l ∈ s.leases ∧ l.field = f :=
  ⟨List.mem_of_find?_eq_some h, by simpa using List.find?_some h⟩

theorem leaseOf?_eq_none : s.leaseOf? f = none ↔ ∀ l ∈ s.leases, l.field ≠ f := by
  simp [leaseOf?, List.find?_eq_none]

theorem Does.nextToken (h : Does s op t events) : s.nextToken ≤ t.nextToken := by
  cases h with
  | reserve _ _ => exact Nat.le_succ _
  | _ => exact Nat.le_refl _

theorem Does.mem_leases (h : Does s op t events) (held : l ∈ t.leases) :
    l ∈ s.leases ∨ l.token = s.nextToken ∧ t.nextToken = s.nextToken + 1 := by
  cases h with
  | reserve _ _ =>
    obtain rfl | before := List.mem_cons.mp held
    · exact Or.inr ⟨rfl, rfl⟩
    · exact Or.inl before
  | release l => exact Or.inl (List.mem_filter.mp held).1
  | delete _ => exact absurd held List.not_mem_nil
  | nothing _ | write _ _ _ _ | writeBatch _ _ _ _ | subscribe _ _ | unsubscribe _ | activate _ | deactivate _ =>
    exact Or.inl held

theorem Does.mem_leases_of_kept (h : Does s op t events) (held : l ∈ s.leases) (kept : op ≠ .release l)
    (present : op ≠ .delete) : l ∈ t.leases := by
  cases h with
  | reserve _ _ => exact List.mem_cons_of_mem _ held
  | release given =>
    have other : l ≠ given := by
      rintro rfl
      exact kept rfl
    exact List.mem_filter.mpr ⟨held, decide_eq_true other⟩
  | delete _ => exact absurd rfl present
  | nothing _ | write _ _ _ _ | writeBatch _ _ _ _ | subscribe _ _ | unsubscribe _ | activate _ | deactivate _ =>
    exact held

namespace Issued

theorem does (h : Issued s) (done : Does s op t events) : Issued t where
  older l held := by
    obtain before | ⟨token, next⟩ := done.mem_leases held
    · exact Nat.lt_of_lt_of_le (h.older l before) done.nextToken
    · omega
  distinct a first b second field := by
    cases done with
    | reserve _ free =>
      have unleased := leaseOf?_eq_none.mp free
      obtain rfl | first := List.mem_cons.mp first <;> obtain rfl | second := List.mem_cons.mp second
      · rfl
      · exact absurd field.symm (unleased b second)
      · exact absurd field (unleased a first)
      · exact h.distinct a first b second field
    | release l => exact h.distinct a (List.mem_filter.mp first).1 b (List.mem_filter.mp second).1 field
    | delete _ => exact absurd first List.not_mem_nil
    | nothing _ | write _ _ _ _ | writeBatch _ _ _ _ | subscribe _ _ | unsubscribe _ | activate _ | deactivate _ =>
      exact h.distinct a first b second field
  cleared deleted := by
    cases done with
    | reserve present _ => exact absurd deleted present
    | activate _ | deactivate _ => cases deleted
    | delete _ => rfl
    | release l =>
      have none : s.leases = [] := h.cleared deleted
      rw [release, none, List.filter_nil]
    | nothing _ | write _ _ _ _ | writeBatch _ _ _ _ | subscribe _ _ | unsubscribe _ => exact h.cleared deleted

theorem after (h : Issued s) (op : Operation κ) : Issued (s.after op).1 := by
  obtain ⟨_, same⟩ | ⟨_, done⟩ := s.after_cases op
  · rw [same]
    exact h
  · exact h.does done

theorem run (h : Issued s) (ops : List (Operation κ)) : Issued (s.run ops) := by
  induction ops generalizing s with
  | nil => exact h
  | cons op ops ih => exact ih (h.after op)

theorem leaseOf?_of_mem (h : Issued s) (held : l ∈ s.leases) : s.leaseOf? l.field = some l := by
  cases found : s.leaseOf? l.field with
  | none => exact absurd rfl (leaseOf?_eq_none.mp found l held)
  | some other =>
    obtain ⟨member, field⟩ := mem_of_leaseOf? found
    rw [h.distinct other member l held field]

theorem leaseOf?_release (h : Issued s) (held : s.leaseOf? f = some l) : (s.release l).leaseOf? f = none := by
  refine leaseOf?_eq_none.mpr fun other member same => ?_
  obtain ⟨before, differs⟩ := List.mem_filter.mp member
  have found := h.leaseOf?_of_mem before
  rw [same, held] at found
  exact of_decide_eq_true differs (Option.some.inj found).symm

end Issued

theorem leaseOf?_release_other (other : s.leaseOf? f ≠ some l) : (s.release l).leaseOf? f = s.leaseOf? f := by
  have kept : ∀ leases : List Lease, leases.find? (fun held => held.field == f) ≠ some l →
      (leases.filter fun held => held ≠ l).find? (fun held => held.field == f) =
        leases.find? fun held => held.field == f := by
    intro leases other
    induction leases with
    | nil => rfl
    | cons first leases ih =>
      by_cases mine : first.field = f
      · have differs : first ≠ l := by
          rintro rfl
          exact other (by simp [mine])
        simp [mine, differs]
      · have later := ih (by simpa [mine] using other)
        rw [List.filter_cons, List.find?_cons_of_neg (by simpa using mine), ← later]
        split
        · exact List.find?_cons_of_neg (by simpa using mine)
        · rfl
  exact kept s.leases other

theorem Does.leaseOf? (done : Does s op t events) (unreserved : op ≠ .reserve f)
    (unreleased : ∀ l, s.leaseOf? f = some l → op ≠ .release l) (present : t.status ≠ .deleted) :
    s.status ≠ .deleted ∧ t.leaseOf? f = s.leaseOf? f := by
  cases done with
  | @reserve g _ _ =>
    refine ⟨present, List.find?_cons_of_neg ?_⟩
    simpa using fun same : g = f => unreserved (by rw [same])
  | release l =>
    exact ⟨present, leaseOf?_release_other fun held => unreleased l held rfl⟩
  | activate resting => exact ⟨by rw [resting]; decide, rfl⟩
  | deactivate active => exact ⟨by rw [active]; decide, rfl⟩
  | delete _ => exact absurd rfl present
  | nothing _ | write _ _ _ _ | writeBatch _ _ _ _ | subscribe _ _ | unsubscribe _ => exact ⟨present, rfl⟩

theorem mem_leases_run {ops : List (Operation κ)} (held : l ∈ s.leases)
    (kept : ∀ op ∈ ops, op ≠ .release l ∧ op ≠ .delete) : l ∈ (s.run ops).leases := by
  induction ops generalizing s with
  | nil => exact held
  | cons op ops ih =>
    obtain ⟨⟨unreleased, present⟩, rest⟩ := List.forall_mem_cons.mp kept
    have still : l ∈ (s.after op).1.leases := by
      obtain ⟨_, same⟩ | ⟨_, done⟩ := s.after_cases op
      · rw [same]
        exact held
      · exact done.mem_leases_of_kept held unreleased present
    exact ih still rest

theorem checkLease_of_leased (held : s.leaseOf? f = some l) {shown : Option Lease} (other : shown ≠ some l) :
    ∃ e, s.checkLease shown f = .error e := by
  cases shown with
  | none => exact ⟨.fieldReserved f.name, by simp [checkLease, held]⟩
  | some shown =>
    have differs : shown ≠ l := fun same => other (by rw [same])
    exact ⟨.invalidLease f.name, by simp [checkLease, held, differs]⟩

theorem write_of_refused {shown : Option Lease} (refused : ∃ e, s.checkLease shown f = .error e)
    (v : Option FieldValue) : ∃ e, s.write shown f v = .error e := by
  obtain ⟨e, refused⟩ := refused
  simp only [Store.write, refused, bind, Except.bind]
  cases s.settings.put f v with
  | error e => exact ⟨e, rfl⟩
  | ok settings =>
    by_cases deleted : s.status = .deleted
    · exact ⟨_, if_pos deleted⟩
    · exact ⟨e, if_neg deleted⟩

theorem writeBatch_of_leased (held : s.leaseOf? f = some l) {entries : List (Field × Option FieldValue)}
    (touched : f ∈ entries.map Prod.fst) : ∃ e, s.writeBatch entries = .error e := by
  obtain ⟨e, inside, rfl⟩ := List.mem_map.mp touched
  simp only [Store.writeBatch, bind, Except.bind]
  cases putAll s.settings entries with
  | error e => exact ⟨e, rfl⟩
  | ok result =>
    by_cases deleted : s.status = .deleted
    · exact ⟨_, if_pos deleted⟩
    cases allowed : entries.forM fun e => s.checkLease none e.1 with
    | error e => exact ⟨e, if_neg deleted⟩
    | ok _ =>
      have free := (forM_checkLease_none s entries).mp allowed e inside
      rw [held] at free
      cases free

theorem Does.write_of_leased (h : Does s op t events) (held : s.leaseOf? f = some l)
    (changed : t.settings.get f ≠ s.settings.get f) : op = .delete ∨ ∃ v, op = .write (some l) f v := by
  cases h with
  | @write shown g v settings put _ allowed _ =>
    have same : f = g := Decidable.byContradiction fun other => changed (Settings.get_put_other put other)
    subst same
    refine Or.inr ⟨v, ?_⟩
    by_cases shows : shown = some l
    · rw [shows]
    · obtain ⟨e, refused⟩ := checkLease_of_leased held shows
      rw [refused] at allowed
      cases allowed
  | writeBatch put _ free _ =>
    obtain kept | listed := putAll_get put f
    · exact absurd kept changed
    · obtain ⟨e, inside, rfl⟩ := List.mem_map.mp (mem_of_putAll put listed)
      rw [free e inside] at held
      cases held
  | delete _ => exact Or.inl rfl
  | nothing _ | reserve _ _ | release _ | subscribe _ _ | unsubscribe _ | activate _ | deactivate _ =>
    exact absurd rfl changed

theorem Issued.isGuarded (h : Issued s) (held : l ∈ s.leases) : s.IsGuarded l := by
  have found := h.leaseOf?_of_mem held
  refine ⟨?_, fun shown v other => write_of_refused (checkLease_of_leased found other) v,
    fun _ touched => writeBatch_of_leased found touched, fun op changed => ?_⟩
  · by_cases deleted : s.status = .deleted
    · exact ⟨_, if_pos deleted⟩
    · exact ⟨.fieldReserved l.field.name, by simp [Store.reserve, deleted, found]⟩
  · obtain ⟨_, same⟩ | ⟨performed, done⟩ := s.after_cases op
    · rw [same] at changed
      exact absurd rfl changed
    · obtain deletion | ⟨v, rfl⟩ := done.write_of_leased found changed
      · exact Or.inl deletion
      · exact Or.inr ⟨v, _, rfl, performed⟩

namespace Retired

theorem after (h : Retired l s) (op : Operation κ) : Retired l (s.after op).1 := by
  obtain ⟨_, same⟩ | ⟨_, done⟩ := s.after_cases op
  · rw [same]
    exact h
  · refine ⟨Nat.lt_of_lt_of_le h.older done.nextToken, fun held => ?_⟩
    obtain before | ⟨token, _⟩ := done.mem_leases held
    · exact h.unheld before
    · exact absurd h.older (by omega)

theorem run (h : Retired l s) (ops : List (Operation κ)) : Retired l (s.run ops) := by
  induction ops generalizing s with
  | nil => exact h
  | cons op ops ih => exact ih (h.after op)

theorem isVoid (h : Retired l s) : s.IsVoid l where
  write f v := by
    refine write_of_refused ?_ v
    cases found : s.leaseOf? f with
    | none => exact ⟨.invalidLease f.name, by simp [checkLease, found]⟩
    | some held =>
      refine checkLease_of_leased found ?_
      rintro ⟨rfl⟩
      exact h.unheld (mem_of_leaseOf? found).1
  release := by
    have nothing : s.leases.filter (fun held => held ≠ l) = s.leases := by
      refine List.filter_eq_self.mpr fun held member => decide_eq_true ?_
      rintro rfl
      exact h.unheld member
    rw [Store.release, nothing]

end Retired

theorem Issued.retired (h : Issued s) (held : l ∈ s.leases) (closed : op = .release l ∨ op = .delete) :
    Retired l (s.after op).1 := by
  obtain rfl | rfl := closed
  · refine ⟨h.older l held, fun still => ?_⟩
    exact of_decide_eq_true (List.mem_filter.mp still).2 rfl
  · have issued := h.after .delete
    have deleted : (s.after .delete).1.status = .deleted := by
      change s.delete.1.status = .deleted
      by_cases before : s.status = .deleted <;> simp [Store.delete, before]
    obtain ⟨_, same⟩ | ⟨_, done⟩ := s.after_cases .delete
    · rw [same] at deleted
      exact absurd held (by simp [h.cleared deleted])
    · exact ⟨Nat.lt_of_lt_of_le (h.older l held) done.nextToken, by simp [issued.cleared deleted]⟩

theorem token_of_granted? (h : s.granted? op = some l) :
    l.token = s.nextToken ∧ (s.after op).1.nextToken = s.nextToken + 1 := by
  cases op with
  | reserve f =>
    cases reserved : s.reserve f with
    | error e => simp [granted?, reserved, Except.toOption] at h
    | ok result =>
      obtain ⟨t, lease⟩ := result
      simp only [granted?, reserved, Except.toOption, Option.map_some, Option.some.injEq] at h
      obtain ⟨_, _, handed, next⟩ := reserve_eq_ok reserved
      have performed : (s.after (.reserve f)).1 = t := by simp [after, perform, reserved, Except.map]
      rw [performed, ← h, next, handed]
      exact ⟨rfl, rfl⟩
  | _ => cases h

theorem nextToken_le_after (s : Store κ) (op : Operation κ) : s.nextToken ≤ (s.after op).1.nextToken := by
  obtain ⟨_, same⟩ | ⟨_, done⟩ := s.after_cases op
  · exact Nat.le_of_eq (by rw [same])
  · exact done.nextToken

theorem grants_increase (s : Store κ) (ops : List (Operation κ)) :
    (∀ l ∈ s.grants ops, s.nextToken ≤ l.token) ∧ (s.grants ops).Pairwise fun a b => a.token < b.token := by
  induction ops generalizing s with
  | nil => exact ⟨fun _ member => absurd member List.not_mem_nil, List.Pairwise.nil⟩
  | cons op ops ih =>
    obtain ⟨later, increasing⟩ := ih (s.after op).1
    have grown := s.nextToken_le_after op
    rw [grants]
    cases given : s.granted? op with
    | none => exact ⟨fun l member => Nat.le_trans grown (later l member), increasing⟩
    | some first =>
      obtain ⟨token, next⟩ := token_of_granted? given
      rw [Option.toList_some, List.singleton_append]
      refine ⟨List.forall_mem_cons.mpr ⟨Nat.le_of_eq token.symm, fun l member => ?_⟩, ?_⟩
      · exact Nat.le_trans grown (later l member)
      · refine List.pairwise_cons.mpr ⟨fun l member => ?_, increasing⟩
        have after := later l member
        omega

section Run

variable {settings : Settings} {status : Status} {lease : Lease} {u : Store κ} {before during : List (Operation κ)}

/-- From its reservation until its lease is given back or everything is deleted, a field is left to those who show the
lease. After that, whatever happens, the lease is void. No two leases of a run have the same token. -/
theorem lease_isExclusive (led : (new settings status).run before = s) (reserved : s.reserve f = .ok (t, lease))
    (kept : ∀ op ∈ during, op ≠ .release lease ∧ op ≠ .delete) (ran : t.run during = u) :
    lease.field = f ∧ u.IsGuarded lease ∧
      (∀ closing : Operation κ, closing = .release lease ∨ closing = .delete →
        ∀ later, ((u.after closing).1.run later).IsVoid lease) ∧
      ∀ ops : List (Operation κ), ((new settings status).grants ops).Pairwise fun a b => a.token < b.token := by
  have issued : s.Issued := by
    rw [← led]
    exact (issued_new settings status).run before
  obtain ⟨_, _, handed, next⟩ := reserve_eq_ok reserved
  have issued_next : t.Issued := issued.does (does_reserve reserved)
  have first : lease ∈ t.leases := by simp [next]
  have issued_now : u.Issued := by
    rw [← ran]
    exact issued_next.run during
  have held : lease ∈ u.leases := by
    rw [← ran]
    exact mem_leases_run first kept
  refine ⟨by rw [handed], issued_now.isGuarded held, fun closing ends later => ?_, fun ops => ?_⟩
  · exact ((issued_now.retired held ends).run later).isVoid
  · exact ((new settings status).grants_increase ops).2

end Run

def disputes : List (Operation Unit) :=
  [.write none .timezone (some (.zone .system)),
    .write (some ⟨.timezone, 1⟩) .timezone (some (.zone .system)),
    .write (some ⟨.period, 2⟩) .timezone (some (.zone .system)),
    .release ⟨.timezone, 1⟩,
    .release ⟨.timezone, 7⟩,
    .reserve .timezone,
    .write (some ⟨.timezone, 2⟩) .timezone (some (.zone .utc)),
    .writeBatch [(.startTime, none), (.timezone, none)],
    .reserve .period]

theorem timezone_isExclusive :
    ∃ s t u : Store Unit, (new .empty .active).run [.reserve .timezone, .release ⟨.timezone, 1⟩] = s ∧
      s.reserve .timezone = .ok (t, ⟨.timezone, 2⟩) ∧
      (∀ op ∈ disputes, op ≠ .release ⟨.timezone, 2⟩ ∧ op ≠ .delete) ∧ t.run disputes = u ∧
      u.settings.timezone = some .utc ∧ u.IsGuarded ⟨.timezone, 2⟩ ∧
      ((u.after (.release ⟨.timezone, 2⟩)).1.run [.reserve .timezone]).IsVoid ⟨.timezone, 2⟩ := by
  have kept : ∀ op ∈ disputes, op ≠ .release ⟨.timezone, 2⟩ ∧ op ≠ .delete := by decide +kernel
  have led : (new .empty .active).run [.reserve .timezone, .release ⟨.timezone, 1⟩] =
      (⟨.empty, .active, 0, [], 2, [], 1⟩ : Store Unit) := rfl
  obtain ⟨-, guarded, void, -⟩ := lease_isExclusive led rfl kept rfl
  exact ⟨_, _, _, led, rfl, kept, rfl, rfl, guarded, void _ (Or.inl rfl) [.reserve .timezone]⟩

end Store

end Cadence
