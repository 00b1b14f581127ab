import Mathlib.Data.Nat.Find
import Cadence.Proofs.Zone.Shown
import Cadence.Proofs.Zone.Text

/-!
Zones whose clocks are turned seldom and by little: a turn changes the offset by a day at most, more than two days
pass from one turn to the next, and two days before the first and after the last. Around a turn the offset is constant
for two days on either side (`Zone.IsSteady.exists_turn`), and what the clock shows before it and what it shows from
then on stay apart (`Zone.Turns.lt_before`, `Zone.Turns.after_le`). Hence a time that the clock never shows lies in
the gap of one turn (`Zone.IsSteady.exists_gap`), and a clock that has come to some time has shown before all earlier
times that it ever shows (`Zone.IsSteady.exists_shown_before`).
-/

namespace Cadence

open Calendar

namespace OffsetTable

def endSecond : Int := (lastDay + 1) * 86400

/-- From an offset on, each turn is by a day at most, and more than two days pass before the next. -/
def IsSteadyFrom (current : Int) : List Transition → Prop
  | [] => True
  | t :: rest => (current - 86400 ≤ t.offset ∧ t.offset ≤ current + 86400) ∧
      (∀ u ∈ rest.head?, t.second + 172800 < u.second) ∧ IsSteadyFrom t.offset rest

instance decidableIsSteadyFrom : (current : Int) → (ts : List Transition) → Decidable (IsSteadyFrom current ts)
  | _, [] => .isTrue trivial
  | _, t :: rest =>
    have := decidableIsSteadyFrom t.offset rest
    inferInstanceAs (Decidable (_ ∧ (∀ u ∈ rest.head?, t.second + 172800 < u.second) ∧ _))

structure IsSteady (table : OffsetTable) : Prop extends table.IsRegular where
  apart : IsSteadyFrom table.initial table.transitions
  close : ∀ t ∈ table.transitions, t.second + 172800 ≤ endSecond

theorem isSteady_iff {table : OffsetTable} : table.IsSteady ↔ table.IsRegular ∧
    IsSteadyFrom table.initial table.transitions ∧ ∀ t ∈ table.transitions, t.second + 172800 ≤ endSecond :=
  ⟨fun h => ⟨h.toIsRegular, h.apart, h.close⟩, fun ⟨regular, apart, close⟩ => ⟨regular, apart, close⟩⟩

instance (table : OffsetTable) : Decidable table.IsSteady := decidable_of_iff _ isSteady_iff.symm

theorem isSteady_constant {offset : Int} (size : -86400 < offset ∧ offset < 86400) : (constant offset).IsSteady :=
  isSteady_iff.mpr ⟨isRegular_constant size, trivial, fun _ member => nomatch member⟩

variable {current a b : Int} {t : Transition} {ts rest : List Transition}

theorem IsSteadyFrom.far (steady : IsSteadyFrom current (t :: rest)) : ∀ u ∈ rest, t.second + 172800 < u.second := by
  induction rest generalizing current t with
  | nil => simp
  | cons v rest ih =>
    obtain ⟨-, next, later⟩ := steady
    have first : t.second + 172800 < v.second := next v rfl
    intro u member
    obtain rfl | member := List.mem_cons.mp member
    · exact first
    · have := ih later u member
      omega

theorem offsetFrom_of_lt (before : ∀ u ∈ ts, a < u.second) : offsetFrom current ts a = current := by
  cases ts with
  | nil => rfl
  | cons t rest => rw [offsetFrom, if_pos (before t List.mem_cons_self)]

theorem offsetFrom_cons_of_le (reached : t.second ≤ a) :
    offsetFrom current (t :: rest) a = offsetFrom t.offset rest a := by
  rw [offsetFrom, if_neg (Int.not_lt.mpr reached)]

theorem IsSteadyFrom.exists_transition (steady : IsSteadyFrom current ts) (less : a < b)
    (differ : offsetFrom current ts a ≠ offsetFrom current ts b) :
    ∃ t ∈ ts, ∃ before, a < t.second ∧ t.second ≤ b ∧ (before - 86400 ≤ t.offset ∧ t.offset ≤ before + 86400) ∧
      (∀ s, t.second - 172800 ≤ s → s < t.second → offsetFrom current ts s = before) ∧
      ∀ s, t.second ≤ s → s ≤ t.second + 172800 → offsetFrom current ts s = t.offset := by
  induction ts generalizing current with
  | nil => exact absurd rfl differ
  | cons v rest ih =>
    have far := steady.far
    obtain ⟨size, -, later⟩ := steady
    -- Before both seconds, `v` makes no difference. After both, the two would not differ, so it is between them.
    by_cases reached : v.second ≤ a
    · have following : v.second ≤ b := by omega
      rw [offsetFrom_cons_of_le reached, offsetFrom_cons_of_le following] at differ
      obtain ⟨t, member, before, above, below, turned, earlier, after⟩ := ih later differ
      have behind := far t member
      refine ⟨t, List.mem_cons_of_mem v member, before, above, below, turned, fun s low high => ?_,
        fun s low high => ?_⟩
      · rw [offsetFrom_cons_of_le (by omega)]
        exact earlier s low high
      · rw [offsetFrom_cons_of_le (by omega)]
        exact after s low high
    · have between : v.second ≤ b := by
        apply Int.not_lt.mp
        intro ahead
        rw [offsetFrom, offsetFrom, if_pos (by omega), if_pos ahead] at differ
        exact differ rfl
      refine ⟨v, List.mem_cons_self, current, by omega, between, size, fun s _ high => ?_, fun s low high => ?_⟩
      · rw [offsetFrom, if_pos high]
      · rw [offsetFrom_cons_of_le low]
        exact offsetFrom_of_lt fun u member => by
          have := far u member
          omega

end OffsetTable

namespace Zone

theorem isSteady_of_mem_all : ∀ place ∈ Region.all, place.table.IsSteady := by
  have apart : ∀ place ∈ Region.all, OffsetTable.IsSteadyFrom place.table.initial place.table.transitions ∧
      ∀ t ∈ place.table.transitions, t.second + 172800 ≤ OffsetTable.endSecond := by decide +kernel
  exact fun place member => OffsetTable.isSteady_iff.mpr ⟨isRegular_of_mem_all place member, apart place member⟩

variable [Host]

def IsSteady (z : Zone) : Prop := z.table.IsSteady

instance (z : Zone) : Decidable z.IsSteady := inferInstanceAs (Decidable z.table.IsSteady)

/-- The clock is turned at a second of UTC. -/
structure Turns (z : Zone) (second before after : Int) : Prop where
  earlier : ∀ s, second - 172800 ≤ s → s < second → z.offsetAt s = before
  later : ∀ s, second ≤ s → s ≤ second + 172800 → z.offsetAt s = after
  size : before - 86400 ≤ after ∧ after ≤ before + 86400
  room : OffsetTable.firstSecond + 172800 ≤ second ∧ second + 172800 ≤ OffsetTable.endSecond

/-- The clock never shows a local second. -/
def Skips (z : Zone) (second : Int) : Prop := ∀ s, s + z.offsetAt s ≠ second

variable {z : Zone} {second before after s a b m : Int}

theorem IsSteady.isRegular (steady : z.IsSteady) : z.IsRegular := OffsetTable.IsSteady.toIsRegular steady

theorem IsSteady.exists_turn (steady : z.IsSteady) (less : a < b) (differ : z.offsetAt a ≠ z.offsetAt b) :
    ∃ second before after, z.Turns second before after ∧ a < second ∧ second ≤ b := by
  obtain ⟨t, member, before, above, below, size, earlier, later⟩ := steady.apart.exists_transition less differ
  exact ⟨t.second, before, t.offset, ⟨earlier, later, size, steady.room t member, steady.close t member⟩, above, below⟩

namespace Turns

variable (turn : z.Turns second before after) (steady : z.IsSteady)
include turn steady

theorem lt_before (earlier : s < second) : s + z.offsetAt s < second + before := by
  have here := steady.isRegular.offsetAt_bounds s
  have there := steady.isRegular.offsetAt_bounds (second - 1)
  have last := turn.earlier (second - 1) (by omega) (by omega)
  by_cases near : second - 172800 ≤ s
  · rw [turn.earlier s near earlier]
    omega
  · omega

theorem after_le (later : second ≤ s) : second + after ≤ s + z.offsetAt s := by
  have here := steady.isRegular.offsetAt_bounds s
  have there := steady.isRegular.offsetAt_bounds second
  have first := turn.later second (by omega) (by omega)
  by_cases near : s ≤ second + 172800
  · rw [turn.later s later near]
    omega
  · omega

theorem skips (begun : second + before ≤ m) (ends : m < second + after) : z.Skips m := by
  intro s shown
  by_cases earlier : s < second
  · have := turn.lt_before steady earlier
    omega
  · have := turn.after_le steady (Int.not_lt.mp earlier)
    omega

end Turns

namespace IsSteady

variable (steady : z.IsSteady)
include steady

theorem offsetAt_near (le : a ≤ b) (near : b ≤ a + 172800) :
    z.offsetAt b - 86400 ≤ z.offsetAt a ∧ z.offsetAt a ≤ z.offsetAt b + 86400 := by
  by_cases same : z.offsetAt a = z.offsetAt b
  · omega
  have less : a < b := by
    refine Int.lt_iff_le_and_ne.mpr ⟨le, ?_⟩
    rintro rfl
    exact same rfl
  obtain ⟨second, before, after, turn, above, below⟩ := steady.exists_turn less same
  have first := turn.earlier a (by omega) above
  have last := turn.later b below (by omega)
  have size := turn.size
  omega

/-- What the clock never shows, it was set forward past. -/
theorem exists_gap (skipped : z.Skips m) :
    ∃ second before after, z.Turns second before after ∧ second + before ≤ m ∧ m < second + after := by
  have bounds := steady.isRegular.offsetAt_bounds
  -- The clock shows less than `m` a day before it could show `m`, and there is a first second at which it shows more.
  have passed : ∃ n : Nat, m < m - 86400 + n + z.offsetAt (m - 86400 + n) := by
    refine ⟨172800, ?_⟩
    have := bounds (m - 86400 + (172800 : Nat))
    omega
  obtain ⟨n, first⟩ : ∃ n, Nat.find passed = n := ⟨_, rfl⟩
  have shows_more := Nat.find_spec passed
  rw [first] at shows_more
  cases n with
  | zero =>
    have := bounds (m - 86400 + (0 : Nat))
    omega
  | succ n =>
    have shows_less := Nat.find_min passed (m := n) (by omega)
    have differs := skipped (m - 86400 + n)
    have next : m - 86400 + ((n + 1 : Nat) : Int) = m - 86400 + n + 1 := by omega
    rw [next] at shows_more
    have changed : z.offsetAt (m - 86400 + n) ≠ z.offsetAt (m - 86400 + n + 1) := by omega
    obtain ⟨second, before, after, turn, above, below⟩ := steady.exists_turn (by omega) changed
    have begun := turn.earlier (m - 86400 + n) (by omega) above
    have ends := turn.later (m - 86400 + n + 1) below (by omega)
    exact ⟨second, before, after, turn, by omega, by omega⟩

theorem exists_shown_before (shown : s + z.offsetAt s = m) (come : m ≤ a + z.offsetAt a) :
    ∃ s ≤ a, s + z.offsetAt s = m := by
  by_cases reached : s ≤ a
  · exact ⟨s, reached, shown⟩
  have bounds := steady.isRegular.offsetAt_bounds
  have differ : z.offsetAt a ≠ z.offsetAt s := by omega
  obtain ⟨second, before, after, turn, above, below⟩ := steady.exists_turn (by omega) differ
  have early := turn.lt_before steady above
  have late := turn.after_le steady below
  have size := turn.size
  -- The clock was set back over `m`, and it showed `m` in the two days before.
  have there := turn.earlier (m - before) (by omega) (by omega)
  by_cases by_then : m - before ≤ a
  · exact ⟨m - before, by_then, by omega⟩
  · have := bounds a
    have := bounds (m - before)
    have near := steady.offsetAt_near (a := a) (b := m - before) (by omega) (by omega)
    have here := turn.earlier a (by omega) above
    omega

end IsSteady

theorem isSteady_utc : IsSteady utc := OffsetTable.isSteady_constant (by decide)

theorem isSteady_fixed (o : Offset) : IsSteady (fixed o) := OffsetTable.isSteady_constant o.inRange

theorem isSteady_of_ofText [TzDatabase] {written : String} (host : Host.table.IsSteady)
    (places : ∀ name place, TzDatabase.place? name = some place → place.table.IsSteady) (h : ofText written = .ok z) :
    z.IsSteady := by
  obtain rfl | rfl | ⟨o, -, rfl⟩ | ⟨cs, place, -, -, found, rfl⟩ := ofText_cases h
  · exact host
  · exact isSteady_utc
  · exact isSteady_fixed o
  · exact places _ place found

end Zone

end Cadence
