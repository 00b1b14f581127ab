import Mathlib.Data.List.Chain
import Cadence.Zone.Basic

/-!
The local times that a clock shows. A table of offsets is regular if its transitions follow each other, if no offset
reaches a day, and if the first transition leaves room for two days before it. In a regular zone the search through the
stretches of one offset finds every local time that the clock shows at some instant, so that the way back from such a
time leads to an instant at which the clock shows it (`Zone.IsRegular.toCivil_of_fromCivil`).
-/

namespace Cadence

open Calendar

namespace OffsetTable

def firstSecond : Int := firstDay * 86400

structure IsRegular (table : OffsetTable) : Prop where
  ordered : table.transitions.Pairwise fun a b => a.second < b.second
  initial : -86400 < table.initial ∧ table.initial < 86400
  offsets : ∀ t ∈ table.transitions, -86400 < t.offset ∧ t.offset < 86400
  room : ∀ t ∈ table.transitions, firstSecond + 2 * 86400 ≤ t.second

theorem isRegular_iff {table : OffsetTable} : table.IsRegular ↔
    table.transitions.IsChain (fun a b => a.second < b.second) ∧ (-86400 < table.initial ∧ table.initial < 86400) ∧
      ∀ t ∈ table.transitions, (-86400 < t.offset ∧ t.offset < 86400) ∧ firstSecond + 2 * 86400 ≤ t.second := by
  have : Trans (fun a b : Transition => a.second < b.second) (fun a b : Transition => a.second < b.second)
      (fun a b : Transition => a.second < b.second) := ⟨Int.lt_trans⟩
  rw [List.isChain_iff_pairwise]
  exact ⟨fun h => ⟨h.ordered, h.initial, fun t member => ⟨h.offsets t member, h.room t member⟩⟩,
    fun ⟨ordered, initial, each⟩ =>
      ⟨ordered, initial, fun t member => (each t member).1, fun t member => (each t member).2⟩⟩

-- Each transition is compared with the next one only, so that a table is checked in one pass.
instance (table : OffsetTable) : Decidable table.IsRegular := decidable_of_iff _ isRegular_iff.symm

theorem isRegular_constant {offset : Int} (size : -86400 < offset ∧ offset < 86400) : (constant offset).IsRegular :=
  ⟨.nil, size, (fun _ member => nomatch member), (fun _ member => nomatch member)⟩

/-- The search never passes a stretch that shows the second it looks for, and where it stops before that stretch, the
second has been shown before. -/
theorem coverFrom_of_shown {current : Int} {begin : Option Int} {ts : List Transition} {second : Int}
    (begun : begin.all (· ≤ second) = true) :
    ∃ o, coverFrom current begin ts (second + offsetFrom current ts second) = some o ∧
      (o = offsetFrom current ts second ∨
        ∃ t ∈ ts, second + offsetFrom current ts second - o < t.second ∧ t.second ≤ second) := by
  induction ts generalizing current begin with
  | nil => exact ⟨current, by simp [coverFrom, offsetFrom, begun], .inl rfl⟩
  | cons t rest ih =>
    by_cases reached : t.second ≤ second
    · have following : offsetFrom current (t :: rest) second = offsetFrom t.offset rest second := by
        rw [offsetFrom, if_neg (by omega)]
      rw [following, coverFrom]
      split
      · rename_i covered
        simp only [Bool.and_eq_true, decide_eq_true_eq] at covered
        exact ⟨current, rfl, .inr ⟨t, List.mem_cons_self, covered.2, reached⟩⟩
      · have begun : (some t.second).all (· ≤ second) = true := by simpa using reached
        obtain ⟨o, found, place⟩ := @ih t.offset (some t.second) begun
        refine ⟨o, found, place.imp_right ?_⟩
        rintro ⟨u, member, bounds⟩
        exact ⟨u, List.mem_cons_of_mem t member, bounds⟩
    · have here : offsetFrom current (t :: rest) second = current := by rw [offsetFrom, if_pos (by omega)]
      refine ⟨current, ?_, .inl here.symm⟩
      rw [here, coverFrom, Int.add_sub_cancel, if_pos (by simpa [begun] using reached)]

theorem coverFrom_offset {current : Int} {begin : Option Int} {ts : List Transition} {second o : Int}
    (h : coverFrom current begin ts second = some o) : o = current ∨ ∃ t ∈ ts, o = t.offset := by
  induction ts generalizing current begin with
  | nil =>
    simp only [coverFrom] at h
    split at h
    · exact .inl (Option.some.inj h).symm
    · cases h
  | cons t rest ih =>
    simp only [coverFrom] at h
    split at h
    · exact .inl (Option.some.inj h).symm
    · obtain rfl | ⟨u, member, rfl⟩ := ih h
      · exact .inr ⟨t, List.mem_cons_self, rfl⟩
      · exact .inr ⟨u, List.mem_cons_of_mem t member, rfl⟩

theorem offsetFrom_offset (current : Int) (ts : List Transition) (second : Int) :
    offsetFrom current ts second = current ∨ ∃ t ∈ ts, offsetFrom current ts second = t.offset := by
  induction ts generalizing current with
  | nil => exact .inl rfl
  | cons t rest ih =>
    rw [offsetFrom]
    split
    · exact .inl rfl
    · obtain same | ⟨u, member, same⟩ := ih t.offset
      · exact .inr ⟨t, List.mem_cons_self, same⟩
      · exact .inr ⟨u, List.mem_cons_of_mem t member, same⟩

variable {table : OffsetTable}

theorem IsRegular.offsetAt_bounds (regular : table.IsRegular) (second : Int) :
    -86400 < table.offsetAt second ∧ table.offsetAt second < 86400 := by
  obtain same | ⟨t, member, same⟩ := offsetFrom_offset table.initial table.transitions second
  · rw [offsetAt, same]
    exact regular.initial
  · rw [offsetAt, same]
    exact regular.offsets t member

theorem IsRegular.localOffset?_bounds (regular : table.IsRegular) {second o : Int}
    (h : table.localOffset? second = some o) : -86400 < o ∧ o < 86400 := by
  obtain rfl | ⟨t, member, rfl⟩ := coverFrom_offset h
  · exact regular.initial
  · exact regular.offsets t member

theorem IsRegular.offsetAt_of_localOffset? (regular : table.IsRegular) {second o : Int}
    (h : table.localOffset? second = some o) : table.offsetAt (second - o) = o :=
  (offsetFrom_of_coverFrom regular.ordered (by intro b none; cases none) h).1

theorem IsRegular.localOffset?_of_shown (regular : table.IsRegular) (second : Int) :
    ∃ o, table.localOffset? (second + table.offsetAt second) = some o ∧
      (second + table.offsetAt second - o = second ∨
        firstSecond ≤ second + table.offsetAt second - o ∧ second + table.offsetAt second - o < second) := by
  obtain ⟨o, found, place⟩ := @coverFrom_of_shown table.initial none table.transitions second rfl
  refine ⟨o, found, ?_⟩
  have here := regular.offsetAt_bounds second
  have there := regular.localOffset?_bounds found
  rcases place with same | ⟨t, member, before, reached⟩
  · left
    rw [same, offsetAt, Int.add_sub_cancel]
  · right
    have room := regular.room t member
    rw [offsetAt] at *
    omega

end OffsetTable

namespace Zone

def IsRegular [Host] (z : Zone) : Prop := z.table.IsRegular

instance [Host] (z : Zone) : Decidable z.IsRegular := inferInstanceAs (Decidable z.table.IsRegular)

/-- The clock of the zone shows this reading at some instant. -/
def Shows [Host] (z : Zone) (m : Moment) : Prop := ∃ i c, z.toCivil i = .ok c ∧ c.toMoment = m

variable {z : Zone} {i : Instant} {c : CivilTime}

theorem IsRegular.offsetAt_bounds [Host] (regular : z.IsRegular) (second : Int) :
    -86400 < z.offsetAt second ∧ z.offsetAt second < 86400 :=
  OffsetTable.IsRegular.offsetAt_bounds regular second

theorem IsRegular.offsetAt_of_localOffset? [Host] (regular : z.IsRegular) {second o : Int}
    (h : z.localOffset? second = some o) : z.offsetAt (second - o) = o :=
  OffsetTable.IsRegular.offsetAt_of_localOffset? regular h

theorem IsRegular.localOffset?_of_shown [Host] (regular : z.IsRegular) (second : Int) :
    ∃ o, z.localOffset? (second + z.offsetAt second) = some o ∧
      (second + z.offsetAt second - o = second ∨
        OffsetTable.firstSecond ≤ second + z.offsetAt second - o ∧ second + z.offsetAt second - o < second) :=
  OffsetTable.IsRegular.localOffset?_of_shown regular second

theorem IsRegular.toCivil_of_showing? [Host] (regular : z.IsRegular) {o : Int} (h : z.showing? c = some (i, o)) :
    z.toCivil i = .ok c := by
  simp only [showing?] at h
  split at h
  · cases h
  · rename_i p found
    obtain ⟨j, made, same⟩ := Option.map_eq_some_iff.mp h
    obtain ⟨rfl, rfl⟩ := Prod.mk.inj same
    have back : j.toMoment = c.ahead (-p) := Instant.ofMoment?_eq_some.mp made
    have second : j.seconds = c.seconds - p := by rw [back, Moment.seconds_ahead]; rfl
    have there : CivilTime.ofMoment? (j.ahead (z.offsetAt j.seconds)) = some c := by
      rw [CivilTime.ofMoment?_eq_some, second, regular.offsetAt_of_localOffset? found, back, Moment.ahead_neg_ahead]
    simp only [toCivil, there]

theorem IsRegular.showing?_of_shows [Host] (regular : z.IsRegular) (shown : z.Shows c.toMoment) :
    ∃ found, z.showing? c = some found := by
  obtain ⟨j, d, shows, same⟩ := shown
  cases CivilTime.ext same
  have led := toCivil_moment shows
  obtain ⟨o, found, place⟩ := regular.localOffset?_of_shown j.seconds
  have second : c.seconds = j.seconds + z.offsetAt j.seconds := by rw [led, Moment.seconds_ahead]
  have inside : InRange (c.ahead (-o)).nanos := by
    have bounds := j.inRange
    have nanos : c.nanos = j.nanos + z.offsetAt j.seconds * nanosPerSecond := by rw [led]; rfl
    simp only [Moment.seconds, Moment.ahead, InRange, firstNanos, lastNanos, OffsetTable.firstSecond, firstDay,
      nanosPerSecond] at *
    omega
  have made : Instant.ofMoment? (c.ahead (-o)) = some ⟨c.ahead (-o), inside⟩ := Instant.ofMoment?_eq_some.mpr rfl
  rw [← second] at found
  refine ⟨(⟨c.ahead (-o), inside⟩, o), ?_⟩
  simp only [showing?, found, made, Option.map_some]

theorem IsRegular.toCivil_of_fromCivil [Host] (regular : z.IsRegular) (shown : z.Shows c.toMoment)
    (h : z.fromCivil c = .ok i) : z.toCivil i = .ok c := by
  obtain ⟨⟨j, o⟩, found⟩ := regular.showing?_of_shows shown
  rw [fromCivil, found] at h
  cases h
  exact regular.toCivil_of_showing? found

theorem isRegular_of_mem_all : ∀ place ∈ Region.all, place.table.IsRegular := by decide +kernel

end Zone

end Cadence
