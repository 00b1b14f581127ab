import Cadence.Toml.Document

/-!
Every integer in a document that was read is a word of 64 bits (`isBounded_of_document?`). The scalars have the bound
from where they are read, nested values from their parts, and whatever is done to a table keeps it: tables only change
by setting keys to values that have it.
-/

namespace Cadence.Toml

namespace Scalar

def IsBounded : Scalar → Prop
  | integer n => FitsWord n
  | _ => True

variable {cs rest : List Char} {s : Scalar}

theorem isBounded_of_word? {n : Int} (h : word? n = some s) : s.IsBounded := by
  simp only [word?] at h
  split at h
  · cases h
    assumption
  · cases h

theorem isBounded_of_radix? {base : Nat} (h : radix? base cs = some (s, rest)) : s.IsBounded := by
  simp only [radix?, Option.bind_eq_bind, Option.bind_eq_some_iff] at h
  obtain ⟨_, _, value, word, same⟩ := h
  cases same
  exact isBounded_of_word? word

theorem isBounded_of_floatTail? {negative : Bool} {whole : List Char}
    (h : floatTail? negative whole cs = some (s, rest)) : s.IsBounded := by
  have last : ∀ {ok : Bool} {left : List Char}, (if ok then some (float, left) else none) = some (s, rest) →
      s.IsBounded := by
    intro ok left taken
    split at taken
    · cases taken
      trivial
    · cases taken
  simp only [floatTail?, Option.bind_eq_bind] at h
  split at h
  all_goals
    obtain ⟨_, _, h⟩ := Option.bind_eq_some_iff.mp h
    split at h
    all_goals
      obtain ⟨_, _, h⟩ := Option.bind_eq_some_iff.mp h
      exact last h

theorem isBounded_of_number? (h : number? cs = some (s, rest)) : s.IsBounded := by
  rw [number?.eq_def] at h
  split at h
  · exact isBounded_of_radix? h
  · exact isBounded_of_radix? h
  · exact isBounded_of_radix? h
  · split at h
    · cases h
      trivial
    · cases h
      trivial
    · simp only [Option.bind_eq_bind, Option.bind_eq_some_iff] at h
      obtain ⟨_, _, last⟩ := h
      split at last
      · exact isBounded_of_floatTail? last
      · obtain ⟨value, word, same⟩ := Option.bind_eq_some_iff.mp last
        cases same
        exact isBounded_of_word? word

theorem isBounded_of_scalar? (h : scalar? cs = some (s, rest)) : s.IsBounded := by
  rw [scalar?.eq_def] at h
  split at h
  · cases h
    trivial
  · cases h
    trivial
  · exact isBounded_of_number? h
  · exact isBounded_of_number? h
  · split at h
    · obtain ⟨_, _, same⟩ := Option.map_eq_some_iff.mp h
      cases same
      trivial
    · split at h
      · rw [numeral?] at h
        split at h
        · cases h
          trivial
        · exact isBounded_of_number? h
      · cases h
  · cases h

end Scalar

inductive Node.IsBounded : Node → Prop
  | scalar {s : Scalar} (bounded : s.IsBounded) : IsBounded (.scalar s)
  | array {items : List Node} (each : ∀ n ∈ items, IsBounded n) : IsBounded (.array items)
  | inline {t : TableOf Node} (each : ∀ e ∈ t.entries, IsBounded e.2) : IsBounded (.inline t)
  | table {t : TableOf Node} (each : ∀ e ∈ t.entries, IsBounded e.2) : IsBounded (.table t)
  | tables {ts : List (TableOf Node)} (each : ∀ t ∈ ts, ∀ e ∈ t.entries, IsBounded e.2) : IsBounded (.tables ts)

namespace Table

def IsBounded (t : Table) : Prop := ∀ e ∈ t.entries, e.2.IsBounded

def Preserves (f : Table → Option Table) : Prop := ∀ t u, t.IsBounded → f t = some u → u.IsBounded

variable {t u : Table} {k : Key} {n : Node}

theorem isBounded_of_nil (none : t.entries = []) : t.IsBounded := by
  intro e member
  rw [none] at member
  cases member

theorem IsBounded.find? (h : t.IsBounded) (found : t.find? k = some n) : n.IsBounded := by
  obtain ⟨e, member, same⟩ : ∃ e ∈ t.entries, e.2 = n := by
    obtain ⟨before, after, split, _⟩ := List.lookup_eq_some_iff.mp found
    exact ⟨(k, n), by simp [split], rfl⟩
  exact same ▸ h e member

theorem IsBounded.set (h : t.IsBounded) (bounded : n.IsBounded) : (t.set k n).IsBounded := by
  rw [Table.set]
  split
  · intro e member
    obtain ⟨old, source, rfl⟩ := List.mem_map.mp member
    split
    · exact bounded
    · exact h old source
  · intro e member
    rcases List.mem_append.mp member with old | new
    · exact h e old
    · rw [List.mem_singleton.mp new]
      exact bounded

theorem preserves_insert? (bare : Bool) (bounded : n.IsBounded) : Preserves (insert? bare k n) := by
  intro t u h inserted
  rw [insert?] at inserted
  split at inserted
  · cases inserted
  · split at inserted
    · cases inserted
    · cases inserted
      exact h.set bounded

theorem preserves_change? {dotted : Bool} {f : Table → Option Table} (kept : Preserves f) (path : List Key) :
    Preserves (change? dotted f path) := by
  induction path with
  | nil => exact kept
  | cons k path ih =>
    intro t u h changed
    rw [change?] at changed
    split at changed
    · obtain ⟨child, made, rfl⟩ := Option.map_eq_some_iff.mp changed
      exact h.set (.table (ih _ _ (isBounded_of_nil rfl) made))
    · rename_i child found
      have held := h.find? found
      split at changed
      · cases changed
      · obtain ⟨next, made, rfl⟩ := Option.map_eq_some_iff.mp changed
        cases held with
        | table each => exact h.set (.table (ih _ _ each made))
    · rename_i elements found
      have held := h.find? found
      split at changed
      · cases changed
      · rename_i last ending
        obtain ⟨next, made, rfl⟩ := Option.map_eq_some_iff.mp changed
        cases held with
        | tables each =>
          have next_bounded := ih _ _ (each last (List.mem_of_getLast? ending)) made
          refine h.set (.tables fun t member => ?_)
          rcases List.mem_append.mp member with old | new
          · exact each t (((List.dropLast_sublist elements).subset old))
          · rw [List.mem_singleton.mp new]
            exact next_bounded
    · cases changed

theorem preserves_changeInline? {f : Table → Option Table} (kept : Preserves f) (path : List Key) :
    Preserves (changeInline? f path) := by
  induction path with
  | nil => exact kept
  | cons k path ih =>
    intro t u h changed
    rw [changeInline?] at changed
    split at changed
    · obtain ⟨child, made, rfl⟩ := Option.map_eq_some_iff.mp changed
      exact h.set (.inline (ih _ _ (isBounded_of_nil rfl) made))
    · rename_i child found
      have held := h.find? found
      split at changed
      · cases changed
      · obtain ⟨next, made, rfl⟩ := Option.map_eq_some_iff.mp changed
        cases held with
        | inline each => exact h.set (.inline (ih _ _ each made))
    · cases changed

theorem preserves_define? (path : List Key) (bounded : n.IsBounded) : Preserves (define? path n) :=
  preserves_change? (preserves_insert? _ bounded) _

theorem preserves_defineInline? (path : List Key) (bounded : n.IsBounded) : Preserves (defineInline? path n) :=
  preserves_changeInline? (preserves_insert? _ bounded) _

end Table

section Values

variable {value : List Char → Option (Node × List Char)} {cs rest : List Char}

/-- Reads nothing but bounded nodes. -/
def Yields (value : List Char → Option (Node × List Char)) : Prop :=
  ∀ cs n rest, value cs = some (n, rest) → n.IsBounded

theorem Yields.items? (yields : Yields value) {nodes : List Node} (h : items? value cs = some (nodes, rest)) :
    ∀ n ∈ nodes, n.IsBounded := by
  fun_induction Toml.items? value cs generalizing nodes rest with
  | case1 cs left closed =>
    cases h
    exact fun n member => absurd member List.not_mem_nil
  | case2 cs opened unread => cases h
  | case3 cs node afterItem left closed opened read =>
    cases h
    intro n member
    rw [List.mem_singleton.mp member]
    exact yields _ _ _ read
  | case4 cs node afterItem left comma shorter opened read ih =>
    obtain ⟨⟨others, _⟩, more, same⟩ := Option.map_eq_some_iff.mp h
    cases same
    exact List.forall_mem_cons.mpr ⟨yields _ _ _ read, ih more⟩
  | case5 cs node afterItem left comma longer opened read => cases h
  | case6 cs node afterItem other other' opened read => cases h

theorem Yields.pair? (yields : Yields value) {path : List Key} {n : Node}
    (h : pair? value cs = some ((path, n), rest)) : n.IsBounded := by
  simp only [Toml.pair?, Option.bind_eq_bind, Option.bind_eq_some_iff] at h
  obtain ⟨_, _, _, _, ⟨node, _⟩, read, same⟩ := h
  cases same
  exact yields _ _ _ read

theorem Yields.pairs? (yields : Yields value) {entries : List (List Key × Node)}
    (h : pairs? value cs = some (entries, rest)) : ∀ e ∈ entries, e.2.IsBounded := by
  fun_induction Toml.pairs? value cs generalizing entries rest with
  | case1 cs unread => cases h
  | case2 cs entry afterPair read left closed =>
    cases h
    intro e member
    rw [List.mem_singleton.mp member]
    exact yields.pair? read
  | case3 cs entry afterPair read left comma shorter ih =>
    obtain ⟨⟨others, _⟩, more, same⟩ := Option.map_eq_some_iff.mp h
    cases same
    exact List.forall_mem_cons.mpr ⟨yields.pair? read, ih more⟩
  | case4 cs entry afterPair read left comma longer => cases h
  | case5 cs entry afterPair read other other' => cases h

theorem Yields.inlineTable? (yields : Yields value) : Yields (inlineTable? value) := by
  have defined : ∀ (entries : List (List Key × Node)) (t u : Table), (∀ e ∈ entries, e.2.IsBounded) → t.IsBounded →
      entries.foldlM (fun t e => t.defineInline? e.1 e.2) t = some u → u.IsBounded := by
    intro entries
    induction entries with
    | nil =>
      intro t u _ h folded
      cases folded
      exact h
    | cons e entries ih =>
      intro t u each h folded
      obtain ⟨first, others⟩ := List.forall_mem_cons.mp each
      obtain ⟨next, set, folded⟩ := Option.bind_eq_some_iff.mp folded
      exact ih next u others (Table.preserves_defineInline? e.1 first t next h set) folded
  intro cs n rest h
  rw [Toml.inlineTable?.eq_def] at h
  split at h
  · cases h
    exact .inline fun e member => absurd member List.not_mem_nil
  · simp only [Option.bind_eq_bind, Option.bind_eq_some_iff] at h
    obtain ⟨⟨entries, _⟩, read, table, folded, same⟩ := h
    cases same
    exact .inline (defined entries _ _ (yields.pairs? read) (Table.isBounded_of_nil rfl) folded)

theorem isBounded_of_map_scalar? {n : Node}
    (h : ((scalar? cs).map fun (s, rest) => (Node.scalar s, rest)) = some (n, rest)) : n.IsBounded := by
  obtain ⟨⟨s, _⟩, read, same⟩ := Option.map_eq_some_iff.mp h
  cases same
  exact .scalar (Scalar.isBounded_of_scalar? read)

theorem yields_value? (depth : Nat) : Yields (value? depth) := by
  induction depth with
  | zero => exact fun cs n rest h => isBounded_of_map_scalar? h
  | succ depth ih =>
    intro cs n rest h
    rw [value?.eq_def] at h
    split at h
    · rename_i inner _ deeper
      cases deeper
      obtain ⟨⟨nodes, _⟩, read, same⟩ := Option.map_eq_some_iff.mp h
      cases same
      exact .array (ih.items? read)
    · rename_i inner _ deeper
      cases deeper
      exact ih.inlineTable? _ _ _ h
    · exact isBounded_of_map_scalar? h

end Values

namespace Draft

variable {d next : Draft} {path : List Key}

theorem isBounded_of_define? {n : Node} (h : d.root.IsBounded) (bounded : n.IsBounded)
    (defined : d.define? path n = some next) : next.root.IsBounded := by
  obtain ⟨root, changed, rfl⟩ := Option.map_eq_some_iff.mp defined
  exact Table.preserves_change? (Table.preserves_define? path bounded) d.header _ _ h changed

theorem isBounded_of_openTable? (h : d.root.IsBounded) (opened : d.openTable? path = some next) :
    next.root.IsBounded := by
  obtain ⟨root, changed, rfl⟩ := Option.map_eq_some_iff.mp opened
  refine Table.preserves_change? (fun t u h fresh => ?_) _ _ _ h changed
  split at fresh
  · cases fresh
    exact h.set (.table (Table.isBounded_of_nil rfl))
  · rename_i child found
    split at fresh
    · cases fresh
      cases h.find? found with
      | table each => exact h.set (.table each)
    · cases fresh
  · cases fresh

theorem isBounded_of_openElement? (h : d.root.IsBounded) (opened : d.openElement? path = some next) :
    next.root.IsBounded := by
  obtain ⟨root, changed, rfl⟩ := Option.map_eq_some_iff.mp opened
  refine Table.preserves_change? (fun t u h appended => ?_) _ _ _ h changed
  split at appended
  · cases appended
    refine h.set (.tables fun t member => ?_)
    rw [List.mem_singleton.mp member]
    exact Table.isBounded_of_nil rfl
  · rename_i elements found
    cases appended
    cases h.find? found with
    | tables each =>
      refine h.set (.tables fun t member => ?_)
      rcases List.mem_append.mp member with old | new
      · exact each t old
      · rw [List.mem_singleton.mp new]
        exact Table.isBounded_of_nil rfl
  · cases appended

end Draft

theorem isBounded_of_line? {d next : Draft} {cs rest : List Char} (h : d.root.IsBounded)
    (read : line? d cs = some (next, rest)) : next.root.IsBounded := by
  rw [line?.eq_def] at read
  split at read
  · cases read
    exact h
  · simp only [Option.bind_eq_bind, Option.bind_eq_some_iff] at read
    obtain ⟨_, _, _, _, _, _, _, _, draft, opened, same⟩ := read
    cases same
    exact Draft.isBounded_of_openElement? h opened
  · simp only [Option.bind_eq_bind, Option.bind_eq_some_iff] at read
    obtain ⟨_, _, _, _, _, _, draft, opened, same⟩ := read
    cases same
    exact Draft.isBounded_of_openTable? h opened
  · split at read
    · obtain ⟨_, _, same⟩ := Option.map_eq_some_iff.mp read
      cases same
      exact h
    · simp only [Option.bind_eq_bind, Option.bind_eq_some_iff] at read
      obtain ⟨⟨⟨path, n⟩, _⟩, pair, _, _, draft, defined, same⟩ := read
      cases same
      exact Draft.isBounded_of_define? h ((yields_value? maxDepth).pair? pair) defined

theorem isBounded_of_lines? {d final : Draft} {cs : List Char} (h : d.root.IsBounded)
    (read : lines? d cs = some final) : final.root.IsBounded := by
  fun_induction lines? d cs with
  | case1 d cs done =>
    cases read
    exact h
  | case2 d cs more broken => cases read
  | case3 d cs more next rest line shorter ih => exact ih (isBounded_of_line? h line) read
  | case4 d cs more next rest line longer => cases read

theorem isBounded_of_document? {cs : List Char} {t : Table} (h : document? cs = some t) : t.IsBounded := by
  obtain ⟨final, read, rfl⟩ := Option.map_eq_some_iff.mp h
  exact isBounded_of_lines? (Table.isBounded_of_nil rfl) read

end Cadence.Toml
