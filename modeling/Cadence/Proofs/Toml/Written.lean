import Cadence.Proofs.Toml.Line

/-!
Documents as a program writes them. A `Written` document has pairs of bare keys, and behind an empty line it may have
one table more, under its own header. Its text is read as the table of just these entries (`document?_text`).
-/

namespace Cadence.Toml

namespace Table

def ofEntries (es : List (Key × Node)) : Table := ⟨false, false, es⟩

variable {es : List (Key × Node)} {k : Key}

theorem find?_ofEntries_eq_none (fresh : k ∉ es.map Prod.fst) : (ofEntries es).find? k = none := by
  rw [find?, ofEntries, List.lookup_eq_none_iff]
  intro e member
  rw [bne_iff_ne]
  rintro rfl
  exact fresh (List.mem_map_of_mem member)

theorem find?_ofEntries_append (fresh : k ∉ es.map Prod.fst) (n : Node) :
    (ofEntries (es ++ [(k, n)])).find? k = some n := by
  have absent := find?_ofEntries_eq_none fresh
  rw [find?, ofEntries] at absent ⊢
  rw [List.lookup_append, absent]
  simp

theorem set_ofEntries (fresh : k ∉ es.map Prod.fst) (n : Node) :
    (ofEntries es).set k n = ofEntries (es ++ [(k, n)]) := by
  have absent : es.any (fun e => e.1 == k) = false := by
    rw [List.any_eq_false]
    intro e member same
    exact fresh (List.mem_map.mpr ⟨e, member, eq_of_beq same⟩)
  simp [set, ofEntries, absent]

theorem set_ofEntries_append (fresh : k ∉ es.map Prod.fst) (old n : Node) :
    (ofEntries (es ++ [(k, old)])).set k n = ofEntries (es ++ [(k, n)]) := by
  have same : ∀ e ∈ es, (if e.1 = k then (k, n) else e) = id e := fun e member =>
    if_neg fun same => fresh (List.mem_map.mpr ⟨e, member, same⟩)
  have kept := (List.map_congr_left same).trans (List.map_id es)
  simp [set, ofEntries, kept]

theorem define?_ofEntries (fresh : k ∉ es.map Prod.fst) (n : Node) :
    define? [k] n (ofEntries es) = some (ofEntries (es ++ [(k, n)])) := by
  simp [define?, splitPath, change?, insert?, find?_ofEntries_eq_none fresh, set_ofEntries fresh]
  rfl

end Table

open Table

namespace Draft

variable {es inner : List (Key × Node)} {k h : Key}

def onRoot (es : List (Key × Node)) : Draft := ⟨[], ofEntries es⟩

def onLast (es : List (Key × Node)) (h : Key) (inner : List (Key × Node)) : Draft :=
  ⟨[h], ofEntries (es ++ [(h, .table (ofEntries inner))])⟩

theorem define?_onRoot (fresh : k ∉ es.map Prod.fst) (n : Node) :
    (onRoot es).define? [k] n = some (onRoot (es ++ [(k, n)])) := by
  simp [Draft.define?, onRoot, Table.change?, define?_ofEntries fresh]

theorem openTable?_onRoot (fresh : h ∉ es.map Prod.fst) : (onRoot es).openTable? [h] = some (onLast es h []) := by
  simp [openTable?, onRoot, splitPath, Table.change?, find?_ofEntries_eq_none fresh, set_ofEntries fresh, onLast]
  rfl

theorem define?_onLast (closed : h ∉ es.map Prod.fst) (fresh : k ∉ inner.map Prod.fst) (n : Node) :
    (onLast es h inner).define? [k] n = some (onLast es h (inner ++ [(k, n)])) := by
  simp [Draft.define?, onLast, Table.change?, find?_ofEntries_append closed, define?_ofEntries fresh,
    set_ofEntries_append closed]

theorem foldlM_define? (grown : List (Key × Node) → Draft)
    (grows : ∀ es k n, k ∉ es.map Prod.fst → (grown es).define? [k] n = some (grown (es ++ [(k, n)])))
    (es : List (Key × Node)) {ps : List Pair} (distinct : (es.map Prod.fst ++ ps.map Pair.key).Nodup) :
    ps.foldlM (fun (d : Draft) p => d.define? [p.key] p.node) (grown es) = some (grown (es ++ ps.map Pair.entry)) := by
  induction ps generalizing es with
  | nil => simp
  | cons p ps ih =>
    have fresh : p.key ∉ es.map Prod.fst := by
      intro member
      exact (List.nodup_append.mp distinct).2.2 _ member _ List.mem_cons_self rfl
    have later := ih (es ++ [p.entry]) (by simpa [Pair.entry] using distinct)
    rw [List.foldlM_cons, grows es p.key p.node fresh]
    simpa [Pair.entry] using later

end Draft

structure Division where
  header : Key
  pairs : List Pair
  bare : IsBare header
  distinct : (pairs.map Pair.key).Nodup

namespace Division

def text (d : Division) : List Char := ['\n', '['] ++ d.header ++ [']', '\n'] ++ d.pairs.flatMap Pair.text

def entry (d : Division) : Key × Node := (d.header, .table (ofEntries (d.pairs.map Pair.entry)))

end Division

structure Written where
  pairs : List Pair
  division : Option Division
  distinct : (pairs.map Pair.key ++ division.toList.map Division.header).Nodup

namespace Written

def text (w : Written) : List Char := w.pairs.flatMap Pair.text ++ w.division.toList.flatMap Division.text

def entries (w : Written) : List (Key × Node) := w.pairs.map Pair.entry ++ w.division.toList.map Division.entry

end Written

theorem line?_empty (d : Draft) (rest : List Char) : line? d ('\n' :: rest) = some (d, rest) := by
  rw [line?, skipSpace_cons (by decide)]
  simp [lineEnd?_newline]

theorem line?_header {k : Key} (bare : IsBare k) (d : Draft) (rest : List Char) :
    line? d ('[' :: (k ++ ']' :: '\n' :: rest)) = (d.openTable? [k]).map fun next => (next, rest) := by
  have bracket : skipSpace (']' :: '\n' :: rest) = ']' :: '\n' :: rest := skipSpace_cons (by decide)
  have path := path?_bare bare (d := ']') (by decide) ('\n' :: rest) (by simp [bracket])
  rw [line?.eq_def, skipSpace_cons (by decide)]
  split
  · exact absurd ‹_› (by simp)
  · exact absurd (List.cons.inj ‹_›).2 (bare.append_ne (by decide) _ _)
  · rename_i same
    obtain ⟨-, rfl⟩ := List.cons.inj same
    cases opened : d.openTable? [k] <;> simp [path, bracket, expect?, lineEnd?_newline, opened]
  · rename_i header same
    exact absurd (List.cons.inj same).1.symm header

theorem lines?_division {es : List (Key × Node)} {d : Division} (closed : d.header ∉ es.map Prod.fst) :
    lines? (.onRoot es) d.text = some (.onLast es d.header (d.pairs.map Pair.entry)) := by
  have text : d.text = '\n' :: '[' :: (d.header ++ ']' :: '\n' :: (d.pairs.flatMap Pair.text ++ [])) := by
    simp [Division.text]
  have header := line?_header d.bare (.onRoot es) (d.pairs.flatMap Pair.text ++ [])
  rw [Draft.openTable?_onRoot closed] at header
  have pairs := Draft.foldlM_define? (Draft.onLast es d.header)
    (fun _ _ n fresh => Draft.define?_onLast closed fresh n) [] d.distinct
  rw [text, lines?_of_line? (line?_empty _ _) (by simp), lines?_of_line? header (by simp; omega), lines?_pairs _ pairs,
    lines?]
  rfl

theorem Written.text_ne (w : Written) (tail : List Char) : w.text ≠ '\uFEFF' :: tail := by
  rw [Written.text]
  cases w.pairs with
  | nil =>
    cases w.division with
    | none => simp
    | some d => simp [Division.text]
  | cons p ps =>
    rw [List.flatMap_cons, Pair.text, List.append_assoc, List.append_assoc, List.append_assoc, List.append_assoc]
    exact p.bare.append_ne (by decide) _ _

theorem document?_text (w : Written) : document? w.text = some (ofEntries w.entries) := by
  have keys := List.nodup_append.mp w.distinct
  have pairs := Draft.foldlM_define? Draft.onRoot (fun _ _ n fresh => Draft.define?_onRoot fresh n) [] keys.1
  have read : lines? .start w.text =
      lines? (.onRoot (w.pairs.map Pair.entry)) (w.division.toList.flatMap Division.text) :=
    lines?_pairs _ pairs
  have closes : lines? .start w.text = some ⟨(w.division.map fun d => [d.header]).getD [], ofEntries w.entries⟩ := by
    rw [read]
    cases division : w.division with
    | none =>
      simp [Written.entries, division, lines?]
      rfl
    | some d =>
      have closed : d.header ∉ (w.pairs.map Pair.entry).map Prod.fst := by
        intro member
        rw [List.map_map] at member
        exact keys.2.2 _ member d.header (by simp [division]) rfl
      simp [Written.entries, division, lines?_division closed]
      rfl
  rw [document?, closes]
  · rfl
  · exact fun _ => w.text_ne _

end Cadence.Toml
