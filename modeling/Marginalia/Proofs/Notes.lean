import Mathlib.Data.List.Induction
import Marginalia.Notes.OfTokens

/-!
# What the lookup finds

When notes are put on lines one after the other, the last one on a line stays
(`Notes.get?_insertAll`). So the note on a line is that of the last docstring that covers the line,
or else that of a standalone literal, or else that of a comment on it
(`Notes.get?_withDocstrings`). `Notes.FoundAt` lists these cases, and `Notes.foundAt` proves that
there is no other.
-/

namespace Marginalia

namespace Notes

/-- The note in the last of the entries for line `n`. -/
def lastAt? (es : List (ℕ × Note)) (n : ℕ) : Option Note :=
  (es.reverse.find? (·.1 = n)).map Prod.snd

/-- **The last note that is put on a line stays.** -/
theorem get?_insertAll (ns : Notes) (es : List (ℕ × Note)) (n : ℕ) :
    (ns.insertAll es).get? n = (lastAt? es n).or (ns.get? n) := by
  induction es using List.reverseRecOn with
  | nil => rfl
  | append_singleton es e ih =>
    rw [insertAll, List.foldl_append, List.foldl_cons, List.foldl_nil, ← insertAll, get?_insert, ih]
    by_cases h : n = e.1
    · simp [lastAt?, h]
    · simp [lastAt?, h, Ne.symm h]

theorem mem_of_lastAt? {es : List (ℕ × Note)} {n : ℕ} {note : Note}
    (h : lastAt? es n = some note) : (n, note) ∈ es := by
  obtain ⟨⟨m, note'⟩, hfind, rfl⟩ := Option.map_eq_some_iff.1 h
  obtain rfl : m = n := by simpa using List.find?_some hfind
  exact List.mem_reverse.1 (List.mem_of_find?_eq_some hfind)

theorem lastAt?_eq_none_iff {es : List (ℕ × Note)} {n : ℕ} :
    lastAt? es n = none ↔ ∀ e ∈ es, e.1 ≠ n := by
  simp [lastAt?]

/-- On lines that ascend there is one entry for each. -/
theorem eq_of_mem_of_mem {es : List (ℕ × Note)} (h : es.Pairwise (·.1 < ·.1)) {n : ℕ}
    {note note' : Note} (hmem : (n, note) ∈ es) (hmem' : (n, note') ∈ es) : note = note' := by
  obtain ⟨i, hi, hei⟩ := List.getElem_of_mem hmem
  obtain ⟨k, hk, hek⟩ := List.getElem_of_mem hmem'
  have hlt := List.pairwise_iff_getElem.1 h
  rcases Nat.lt_trichotomy i k with hik | rfl | hik
  · exact absurd (hlt i k hi hk hik) (by simp [hei, hek])
  · rw [hei] at hek
    exact (Prod.mk.inj hek).2
  · exact absurd (hlt k i hk hi hik) (by simp [hei, hek])

theorem lastAt?_eq_some_iff {es : List (ℕ × Note)} (h : es.Pairwise (·.1 < ·.1)) {n : ℕ}
    {note : Note} : lastAt? es n = some note ↔ (n, note) ∈ es := by
  refine ⟨mem_of_lastAt?, fun hmem => ?_⟩
  cases hget : lastAt? es n with
  | none => exact absurd rfl (lastAt?_eq_none_iff.1 hget _ hmem)
  | some note' => rw [eq_of_mem_of_mem h hmem (mem_of_lastAt? hget)]

/-- The lookup finds the entries, each on its line. -/
theorem get?_eq_some_iff {ns : Notes} {n : ℕ} {note : Note} :
    ns.get? n = some note ↔ (n, note) ∈ ns.toList := by
  have hmem : ∀ {note'}, ns.get? n = some note' → (n, note') ∈ ns.toList := fun {note'} h => by
    obtain ⟨⟨m, _⟩, hfind, rfl⟩ := Option.map_eq_some_iff.1 h
    obtain rfl : m = n := by simpa using List.find?_some hfind
    exact List.mem_of_find?_eq_some hfind
  refine ⟨hmem, fun h => ?_⟩
  cases hget : ns.get? n with
  | none =>
    rw [get?, Option.map_eq_none_iff, List.find?_eq_none] at hget
    exact absurd (hget _ h) (by simp)
  | some note' => rw [eq_of_mem_of_mem ns.ascending h (hmem hget)]

end Notes

namespace Literal

/-- The note that the literal leaves on line `n`. -/
def noteOn (kind : NoteKind) (d : Literal) (n : ℕ) : Note where
  content := Text.trimEnd (· == '\r') ((Text.splitAt '\n' d.text)[n - d.start.line]?.getD [])
  kind := kind
  column := d.columnOn n
  extent := some d.extent

theorem notes_eq_map (kind : NoteKind) (d : Literal) :
    d.notes kind = d.lines.map fun n => (n, d.noteOn kind n) := by
  refine List.ext_getElem (by simp [notes, lineContents]) fun i hi hi' => ?_
  simp [notes, lineContents, lines, noteOn]

theorem pairwise_notes (kind : NoteKind) (d : Literal) :
    (d.notes kind).Pairwise (·.1 < ·.1) := by
  rw [notes_eq_map, List.pairwise_map]
  exact List.pairwise_lt_range' ..

theorem mem_notes_iff {kind : NoteKind} {d : Literal} {n : ℕ} {note : Note} :
    (n, note) ∈ d.notes kind ↔ n ∈ d.lines ∧ note = d.noteOn kind n := by
  rw [notes_eq_map, List.mem_map]
  constructor
  · rintro ⟨m, hm, heq⟩
    obtain ⟨rfl, rfl⟩ := Prod.mk.inj heq
    exact ⟨hm, rfl⟩
  · rintro ⟨hn, rfl⟩
    exact ⟨n, hn, rfl⟩

end Literal

namespace Notes

theorem lastAt?_append (es fs : List (ℕ × Note)) (n : ℕ) :
    lastAt? (es ++ fs) n = (lastAt? fs n).or (lastAt? es n) := by
  rw [lastAt?, lastAt?, lastAt?, List.reverse_append, List.find?_append, Option.map_or]

theorem lastAt?_notes (kind : NoteKind) (d : Literal) (n : ℕ) :
    lastAt? (d.notes kind) n = if d.covers n then some (d.noteOn kind n) else none := by
  split
  · next hcovers =>
    rw [lastAt?_eq_some_iff (d.pairwise_notes kind), Literal.mem_notes_iff]
    exact ⟨Literal.covers_iff.1 hcovers, rfl⟩
  · next hcovers =>
    rw [lastAt?_eq_none_iff]
    rintro ⟨m, note⟩ he rfl
    exact hcovers (Literal.covers_iff.2 (Literal.mem_notes_iff.1 he).1)

/-- Of several literals on a line, the last one goes first. -/
theorem lastAt?_flatMap_notes (kind : NoteKind) (ds : List Literal) (n : ℕ) :
    lastAt? (ds.flatMap (Literal.notes kind)) n =
      (ds.reverse.find? (·.covers n)).map (·.noteOn kind n) := by
  induction ds using List.reverseRecOn with
  | nil => rfl
  | append_singleton ds d ih =>
    rw [List.flatMap_append, List.flatMap_singleton, lastAt?_append, ih, lastAt?_notes,
      List.reverse_append, List.reverse_singleton, List.singleton_append, List.find?_cons]
    cases d.covers n <;> simp

theorem lastAt?_map_commentNote (us : List Token) (n : ℕ) :
    lastAt? (us.map Token.commentNote) n =
      (us.reverse.find? (·.start.line = n)).map (·.commentNote.2) := by
  rw [lastAt?, ← List.map_reverse, List.find?_map, Option.map_map]
  rfl

/-- **The note on a line** is that of the last docstring on it, or else that of a standalone
literal, or else that of a comment. -/
theorem get?_withDocstrings (ts : List Token) (ds : List Literal) (n : ℕ) :
    ((ofTokens ts).withDocstrings ds).get? n =
      ((ds.reverse.find? (·.covers n)).map (·.noteOn .docstring n)).or
        ((((standaloneStrings ts).reverse.find? (·.covers n)).map
            (·.noteOn .standaloneString n)).or
          (((commentTokens ts).reverse.find? (·.start.line = n)).map (·.commentNote.2))) := by
  rw [withDocstrings, get?_insertAll, lastAt?_flatMap_notes, ofTokens, get?_insertAll,
    lastAt?_flatMap_notes, get?_insertAll, lastAt?_map_commentNote, get?_empty, Option.or_none]

theorem find?_covers_eq_none {ds : List Literal} {n : ℕ} :
    ds.reverse.find? (·.covers n) = none ↔ ∀ d ∈ ds, n ∉ d.lines := by
  simp [List.find?_eq_none, Literal.covers_iff]

theorem of_find?_covers {ds : List Literal} {n : ℕ} {d : Literal}
    (h : ds.reverse.find? (·.covers n) = some d) : d ∈ ds ∧ n ∈ d.lines := by
  have hcovers := List.find?_some h
  exact ⟨List.mem_reverse.1 (List.mem_of_find?_eq_some h), Literal.covers_iff.1 hcovers⟩

/-- Where the note on line `n` comes from, when the docstrings `ds` are laid over the notes of the
tokens `ts`. -/
inductive FoundAt (ts : List Token) (ds : List Literal) (n : ℕ) : Option Note → Prop
  | docstring {d : Literal} {note : Note} (hd : d ∈ ds) (hn : n ∈ d.lines)
      (hk : note.kind = .docstring) (he : note.extent = some d.extent) : FoundAt ts ds n (some note)
  | standalone {d : Literal} {note : Note} (hds : ∀ e ∈ ds, n ∉ e.lines)
      (hd : d ∈ standaloneStrings ts) (hn : n ∈ d.lines) (hk : note.kind = .standaloneString)
      (he : note.extent = some d.extent) : FoundAt ts ds n (some note)
  | comment {u : Token} (hds : ∀ e ∈ ds, n ∉ e.lines)
      (hss : ∀ e ∈ standaloneStrings ts, n ∉ e.lines) (hu : u ∈ ts) (hk : u.kind = .comment)
      (hn : u.start.line = n) :
      FoundAt ts ds n (some u.commentNote.2)
  | nothing (hds : ∀ e ∈ ds, n ∉ e.lines) (hss : ∀ e ∈ standaloneStrings ts, n ∉ e.lines) :
      FoundAt ts ds n none

/-- **The note on a line** is that of a docstring, or else of a standalone literal, or else of a
comment. -/
theorem foundAt (ts : List Token) (ds : List Literal) (n : ℕ) :
    FoundAt ts ds n (((ofTokens ts).withDocstrings ds).get? n) := by
  rw [get?_withDocstrings]
  cases hds : ds.reverse.find? (·.covers n) with
  | some d =>
    obtain ⟨hd, hn⟩ := of_find?_covers hds
    exact .docstring hd hn rfl rfl
  | none =>
    have hds' := find?_covers_eq_none.1 hds
    cases hss : (standaloneStrings ts).reverse.find? (·.covers n) with
    | some s =>
      obtain ⟨hs, hn⟩ := of_find?_covers hss
      exact .standalone hds' hs hn rfl rfl
    | none =>
      have hss' := find?_covers_eq_none.1 hss
      cases hcs : (commentTokens ts).reverse.find? (·.start.line = n) with
      | some u =>
        obtain ⟨hu, hk⟩ := List.mem_filter.1 (List.mem_reverse.1 (List.mem_of_find?_eq_some hcs))
        have hline := List.find?_some hcs
        exact .comment hds' hss' hu (by simpa using hk) (by simpa using hline)
      | none => exact .nothing hds' hss'

/-- A note of a literal is that of a literal on its line. -/
theorem exists_literal {ts : List Token} {ds : List Literal} {n : ℕ} {note : Note} {x : Extent}
    (hget : ((ofTokens ts).withDocstrings ds).get? n = some note)
    (hkind : note.kind.isString = true) (hx : note.extent = some x) :
    ∃ d ∈ standaloneStrings ts ++ ds, n ∈ d.lines ∧ d.extent = x := by
  have hfound := foundAt ts ds n
  rw [hget] at hfound
  cases hfound with
  | docstring hd hn _ he =>
    exact ⟨_, List.mem_append_right _ hd, hn, Option.some_inj.1 (he.symm.trans hx)⟩
  | standalone _ hd hn _ he =>
    exact ⟨_, List.mem_append_left _ hd, hn, Option.some_inj.1 (he.symm.trans hx)⟩
  | comment => exact Bool.noConfusion hkind

theorem foundAt_ofTokens (ts : List Token) (n : ℕ) : FoundAt ts [] n ((ofTokens ts).get? n) :=
  foundAt ts [] n

/-- A note of a comment is that of a token on its line. -/
theorem exists_comment {ts : List Token} {n : ℕ} {note : Note}
    (hget : (ofTokens ts).get? n = some note) (hkind : note.kind.isString = false) :
    ∃ u ∈ ts, u.kind = .comment ∧ u.start.line = n ∧ note = u.commentNote.2 := by
  have hfound := foundAt_ofTokens ts n
  rw [hget] at hfound
  cases hfound with
  | docstring hd => simp at hd
  | standalone _ _ _ hk =>
    rw [hk] at hkind
    exact Bool.noConfusion hkind
  | comment _ _ hu hk hn => exact ⟨_, hu, hk, hn, rfl⟩

end Notes

end Marginalia
