import Marginalia.Analysis
import Marginalia.Proofs.Literal
import Marginalia.Proofs.Notes.OfLines
import Marginalia.Proofs.Rewrite.Lines

/-!
# Notes stand where they say

Every note on a source is in the source: its line is a line of the source, its content stands there
from its column on, and if it is part of a literal, the literal reaches over the line
(`Note.StandsOn`). This holds of what is read from tokens and of what is read from lines, and it
goes on to hold when slices of the source are laid over the notes as docstrings.

What three readings count by different means comes to one fact about texts: characters without a
line break that stand at a position are on the line of the position, from its column on
(`Text.StandsAt.isPrefix_lineText`). There is one note for a line at most, so there are fewer notes
than lines, and no more characters in notes than in the source (`notes_standOn`).
-/

namespace Marginalia

/-! ## Characters on a line -/

/-- **Characters without a line break stand on the line of their position.** At its end a carriage
return might belong to a line break. -/
theorem Text.StandsAt.isPrefix_lineText {source x : Text} {p : Position}
    (h : Text.StandsAt source x p) (hlf : '\n' ∉ x) (hcr : x.getLast? ≠ some '\r') :
    x <+: (lineText (splitLines source) p.line).drop p.column := by
  obtain ⟨a, b, rfl, rfl⟩ := h
  cases hlast : x.getLast? with
  | none =>
    rw [List.getLast?_eq_none_iff.1 hlast]
    exact List.nil_prefix
  | some c =>
    have hline : (Position.origin.advanceBy (a ++ x)).line =
        (Position.origin.advanceBy a).line := by
      rw [Position.advanceBy_append, Position.line_advanceBy_of_notMem _ hlf]
    have hcut := lineText_eq (t := a ++ x ++ b) (a := a ++ x) rfl fun h => by
      rw [List.getLast?_append, hlast] at h
      rw [hlast] at hcr
      exact absurd h hcr
    rw [hline, Literal.lastLine_append hlf] at hcut
    rw [hcut, column_advanceBy_origin, List.append_assoc, List.drop_left]
    exact List.prefix_append ..

/-! ## The parts of a slice -/

namespace Literal

/-- A piece between line feeds, with what stands before it. -/
theorem exists_append_of_getElem?_splitAt {t piece : Text} {i : ℕ}
    (h : (Text.splitAt '\n' t)[i]? = some piece) : ∃ u v, t = u ++ piece ++ v ∧ '\n' ∉ piece ∧
      List.count '\n' u = i ∧ (i = 0 → u = []) ∧ (0 < i → u.getLast? = some '\n') := by
  induction t generalizing i piece with
  | nil =>
    rw [Text.splitAt, List.getElem?_singleton] at h
    split at h
    · obtain rfl : [] = piece := by simpa using h
      exact ⟨[], [], rfl, by simp, by simp; omega, by simp, by omega⟩
    · simp at h
  | cons c r ih =>
    rw [Text.splitAt] at h
    split at h
    · next hc =>
      cases i with
      | zero =>
        obtain rfl : [] = piece := by simpa using h
        exact ⟨[], c :: r, rfl, by simp, rfl, fun _ => rfl, by omega⟩
      | succ i =>
        obtain ⟨u, v, rfl, hp, hcount, hzero, hpos⟩ := ih (by simpa using h)
        refine ⟨c :: u, v, rfl, hp, by simp [hc, hcount], by omega, fun _ => ?_⟩
        rcases Nat.eq_zero_or_pos i with rfl | hi
        · simp [hzero rfl, hc]
        · rw [List.getLast?_cons, hpos hi]
          rfl
    · next hc =>
      obtain ⟨p, ps, hs⟩ := List.exists_cons_of_ne_nil (Text.splitAt_ne_nil '\n' r)
      rw [hs] at h ih
      cases i with
      | zero =>
        obtain rfl : c :: p = piece := by simpa using h
        obtain ⟨u, v, rfl, hp, -, hzero, -⟩ := @ih p 0 rfl
        obtain rfl := hzero rfl
        exact ⟨[], v, rfl, by simp [hp, Ne.symm hc], rfl, fun _ => rfl, by omega⟩
      | succ i =>
        obtain ⟨u, v, rfl, hp, hcount, -, hpos⟩ := @ih piece (i + 1) (by simpa using h)
        refine ⟨c :: u, v, rfl, hp, ?_, by omega, fun _ => ?_⟩
        · rw [List.count_cons_of_ne hc, hcount]
        · rw [List.getLast?_cons, hpos (Nat.succ_pos i)]
          rfl

/-- The literal is a slice of the source, from where it starts to where it ends, and does not end
in a line feed. -/
structure IsSliceOf (source : Text) (d : Literal) : Prop where
  standsAt : Text.StandsAt source d.text d.start
  stop_eq : d.start.advanceBy d.text = d.stop
  last : ∃ c, d.text.getLast? = some c ∧ c ≠ '\n'

section IsSliceOf

variable {source : Text} {d : Literal} (h : d.IsSliceOf source)
include h

theorem IsSliceOf.lines_le : 1 ≤ d.start.line ∧ d.stop.line ≤ (splitLines source).length := by
  obtain ⟨c, hlast, hlf⟩ := h.last
  refine ⟨h.standsAt.one_le_line, ?_⟩
  rw [← h.stop_eq]
  exact h.standsAt.line_advanceBy_le hlast hlf

/-- **The part of a slice on one of its lines** stands there. -/
theorem IsSliceOf.isPrefix_of_mem_lineContents {n : ℕ} {content : Text}
    (hmem : (n, content) ∈ d.lineContents) :
    n ∈ d.lines ∧ content <+: (lineText (splitLines source) n).drop (d.columnOn n) := by
  obtain ⟨i, hi, heq⟩ := List.mem_mapIdx.1 hmem
  obtain ⟨hn, rfl⟩ := Prod.mk.inj heq
  refine ⟨hn ▸ List.getElem_mem hi, ?_⟩
  cases hpiece : (Text.splitAt '\n' d.text)[i]? with
  | none => exact List.nil_prefix
  | some piece =>
    obtain ⟨u, v, ht, hp, hcount, hzero, hpos⟩ := exists_append_of_getElem?_splitAt hpiece
    obtain rfl : d.start.line + i = n := by simpa [lines] using hn
    have hline : (d.start.advanceBy u).line = d.start.line + i := by
      rw [Position.line_advanceBy, hcount]
    -- lines after the first are counted from column 0
    have hcolumn : (d.start.advanceBy u).column = d.columnOn (d.start.line + i) := by
      rcases Nat.eq_zero_or_pos i with rfl | hi'
      · rw [hzero rfl, columnOn, if_pos (Nat.add_zero _)]
        rfl
      · obtain ⟨x, rfl⟩ := List.getLast?_eq_some_iff.1 (hpos hi')
        rw [Position.column_advanceBy_of_mem _ (by simp), lastLine_append_lineFeed, columnOn,
          if_neg (by omega)]
        rfl
    obtain ⟨z, hz, -⟩ := Text.exists_trimEnd_append (· == '\r') piece
    obtain ⟨a, b, hab, ha⟩ := h.standsAt
    have hstands : Text.StandsAt source (Text.trimEnd (· == '\r') piece)
        (d.start.advanceBy u) := by
      refine ⟨a ++ u, z ++ v ++ b, ?_, by rw [Position.advanceBy_append, ha]⟩
      rw [hab, ht]
      conv_lhs => rw [hz]
      simp only [List.append_assoc]
    rw [← hcolumn, ← hline, Option.getD_some]
    refine hstands.isPrefix_lineText ?_ ?_
    · exact fun hmem => hp ((Text.trimEnd_isPrefix _ piece).subset hmem)
    · intro hlast
      exact absurd (Text.getLast?_trimEnd hlast) (by decide)

end IsSliceOf

end Literal

/-! ## Notes that stand on their lines -/

/-- The note is in the source on line `n`: its content stands there from its column on, and the
literal that it is part of, if it is, reaches over this line. -/
structure Note.StandsOn (source : Text) (n : ℕ) (note : Note) : Prop where
  one_le : 1 ≤ n
  le_length : n ≤ (splitLines source).length
  content : note.content <+: (lineText (splitLines source) n).drop note.column
  extent : note.kind.isString = true →
    ∃ e, note.extent = some e ∧ e.start.line ≤ n ∧ n ≤ e.stop.line

/-- The notes of a slice stand on its lines. -/
theorem Literal.IsSliceOf.standsOn {source : Text} {d : Literal} (h : d.IsSliceOf source)
    {kind : NoteKind} {n : ℕ} {note : Note} (hmem : (n, note) ∈ d.notes kind) :
    note.StandsOn source n := by
  obtain ⟨⟨m, content⟩, hcontent, heq⟩ := List.mem_map.1 hmem
  obtain ⟨rfl, rfl⟩ := Prod.mk.inj heq
  obtain ⟨hline, hprefix⟩ := h.isPrefix_of_mem_lineContents hcontent
  obtain ⟨hstart, hstop⟩ := h.lines_le
  obtain ⟨hlow, hhigh⟩ := Literal.mem_lines.1 hline
  exact ⟨hstart.trans hlow, hhigh.trans hstop, hprefix, fun _ => ⟨d.extent, rfl, hlow, hhigh⟩⟩

/-- All notes stand on their lines. -/
def Notes.StandIn (source : Text) (ns : Notes) : Prop :=
  ∀ n note, ns.get? n = some note → note.StandsOn source n

theorem Notes.standIn_empty (source : Text) : empty.StandIn source := by
  intro n note h
  simp at h

theorem Notes.StandIn.insertAll {source : Text} {ns : Notes} (h : ns.StandIn source)
    {es : List (ℕ × Note)} (hes : ∀ n note, (n, note) ∈ es → note.StandsOn source n) :
    (ns.insertAll es).StandIn source := by
  intro n note hget
  rw [get?_insertAll] at hget
  cases hlast : lastAt? es n with
  | none => exact h n note (by simpa [hlast] using hget)
  | some note' =>
    obtain rfl : note' = note := by simpa [hlast] using hget
    exact hes n note' (mem_of_lastAt? hlast)

/-- Slices of the source are laid over notes that stand in it. -/
theorem Notes.StandIn.withDocstrings {source : Text} {ns : Notes} (h : ns.StandIn source)
    {ds : List Literal} (hds : ∀ d ∈ ds, d.IsSliceOf source) :
    (ns.withDocstrings ds).StandIn source := by
  apply h.insertAll
  intro n note hmem
  obtain ⟨d, hd, hmem⟩ := List.mem_flatMap.1 hmem
  exact (hds d hd).standsOn hmem

/-! ### Notes from tokens -/

section Tokenize

variable {source : Text} {ts : List Token} (ht : tokenize source = .ok ts)
include ht

/-- The literal of a token of code is a slice of the source. -/
theorem Literal.isSliceOf_ofToken {u : Token} (hu : u ∈ ts) (hc : u.kind.isCode = true) :
    (ofToken u).IsSliceOf source := by
  obtain ⟨hstop, hcode⟩ := isCodeText_of_mem ht hu hc
  obtain ⟨c, hlast, hblank⟩ := hcode.last
  have heq := @ofText_eq u.start u.text c hlast hblank
  rw [ofToken, hstop, heq]
  exact ⟨standsAt_of_mem ht hu, rfl, c, hlast, ne_of_isBlankChar hblank (by decide)⟩

theorem standsOn_commentNote {u : Token} (hu : u ∈ ts) (hk : u.kind = .comment) :
    u.commentNote.2.StandsOn source u.start.line := by
  obtain ⟨i, hi⟩ := List.getElem?_of_mem hu
  obtain ⟨y, -, hy, hlf, -⟩ := of_comment ht hi hk
  have hstands := standsAt_of_mem ht hu
  have hle : u.start.line ≤ (splitLines source).length :=
    (hstands.char (i := 0) (c := '#') (by rw [hy]; rfl)).line_advanceBy_le rfl (by decide)
  refine ⟨hstands.one_le_line, hle, hstands.isPrefix_lineText ?_ ?_, fun h => Bool.noConfusion h⟩
  · simp [hy, hlf]
  · exact getLast?_ne_of_comment ht hu hk

theorem Notes.standIn_ofTokens : (ofTokens ts).StandIn source := by
  refine ((standIn_empty source).insertAll ?_).insertAll ?_
  · intro n note hmem
    obtain ⟨u, hu, heq⟩ := List.mem_map.1 hmem
    obtain ⟨hu, hk⟩ := List.mem_filter.1 hu
    obtain ⟨rfl, rfl⟩ := Prod.mk.inj heq
    exact standsOn_commentNote ht hu (by simpa using hk)
  · intro n note hmem
    obtain ⟨d, hd, hmem⟩ := List.mem_flatMap.1 hmem
    obtain ⟨u, hu, hk, rfl⟩ := Literal.exists_token_of_mem_standaloneFrom hd
    exact (Literal.isSliceOf_ofToken ht hu (by rw [hk]; rfl)).standsOn hmem

end Tokenize

/-! ### Notes from lines -/

/-- The contents of the entries are on `lines`, the first of which is line `n`, and their literals
reach over them. -/
def StandOnLines (n : ℕ) (lines : List Text) (es : List (ℕ × Note)) : Prop :=
  ∀ e ∈ es, ∃ i line, e.1 = n + i ∧ lines[i]? = some line ∧
    e.2.content <+: line.drop e.2.column ∧
      ∀ x, e.2.extent = some x → x.start.line ≤ e.1 ∧ e.1 ≤ x.stop.line

theorem standOnLines_nil (n : ℕ) (lines : List Text) : StandOnLines n lines [] := by
  intro e he
  simp at he

theorem StandOnLines.append {n : ℕ} {ls ms : List Text} {es fs : List (ℕ × Note)}
    (h : StandOnLines n ls es) (h' : StandOnLines (n + ls.length) ms fs) :
    StandOnLines n (ls ++ ms) (es ++ fs) := by
  intro e he
  rcases List.mem_append.1 he with he | he
  · obtain ⟨i, line, hi, hline, hstands⟩ := h e he
    have hlt := (List.getElem?_eq_some_iff.1 hline).1
    exact ⟨i, line, hi, by rwa [List.getElem?_append_left hlt], hstands⟩
  · obtain ⟨i, line, hi, hline, hstands⟩ := h' e he
    refine ⟨ls.length + i, line, by omega, ?_, hstands⟩
    rwa [List.getElem?_append_right (Nat.le_add_right ..), Nat.add_sub_cancel_left]

theorem standOnLines_comment (n : ℕ) (line : Text) :
    StandOnLines n [line] (commentNote? n line).toList := by
  intro e he
  obtain ⟨column, -, rfl⟩ := Option.map_eq_some_iff.1 (Option.mem_toList.1 he)
  exact ⟨0, line, rfl, rfl, Text.trimEnd_isPrefix .., by simp⟩

theorem standOnLines_block {n column : ℕ} {line : Text} {below : List Text} {extent : Extent}
    (hstart : extent.start.line = n) (hstop : extent.stop.line = n + below.length) :
    StandOnLines n (line :: below) (blockNotes n column (line.drop column) below extent) := by
  intro e he
  rcases List.mem_cons.1 he with rfl | he
  · refine ⟨0, line, rfl, rfl, Text.trimEnd_isPrefix .., fun x hx => ?_⟩
    obtain rfl : extent = x := by simpa using hx
    simp only
    omega
  · obtain ⟨i, hi, rfl⟩ := List.mem_mapIdx.1 he
    refine ⟨i + 1, below[i], by simp only; omega, List.getElem?_eq_getElem hi,
      Text.trimEnd_isPrefix .., fun x hx => ?_⟩
    obtain rfl : extent = x := by simpa using hx
    simp only
    omega

theorem standOnLines_lineNotes (before : List Text) (inCode : Option Text) (n : ℕ)
    (lines : List Text) : StandOnLines n lines (lineNotes before inCode n lines) :=
  lineNotes_induction standOnLines_nil StandOnLines.append standOnLines_comment standOnLines_block
    before inCode n lines

theorem Notes.standIn_ofLines (source : Text) : (ofLines source).StandIn source := by
  intro n note hget
  have hmem := get?_ofLines_eq_some_iff.1 hget
  have hsound := notesOn_lineNotes [] none 1 ((splitLines source).map Line.text)
  obtain ⟨i, line, hi, hline, hprefix, hreach⟩ :=
    standOnLines_lineNotes [] none 1 ((splitLines source).map Line.text) _ hmem
  obtain rfl : n = i + 1 := by simp only at hi; omega
  rw [List.getElem?_map] at hline
  obtain ⟨l, hl, rfl⟩ := Option.map_eq_some_iff.1 hline
  have hlt := (List.getElem?_eq_some_iff.1 hl).1
  refine ⟨by omega, by omega, ?_, fun hk => ?_⟩
  · rw [lineText, hl]
    exact hprefix
  · obtain ⟨x, hx⟩ := hsound.literal _ hmem hk
    exact ⟨x, hx, hreach x hx⟩

/-! ## Counting -/

theorem letters_le (ls : List Line) : letters ls ≤ (joinLines ls).length := by
  have hshift : ∀ ls, letters ls = ∑ i ∈ Finset.range ls.length, (lineText ls (i + 1)).length := by
    intro ls
    rw [letters, Finset.range_eq_Ico, Finset.sum_Ico_add' (fun n => (lineText ls n).length)]
    rfl
  induction ls with
  | nil => simp [letters]
  | cons l ls ih =>
    have htail : ∀ i, lineText (l :: ls) (i + 1 + 1) = lineText ls (i + 1) := fun i => rfl
    rw [hshift, List.length_cons, Finset.sum_range_succ']
    simp only [htail, ← hshift]
    have hfirst : lineText (l :: ls) (0 + 1) = l.text := rfl
    rw [joinLines_cons, hfirst, List.length_append, Line.chars, List.length_append]
    omega

theorem eraseDups_sublist {α : Type} [BEq α] (l : List α) :
    l.eraseDups.Sublist l := by
  induction hn : l.length using Nat.strong_induction_on generalizing l with
  | _ n ih =>
    cases l with
    | nil => simp
    | cons a as =>
      have hle := List.length_filter_le (fun b => !b == a) as
      rw [List.length_cons] at hn
      rw [List.eraseDups_cons]
      exact ((ih _ (by omega) _ rfl).trans List.filter_sublist).cons_cons a

/-- Equal contents are counted once, so no more is counted than stands in the notes. -/
theorem Notes.letterCount_le_sum (ns : Notes) :
    ns.letterCount ≤ (ns.toList.map fun e => e.2.content.length).sum := by
  have hsum : ∀ l : List Text, l.foldr (fun t n => t.length + n) 0 = (l.map List.length).sum := by
    intro l
    rw [List.sum_eq_foldr, List.foldr_map]
  have hsub := (eraseDups_sublist (ns.toList.map (·.2.content))).map List.length
  rw [letterCount, hsum]
  have hle := hsub.sum_le_sum fun _ _ => Nat.zero_le _
  rwa [List.map_map] at hle

theorem Notes.nodup_lines (ns : Notes) : (ns.toList.map Prod.fst).Nodup :=
  List.pairwise_map.2 (ns.ascending.imp Nat.ne_of_lt)

theorem Notes.size_eq_card (ns : Notes) : ns.size = (ns.toList.map Prod.fst).toFinset.card := by
  rw [List.toFinset_card_of_nodup ns.nodup_lines, List.length_map, size]

section StandIn

variable {source : Text} {ns : Notes} (h : ns.StandIn source)
include h

theorem Notes.StandIn.of_mem {e : ℕ × Note} (he : e ∈ ns.toList) : e.2.StandsOn source e.1 :=
  h _ _ (get?_eq_some_iff.2 he)

theorem Notes.StandIn.lines_subset :
    (ns.toList.map Prod.fst).toFinset ⊆ Finset.Icc 1 (splitLines source).length := by
  intro n hn
  obtain ⟨e, he, rfl⟩ := List.mem_map.1 (List.mem_toFinset.1 hn)
  have hstands := h.of_mem he
  exact Finset.mem_Icc.2 ⟨hstands.one_le, hstands.le_length⟩

/-- There are no more notes than lines. -/
theorem Notes.StandIn.size_le : ns.size ≤ (splitLines source).length := by
  calc
    ns.size = (ns.toList.map Prod.fst).toFinset.card := ns.size_eq_card
    _ ≤ (Finset.Icc 1 (splitLines source).length).card := Finset.card_le_card h.lines_subset
    _ = (splitLines source).length := by simp

/-- There are no more characters in notes than in the source. -/
theorem Notes.StandIn.letterCount_le : ns.letterCount ≤ source.length := by
  have hcontent : ∀ e ∈ ns.toList,
      e.2.content.length ≤ (lineText (splitLines source) e.1).length := by
    intro e he
    have hle := (h.of_mem he).content.length_le
    rw [List.length_drop] at hle
    omega
  calc
    ns.letterCount ≤ (ns.toList.map fun e => e.2.content.length).sum := ns.letterCount_le_sum
    _ ≤ (ns.toList.map fun e => (lineText (splitLines source) e.1).length).sum :=
      List.sum_le_sum hcontent
    _ = ∑ n ∈ (ns.toList.map Prod.fst).toFinset, (lineText (splitLines source) n).length := by
      rw [List.sum_toFinset _ ns.nodup_lines, List.map_map]
      rfl
    _ ≤ letters (splitLines source) := Finset.sum_le_sum_of_subset h.lines_subset
    _ ≤ (joinLines (splitLines source)).length := letters_le _
    _ = source.length := by rw [joinLines_splitLines]

end StandIn

/-- **Every note is in the source where it says**, so there are fewer notes than lines, the end of
the source counted as one, and no more characters in notes than in the source. -/
theorem notes_standOn {source : Text} {ds : List Literal} (hds : ∀ d ∈ ds, d.IsSliceOf source) :
    (∀ e ∈ ((baseNotes source).1.withDocstrings ds).toList, e.2.StandsOn source e.1) ∧
      ((baseNotes source).1.withDocstrings ds).size < totalLines source ∧
      ((baseNotes source).1.withDocstrings ds).letterCount ≤ source.length := by
  have hbase : (baseNotes source).1.StandIn source := by
    rw [baseNotes]
    split
    · next ts ht => exact Notes.standIn_ofTokens ht
    · exact Notes.standIn_ofLines source
  have hall := hbase.withDocstrings hds
  exact ⟨fun e he => hall.of_mem he, Nat.lt_succ_of_le hall.size_le, hall.letterCount_le⟩

/-- A source that opens with a string on two lines. -/
def documented : Text := "'''a\r\n b''' # c\n".toList

/-- The string in `documented`. -/
def documentation : Literal := .ofText ⟨1, 0⟩ 2 "'''a\r\n b'''".toList

theorem isSliceOf_documentation : documentation.IsSliceOf documented where
  standsAt := ⟨[], " # c\n".toList, rfl, rfl⟩
  stop_eq := by decide
  last := ⟨'\'', by decide, by decide⟩

/-- The notes on `documented`, its string being a docstring. -/
theorem notes_standOn_documented :
    (∀ e ∈ ((baseNotes documented).1.withDocstrings [documentation]).toList,
        e.2.StandsOn documented e.1) ∧
      ((baseNotes documented).1.withDocstrings [documentation]).size < totalLines documented ∧
      ((baseNotes documented).1.withDocstrings [documentation]).letterCount ≤ documented.length :=
  notes_standOn fun _ hd => List.mem_singleton.1 hd ▸ isSliceOf_documentation

end Marginalia
