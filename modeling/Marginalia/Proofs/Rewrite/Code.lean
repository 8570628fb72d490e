import Marginalia.Proofs.Notes
import Marginalia.Proofs.Rewrite.Removal

/-!
# Code stays in its place

When the notes of a token sequence are taken out, with any docstrings laid over them, every token
of code stands in the result where it stood in the source, character by character, or it belongs
to a literal that goes as a whole (`rewrite_keepsCode`). The argument goes by the note on the line
of a character:

* a comment comes after all code of its line (`line_lt_of_comment`), and what is cut off with it
  is white space, because code ends in a visible character (`getElem?_rewriteLine_comment`);
* a literal that goes leaves no code on its lines but its own (`within_of_isRemovable`).
-/

namespace Marginalia

/-! ## Tokens -/

/-- A comment takes nothing of the line up to a visible character before it. -/
theorem getElem?_rewriteLine_comment {lines : List Line} {t : Text} {note : Note} {k m : ℕ}
    {c d : Char} (hkind : note.kind = .comment) (hk : t[k]? = some c) (hm : t[m]? = some d)
    (hd : isBlankChar d = false) (hkm : k ≤ m) (hlt : m < note.column) :
    (rewriteLine lines false t note)[k]? = some c := by
  have hcode : (t.take note.column)[m]? = some d := by rwa [List.getElem?_take_of_lt hlt]
  have hblank : isBlank (t.take note.column) = false := by
    rw [isBlank, List.all_eq_false]
    exact ⟨d, List.mem_of_getElem? hcode, by simp [hd]⟩
  have hspace : isSpace d = false := by
    rw [isBlankChar, Bool.or_eq_false_iff] at hd
    exact hd.1
  have hline : rewriteLine lines false t note =
      Text.trimEnd isSpace (t.take note.column) := by
    simp [rewriteLine, hkind, NoteKind.isString, hblank]
  have hlength := Text.lt_length_trimEnd hcode hspace
  rw [hline, List.prefix_iff_eq_take.1 (Text.trimEnd_isPrefix ..),
    List.getElem?_take_of_lt (by omega), List.getElem?_take_of_lt (by omega), hk]

section Tokenize

variable {source : Text} {ts : List Token} (ht : tokenize source = .ok ts)
include ht

/-- **A literal that goes has no code on its lines but its own.** -/
theorem within_of_isRemovable {d : Literal} {i j k n : ℕ} (hd : d.Runs source ts i j) {u : Token}
    (hu : ts[k]? = some u) (hcu : u.kind.isCode = true) (hn : n ∈ d.lines)
    (hle : u.start.line ≤ n) (hge : n ≤ u.stop.line)
    (h : isRemovable (splitLines source) d.extent = true) :
    d.start ≤ u.start ∧ u.stop ≤ d.stop := by
  -- the token is a literal of its own, with the same places
  have hself := Literal.runs_ofToken ht hu hcu
  obtain ⟨u', u'', -, hu', hu'', -, -, hstart, hstop⟩ := hself.exists_tokens ht
  obtain rfl : u = u' := by simpa [hu] using hu'
  obtain rfl : u = u'' := by simpa [hu] using hu''
  obtain ⟨hn₁, hn₂⟩ := Literal.mem_lines.1 hn
  obtain ⟨v, w, -, hv, hw, hcv, hcw, hdv, hdw⟩ := hd.exists_tokens ht
  have hik : i ≤ k := by
    by_contra hlt
    have := (isRemovable_of_shared ht hself hd (by omega) (by rw [hstop]; omega)).2
    rw [h] at this
    exact Bool.noConfusion this
  have hkj : k ≤ j := by
    by_contra hlt
    have := (isRemovable_of_shared ht hd hself (by omega) (by rw [hstart]; omega)).1
    rw [h] at this
    exact Bool.noConfusion this
  rw [hdv, hdw]
  exact ⟨start_le_start ht hv hu hik, stop_le_stop ht hu hw hcu hcw hkj⟩

/-- Code on the line of a comment ends in front of the comment, in a visible character. -/
theorem exists_last_before_comment {k : ℕ} {u w : Token} (hu : ts[k]? = some u)
    (hcu : u.kind.isCode = true) (hw : w ∈ ts) (hkw : w.kind = .comment)
    (hle : u.start.line ≤ w.start.line) (hge : w.start.line ≤ u.stop.line) :
    ∃ y d, u.text = y ++ [d] ∧ isBlankChar d = false ∧
      (u.start.advanceBy y).line = w.start.line ∧
      (u.start.advanceBy y).column < w.start.column := by
  obtain ⟨r, hr⟩ := List.getElem?_of_mem hw
  have hmem := List.mem_of_getElem? hu
  have hstop := (isCodeText_of_mem ht hmem hcu).1
  have hkr : k < r := by
    rcases Nat.lt_trichotomy k r with hlt | rfl | hlt
    · exact hlt
    · obtain rfl : u = w := by simpa [hu] using hr
      rw [hkw] at hcu
      exact Bool.noConfusion hcu
    · have := line_lt_of_comment ht hr hkw hu hcu hlt
      omega
  have hbefore : u.stop ≤ w.start := hstop ▸ advanceBy_text_le_start ht hu hr hkr
  obtain ⟨y, d, hy, hblank, hend⟩ := exists_last_of_mem ht hmem hcu
  rw [hend] at hge hbefore
  rw [Position.le_iff] at hbefore
  simp only at hge hbefore
  exact ⟨y, d, hy, hblank, by omega, by omega⟩

/-- The characters of code stand on the lines from its first to its last. -/
theorem line_advanceBy_take {u : Token} (hu : u ∈ ts) (hcu : u.kind.isCode = true) (m : ℕ) :
    u.start.line ≤ (u.start.advanceBy (u.text.take m)).line ∧
      (u.start.advanceBy (u.text.take m)).line ≤ u.stop.line := by
  refine ⟨Position.line_le (Position.le_advanceBy ..), Position.line_le ?_⟩
  have hle := Position.le_advanceBy (u.start.advanceBy (u.text.take m)) (u.text.drop m)
  rwa [← Position.advanceBy_append, List.take_append_drop,
    ← (isCodeText_of_mem ht hu hcu).1] at hle

/-- What a comment takes from its line leaves the code before it. -/
theorem getElem?_rewriteLine_before_comment {k : ℕ} {u w : Token} (hu : ts[k]? = some u)
    (hcu : u.kind.isCode = true) (hw : w ∈ ts) (hkw : w.kind = .comment) {i : ℕ} {l : Line}
    (hl : (splitLines source)[i]? = some l) (hwi : w.start.line = i + 1) {m : ℕ} {c : Char}
    (hm : u.text[m]? = some c) (hline : (u.start.advanceBy (u.text.take m)).line = i + 1)
    (hc : l.chars[(u.start.advanceBy (u.text.take m)).column]? = some c) :
    (rewriteLine (splitLines source) false l.text w.commentNote.2)[
      (u.start.advanceBy (u.text.take m)).column]? = some c := by
  have hmem := List.mem_of_getElem? hu
  obtain ⟨hle, hge⟩ := line_advanceBy_take ht hmem hcu m
  obtain ⟨y, d, hy, hblank, hdline, hdcol⟩ :=
    exists_last_before_comment ht hu hcu hw hkw (by omega) (by omega)
  -- the last character of the token is on the same line
  have hd := (standsAt_of_mem ht hmem).char (i := y.length) (c := d) (by simp [hy])
  rw [hy, List.take_left] at hd
  obtain ⟨i', l', hline', hl', hd⟩ := exists_line_of_standsAt hd
  obtain rfl : i' = i := by omega
  obtain rfl : l' = l := by simpa [hl] using hl'.symm
  have hdtext := getElem?_text_of_chars hd (ne_of_isBlankChar hblank (by decide))
    (ne_of_isBlankChar hblank (by decide))
  -- and it comes after the one in question
  have hcol : (u.start.advanceBy (u.text.take m)).column ≤ (u.start.advanceBy y).column := by
    have hmy : m ≤ y.length := by
      have := (List.getElem?_eq_some_iff.1 hm).1
      rw [hy, List.length_append] at this
      exact Nat.le_of_lt_succ this
    have hle' := Position.le_advanceBy (u.start.advanceBy (u.text.take m)) (y.drop m)
    rw [← Position.advanceBy_append, hy, List.take_append_of_le_length hmy,
      List.take_append_drop, Position.le_iff] at hle'
    rw [hy, List.take_append_of_le_length hmy] at hline ⊢
    omega
  have hlt := (List.getElem?_eq_some_iff.1 hdtext).1
  rw [Line.chars, List.getElem?_append_left (by omega)] at hc
  exact getElem?_rewriteLine_comment rfl hc hdtext hblank hcol hdcol

/-- A character of code stays in the text of its line, or the line stays, unless the note on the
line is that of a literal that goes. -/
theorem exists_rewrittenText_of_note {ds : List Literal} {k : ℕ} {u : Token}
    (hu : ts[k]? = some u) (hcu : u.kind.isCode = true) {m : ℕ} {c : Char}
    (hm : u.text[m]? = some c)
    (hstay : ∀ note e, ((Notes.ofTokens ts).withDocstrings ds).get?
      (u.start.advanceBy (u.text.take m)).line = some note → note.kind.isString = true →
        note.extent = some e → isRemovable (splitLines source) e = false) :
    ∃ i l, (u.start.advanceBy (u.text.take m)).line = i + 1 ∧ (splitLines source)[i]? = some l ∧
      l.chars[(u.start.advanceBy (u.text.take m)).column]? = some c ∧
      (rewrittenText (splitLines source) ((Notes.ofTokens ts).withDocstrings ds) false (i + 1)
          l.text = l.text ∨
        (rewrittenText (splitLines source) ((Notes.ofTokens ts).withDocstrings ds) false (i + 1)
          l.text)[(u.start.advanceBy (u.text.take m)).column]? = some c) := by
  have hmem := List.mem_of_getElem? hu
  obtain ⟨i, l, hline, hl, hc⟩ := exists_line_of_standsAt ((standsAt_of_mem ht hmem).char hm)
  refine ⟨i, l, hline, hl, hc, ?_⟩
  rw [hline] at hstay
  rw [rewrittenText]
  have hfound := Notes.foundAt ts ds (i + 1)
  generalize ((Notes.ofTokens ts).withDocstrings ds).get? (i + 1) = found at hfound hstay ⊢
  cases hfound with
  | docstring _ _ hk he =>
    have hkind := congrArg NoteKind.isString hk
    exact Or.inl (rewriteLine_of_not_removable hkind he (hstay _ _ rfl hkind he))
  | standalone _ _ _ hk he =>
    have hkind := congrArg NoteKind.isString hk
    exact Or.inl (rewriteLine_of_not_removable hkind he (hstay _ _ rfl hkind he))
  | comment _ _ hw hkw hn =>
    exact Or.inr (getElem?_rewriteLine_before_comment ht hu hcu hw hkw hl hn hm hline hc)
  | nothing => exact Or.inl rfl

/-- A character of code stays, unless the note on its line is that of a literal that goes. -/
theorem standsAt_rewrite_char_of_note {ds : List Literal} {k : ℕ} {u : Token}
    (hu : ts[k]? = some u) (hcu : u.kind.isCode = true) {m : ℕ} {c : Char}
    (hm : u.text[m]? = some c)
    (hstay : ∀ note e, ((Notes.ofTokens ts).withDocstrings ds).get?
      (u.start.advanceBy (u.text.take m)).line = some note → note.kind.isString = true →
        note.extent = some e → isRemovable (splitLines source) e = false) :
    Text.StandsAt (rewrite source ((Notes.ofTokens ts).withDocstrings ds) false).content [c]
      (u.start.advanceBy (u.text.take m)) := by
  obtain ⟨i, l, hline, hl, hc, h⟩ := exists_rewrittenText_of_note ht hu hcu hm hstay
  have hpos : u.start.advanceBy (u.text.take m) =
      ⟨i + 1, (u.start.advanceBy (u.text.take m)).column⟩ := by
    rw [← hline]
  rw [hpos]
  exact standsAt_rewrite hl hc h

/-- A character of code stays, unless its token belongs to a literal that goes. -/
theorem standsAt_rewrite_char {ds : List Literal}
    (hds : ∀ d ∈ ds, ∃ i j, d.Runs source ts i j) {k : ℕ} {u : Token} (hu : ts[k]? = some u)
    (hcu : u.kind.isCode = true)
    (hno : ∀ d ∈ standaloneStrings ts ++ ds, isRemovable (splitLines source) d.extent = true →
      ¬ (d.start ≤ u.start ∧ u.stop ≤ d.stop))
    {m : ℕ} {c : Char} (hm : u.text[m]? = some c) :
    Text.StandsAt (rewrite source ((Notes.ofTokens ts).withDocstrings ds) false).content [c]
      (u.start.advanceBy (u.text.take m)) := by
  obtain ⟨hle, hge⟩ := line_advanceBy_take ht (List.mem_of_getElem? hu) hcu m
  refine standsAt_rewrite_char_of_note ht hu hcu hm fun note x hget hkind hx => ?_
  obtain ⟨d, hd, hn, rfl⟩ := Notes.exists_literal hget hkind hx
  obtain ⟨a, b, hruns⟩ := Literal.exists_runs_of_mem ht hds hd
  by_contra hrem
  rw [Bool.not_eq_false] at hrem
  exact hno d hd hrem (within_of_isRemovable ht hruns hu hcu hn hle hge hrem)

end Tokenize

/-- **Code stays in its place.** When the notes of the tokens and of any literals between tokens
are taken out, a token of code stands in the result where it stood in the source, or it lies
inside a recorded literal that goes. -/
theorem rewrite_keepsCode {source : Text} {ts : List Token} (ht : tokenize source = .ok ts)
    {ds : List Literal} (hds : ∀ d ∈ ds, ∃ i j, d.Runs source ts i j) {u : Token} (hu : u ∈ ts)
    (hc : u.kind.isCode = true) :
    (Text.StandsAt source u.text u.start ∧
      Text.StandsAt (rewrite source ((Notes.ofTokens ts).withDocstrings ds) false).content
        u.text u.start) ∨
    ∃ d ∈ standaloneStrings ts ++ ds, isRemovable (splitLines source) d.extent = true ∧
      d.start ≤ u.start ∧ u.stop ≤ d.stop := by
  by_cases hin : ∃ d ∈ standaloneStrings ts ++ ds,
      isRemovable (splitLines source) d.extent = true ∧ d.start ≤ u.start ∧ u.stop ≤ d.stop
  · exact Or.inr hin
  · obtain ⟨k, hk⟩ := List.getElem?_of_mem hu
    refine Or.inl ⟨standsAt_of_mem ht hu, ?_⟩
    refine Text.standsAt_of_getElem? (isCodeText_of_mem ht hu hc).2.ne_nil fun m c hm => ?_
    exact standsAt_rewrite_char ht hds hk hc (fun d hd hrem h => hin ⟨d, hd, hrem, h⟩) hm

/-- A source of a string and an assignment with a comment. -/
def assignment : Text := "'a'\nb = 1 # c\n".toList

/-- The tokens of `assignment`. -/
def assignmentTokens : List Token :=
  [.at .string "'a'".toList ⟨1, 0⟩, ⟨.newline, ['\n'], ⟨1, 3⟩, ⟨1, 4⟩⟩, .at .name ['b'] ⟨2, 0⟩,
   .at .op ['='] ⟨2, 2⟩, .at .number ['1'] ⟨2, 4⟩, .at .comment "# c".toList ⟨2, 6⟩,
   ⟨.newline, ['\n'], ⟨2, 9⟩, ⟨2, 10⟩⟩, .at .endMarker [] ⟨3, 0⟩]

theorem tokenize_assignment : tokenize assignment = .ok assignmentTokens := by
  decide +kernel

theorem runs_assignment {d : Literal} (h : d ∈ [Literal.ofText ⟨1, 0⟩ 1 "'a'".toList]) :
    ∃ i j, d.Runs assignment assignmentTokens i j := by
  obtain rfl := List.mem_singleton.1 h
  have hu : assignmentTokens[0]? = some (.at .string "'a'".toList ⟨1, 0⟩) := rfl
  exact ⟨0, 0, Literal.runs_ofToken tokenize_assignment hu rfl⟩

/-- With the string as its docstring, the number of `assignment` stays in its place. -/
theorem rewrite_keepsCode_assignment :
    (Text.StandsAt assignment ['1'] ⟨2, 4⟩ ∧
      Text.StandsAt (rewrite assignment ((Notes.ofTokens assignmentTokens).withDocstrings
        [Literal.ofText ⟨1, 0⟩ 1 "'a'".toList]) false).content ['1'] ⟨2, 4⟩) ∨
    ∃ d ∈ standaloneStrings assignmentTokens ++ [Literal.ofText ⟨1, 0⟩ 1 "'a'".toList],
      isRemovable (splitLines assignment) d.extent = true ∧
        d.start ≤ ⟨2, 4⟩ ∧ (⟨2, 5⟩ : Position) ≤ d.stop :=
  rewrite_keepsCode tokenize_assignment (fun _ => runs_assignment)
    (u := .at .number ['1'] ⟨2, 4⟩) (by decide) rfl

end Marginalia
