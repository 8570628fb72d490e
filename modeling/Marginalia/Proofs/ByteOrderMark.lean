import Marginalia.Analysis
import Marginalia.Proofs.Docstring
import Marginalia.Proofs.Notes.Shift
import Marginalia.Proofs.Rewrite.Lines

/-!
# A byte order mark in front of a source

A byte order mark in front of a source changes where the first line begins, and that it is counted
as a character. The tokens and the docstrings are looked for behind it, the lines are read with it,
and a line that is emptied keeps it; `seesThroughMark` puts together that all of them agree on every
path, so that the mark can be put in front of a source before it is analysed or stripped, or
afterwards. As the mark is counted, the share of commentary in the letters of the source does change
(`not_letterRatio_mark`).
-/

namespace Marginalia

/-! ## Tokens and docstrings -/

theorem splitByteOrderMark_of_head? {source : Text} (h : source.head? ≠ some byteOrderMark) :
    splitByteOrderMark source = (source, 0) := by
  rw [splitByteOrderMark.eq_2]
  rintro r rfl
  exact h rfl

section Source

variable {source : Text} (h : source.head? ≠ some byteOrderMark)
include h

/-- The tokens of a source behind a byte order mark. -/
theorem tokenize_mark : tokenize (byteOrderMark :: source) =
    (tokenize source).map (List.map (Token.move (Position.shiftFirstLine 1))) := by
  have hmove := scan_move (Position.isMove_shiftFirstLine 1) (p := ⟨1, 0⟩) (Nat.le_refl 1)
    Layout.initial source
  have hsource : tokenize source = scan .initial ⟨1, 0⟩ source := by
    rw [tokenize, splitByteOrderMark_of_head? h]
  rw [hsource]
  show scan .initial (Position.shiftFirstLine 1 ⟨1, 0⟩) source = _
  rw [hmove]
  cases scan .initial ⟨1, 0⟩ source with
  | error e => simp [Except.mapError, Except.map, LexicalError.moveDown_zero]
  | ok ts => rfl

theorem docstrings_mark (parse : Parser) : docstrings parse (byteOrderMark :: source) =
    (docstrings parse source).map (List.map (Literal.shiftFirstLine 1)) := by
  have hmark : splitByteOrderMark (byteOrderMark :: source) = (source, 1) := rfl
  rw [docstrings, docstrings, splitByteOrderMark_of_head? h, hmark]
  simp only [Literal.shiftFirstLine_zero, List.map_id']
  cases parse source with
  | error e => rfl
  | ok root =>
    simp only [bind, Except.bind]
    split
    · rfl
    · rfl

end Source

/-! ## Analysis -/

section Analysis

variable (parse : Parser) {source : Text} (hne : source ≠ [])
  (h : source.head? ≠ some byteOrderMark)
include hne h

theorem baseNotes_mark :
    (baseNotes (byteOrderMark :: source)).1.toList =
      (baseNotes source).1.toList.map (Notes.shiftEntry 1) ∧
    (baseNotes (byteOrderMark :: source)).2 = (baseNotes source).2 := by
  rw [baseNotes, baseNotes, tokenize_mark h]
  cases ht : tokenize source with
  | error e => exact ⟨Notes.ofLines_mark hne, rfl⟩
  | ok ts =>
    refine ⟨Notes.ofTokens_move 1 fun t hmem hk => ?_, rfl⟩
    have hcode := isCodeText_of_mem ht hmem (by rw [hk]; rfl)
    exact ⟨(standsAt_of_mem ht hmem).one_le_line, by rw [hcode.1]⟩

theorem analyze_mark :
    (analyze parse (byteOrderMark :: source)).notes.toList =
      (analyze parse source).notes.toList.map (Notes.shiftEntry 1) ∧
    (analyze parse (byteOrderMark :: source)).reading = (analyze parse source).reading := by
  obtain ⟨hnotes, hreading⟩ := baseNotes_mark hne h
  simp only [analyze, docstrings_mark h]
  cases hds : docstrings parse source with
  | error e => exact ⟨hnotes, by simp only [Except.map, hreading]⟩
  | ok ds =>
    refine ⟨?_, by simp only [Except.map, hreading]⟩
    exact Notes.withDocstrings_shift hnotes fun d hd => one_le_line_of_mem_docstrings hds hd

end Analysis

/-! ## Rewriting -/

section Rewrite

variable (lines : List Line)

theorem lineText_mark {n : ℕ} (hn : n ≠ 1) :
    lineText (Line.push byteOrderMark lines) n = lineText lines n := by
  cases n with
  | zero => rfl
  | succ n => exact lineText_push_of_lt _ _ (by omega)

theorem drop_lineText_mark (p : Position) :
    (lineText (Line.push byteOrderMark lines) (p.shiftFirstLine 1).line).drop
        (p.shiftFirstLine 1).column = (lineText lines p.line).drop p.column := by
  rw [Position.shiftFirstLine]
  split
  · next h => rw [lineText_push_one, h, List.drop_succ_cons]
  · next h => rw [lineText_mark lines h]

theorem isBlank_mark (t : Text) : isBlank (byteOrderMark :: t) = isBlank t := by
  rw [isBlank, List.all_cons, show isBlankChar byteOrderMark = true by decide, Bool.true_and]
  rfl

theorem isBlank_take_lineText_mark (p : Position) :
    isBlank ((lineText (Line.push byteOrderMark lines) (p.shiftFirstLine 1).line).take
      (p.shiftFirstLine 1).column) = isBlank ((lineText lines p.line).take p.column) := by
  rw [Position.shiftFirstLine]
  split
  · next h => rw [lineText_push_one, h, List.take_succ_cons, isBlank_mark]
  · next h => rw [lineText_mark lines h]

theorem isRemovable_mark (e : Extent) :
    isRemovable (Line.push byteOrderMark lines) (e.move (Position.shiftFirstLine 1)) =
      isRemovable lines e := by
  simp only [isRemovable, Extent.move, drop_lineText_mark, isBlank_take_lineText_mark]

theorem hasEvenQuotes_mark (t : Text) : hasEvenQuotes (byteOrderMark :: t) = hasEvenQuotes t := by
  rw [hasEvenQuotes, List.filter_cons_of_neg (by decide)]
  rfl

/-- What stays of line 1 stays behind the mark. -/
theorem rewriteLine_mark_one (verify : Bool) {t : Text} (ht : t.head? ≠ some byteOrderMark)
    (note : Note) :
    rewriteLine (Line.push byteOrderMark lines) verify (byteOrderMark :: t)
        (note.shiftFirstLine 1 1) = byteOrderMark :: rewriteLine lines verify t note := by
  have hblanked : blanked (byteOrderMark :: t) = byteOrderMark :: blanked t := by
    cases t with
    | nil => rfl
    | cons c r =>
      rw [blanked, blanked, if_pos rfl, if_neg fun hc => ht (congrArg some hc)]
  have hcode : (byteOrderMark :: t).take (note.column + 1) = byteOrderMark :: t.take note.column :=
    List.take_succ_cons
  have hcolumn : (note.shiftFirstLine 1 1).column = note.column + 1 := rfl
  simp only [rewriteLine, hcolumn, hcode, isBlank_mark, hasEvenQuotes_mark,
    Text.trimEnd_isSpace_mark, hblanked, show (note.shiftFirstLine 1 1).kind = note.kind from rfl,
    show (note.shiftFirstLine 1 1).extent =
      note.extent.map (Extent.move (Position.shiftFirstLine 1)) from rfl]
  cases note.extent with
  | none =>
    simp only [Option.map_none]
    split_ifs <;> rfl
  | some e =>
    simp only [Option.map_some, isRemovable_mark]
    split_ifs <;> rfl

/-- The lines below line 1 are rewritten as they are without the mark. -/
theorem rewriteLine_mark {n : ℕ} (hn : 1 < n) (verify : Bool) (t : Text) (note : Note) :
    rewriteLine (Line.push byteOrderMark lines) verify t (note.shiftFirstLine 1 n) =
      rewriteLine lines verify t note := by
  have hcolumn : (note.shiftFirstLine 1 n).column = note.column := by
    rw [Note.shiftFirstLine, Position.shiftFirstLine, if_neg (Nat.ne_of_gt hn)]
  simp only [rewriteLine, hcolumn, show (note.shiftFirstLine 1 n).kind = note.kind from rfl,
    show (note.shiftFirstLine 1 n).extent =
      note.extent.map (Extent.move (Position.shiftFirstLine 1)) from rfl]
  cases note.extent with
  | none => rfl
  | some e => simp only [Option.map_some, isRemovable_mark]

variable {lines} {ns ns' : Notes} (hns : ns'.toList = ns.toList.map (Notes.shiftEntry 1))
include hns

theorem rewriteLines_mark (verify : Bool) {n : ℕ} (hn : 1 < n) (previous : Terminator)
    (ls : List Line) :
    rewriteLines (Line.push byteOrderMark lines) ns' verify n previous ls =
      rewriteLines lines ns verify n previous ls := by
  have htext : ∀ m, 1 < m → ∀ t, rewrittenText (Line.push byteOrderMark lines) ns' verify m t =
      rewrittenText lines ns verify m t := by
    intro m hm t
    rw [rewrittenText, rewrittenText, Notes.get?_of_shiftEntry hns]
    cases ns.get? m with
    | none => rfl
    | some note => exact rewriteLine_mark lines hm verify t note
  induction ls generalizing n previous with
  | nil => rfl
  | cons l ls ih =>
    simp only [rewriteLines, htext n hn, ih (Nat.lt_succ_of_lt hn)]

theorem rewrittenText_mark_one (verify : Bool) {t : Text} (ht : t.head? ≠ some byteOrderMark) :
    rewrittenText (Line.push byteOrderMark lines) ns' verify 1 (byteOrderMark :: t) =
      byteOrderMark :: rewrittenText lines ns verify 1 t := by
  rw [rewrittenText, rewrittenText, Notes.get?_of_shiftEntry hns]
  cases ns.get? 1 with
  | none => rfl
  | some note => exact rewriteLine_mark_one lines verify ht note

/-- The rewritten lines differ in the first one only, which the mark keeps from being empty. -/
theorem rewriteLines_push_mark (verify : Bool) {l : Line} (hl : l.text.head? ≠ some byteOrderMark)
    (ls : List Line) :
    rewriteLines (Line.push byteOrderMark lines) ns' verify 1 .lf
        (Line.push byteOrderMark (l :: ls)) =
      ⟨byteOrderMark :: rewrittenText lines ns verify 1 l.text, l.terminator⟩ ::
        rewriteLines lines ns verify 2 l.terminator ls := by
  rw [Line.push, rewriteLines, rewrittenText_mark_one hns verify hl,
    rewriteLines_mark hns verify (by omega), keptTerminator, if_neg (by simp)]

end Rewrite

theorem splitLines_mark (source : Text) :
    splitLines (byteOrderMark :: source) = Line.push byteOrderMark (splitLines source) :=
  splitLines_cons (by decide) fun hc => absurd hc (by decide)

/-- **Rewriting behind a byte order mark.** A last line that becomes empty takes over a line break,
which the mark makes needless. -/
theorem rewrite_mark {source : Text} (hne : source ≠ [])
    (h : source.head? ≠ some byteOrderMark) {ns ns' : Notes}
    (hns : ns'.toList = ns.toList.map (Notes.shiftEntry 1)) (verify : Bool) :
    (rewrite (byteOrderMark :: source) ns' verify).content =
        (if '\n' ∉ source ∧ lineText (splitLines (rewrite source ns verify).content) 1 = [] then
          [byteOrderMark]
        else byteOrderMark :: (rewrite source ns verify).content) ∧
      (rewrite (byteOrderMark :: source) ns' verify).removed = (rewrite source ns verify).removed ∧
      (rewrite (byteOrderMark :: source) ns' verify).total = (rewrite source ns verify).total := by
  obtain ⟨l, ls, hlines, hprefix, hlast, hterm⟩ := exists_splitLines_eq_cons hne
  have hhead : l.text.head? ≠ some byteOrderMark := by
    intro hc
    obtain ⟨t, ht⟩ := List.head?_eq_some_iff.1 hc
    obtain ⟨r, rfl⟩ := hprefix
    exact h (by rw [ht]; rfl)
  have hone : lineText (splitLines (rewrite source ns verify).content) 1 =
      rewrittenText (l :: ls) ns verify 1 l.text := by
    rw [lineText_rewrite, hlines, if_neg (by simp)]
    rfl
  rw [hone]
  simp only [← hterm, rewrite, splitLines_mark, hlines,
    rewriteLines_push_mark hns verify hhead ls, rewriteLines]
  generalize rewrittenText (l :: ls) ns verify 1 l.text = text
  refine ⟨?_, ?_, ?_⟩
  · by_cases hempty : l.terminator = .none ∧ text = []
    · rw [if_pos hempty, hlast hempty.1, hempty.1, hempty.2]
      rfl
    · rw [if_neg hempty, keptTerminator, if_neg hempty, joinLines_cons, joinLines_cons]
      rfl
  · by_cases hsame : l.text = text
    · simp [changedLines, Line.push, hsame]
    · simp [changedLines, Line.push, hsame]
  · simp [totalLines, splitLines_mark, hlines, Line.push]

/-! ## The whole pipeline -/

/-- A byte order mark in front of the source moves what stands on its first line one column to the
right, and counts as one character. Nothing else changes, neither the tokens or the error, nor the
analysis, nor what is removed. The mark stays in front of what is left of the source, also when that
is nothing. -/
structure SeesThroughMark (parse : Parser) (source : Text) : Prop where
  tokenize_eq : tokenize (byteOrderMark :: source) =
    (tokenize source).map (List.map (Token.move (Position.shiftFirstLine 1)))
  reading_eq : (analyze parse (byteOrderMark :: source)).reading = (analyze parse source).reading
  notes_eq : (analyze parse (byteOrderMark :: source)).notes.toList =
    (analyze parse source).notes.toList.map (Notes.shiftEntry 1)
  statistics_eq : (analyze parse (byteOrderMark :: source)).statistics =
    .ofCounts (analyze parse source).statistics.commentLines
      (analyze parse source).statistics.totalLines
      (analyze parse source).statistics.commentLetters
      ((analyze parse source).statistics.totalLetters + 1)
  lineRatio_eq : (analyze parse (byteOrderMark :: source)).statistics.lineRatio =
    (analyze parse source).statistics.lineRatio
  /-- The same letters are a share of one more. -/
  letterRatio_eq : (analyze parse (byteOrderMark :: source)).statistics.letterRatio =
    percentage (analyze parse source).statistics.commentLetters
      ((analyze parse source).statistics.totalLetters + 1)
  removed_eq : (strip parse (byteOrderMark :: source)).removed = (strip parse source).removed
  total_eq : (strip parse (byteOrderMark :: source)).total = (strip parse source).total
  /-- A last line that becomes empty takes over a line break, which the mark makes needless. -/
  content_eq : (strip parse (byteOrderMark :: source)).content =
    if '\n' ∉ source ∧ lineText (splitLines (strip parse source).content) 1 = [] then
      [byteOrderMark]
    else byteOrderMark :: (strip parse source).content

theorem statistics_mark (parse : Parser) {source : Text} (hne : source ≠ [])
    (h : source.head? ≠ some byteOrderMark) :
    (analyze parse (byteOrderMark :: source)).statistics =
      .ofCounts (analyze parse source).statistics.commentLines
        (analyze parse source).statistics.totalLines
        (analyze parse source).statistics.commentLetters
        ((analyze parse source).statistics.totalLetters + 1) := by
  have hnotes := (analyze_mark parse hne h).1
  have hstatistics : ∀ t, (analyze parse t).statistics =
      Statistics.compute (analyze parse t).notes t := fun t => rfl
  obtain ⟨l, ls, hlines, -⟩ := exists_splitLines_eq_cons hne
  have htotal : totalLines (byteOrderMark :: source) = totalLines source := by
    simp [totalLines, splitLines_mark, hlines, Line.push]
  rw [hstatistics, hstatistics, Statistics.compute, Statistics.compute, Notes.size, hnotes,
    List.length_map, Notes.letterCount_of_shiftEntry hnotes, htotal]
  rfl

/-- **A byte order mark is seen through**, and counted. -/
theorem seesThroughMark (parse : Parser) {source : Text} (hne : source ≠ [])
    (h : source.head? ≠ some byteOrderMark) : SeesThroughMark parse source := by
  obtain ⟨hnotes, hreading⟩ := analyze_mark parse hne h
  have hstatistics := statistics_mark parse hne h
  obtain ⟨hcontent, hremoved, htotal⟩ :=
    rewrite_mark hne h hnotes (!(analyze parse (byteOrderMark :: source)).reading.tokens)
  have hstrip : rewrite source (analyze parse source).notes
      (!(analyze parse (byteOrderMark :: source)).reading.tokens) = strip parse source := by
    rw [hreading]
    rfl
  rw [hstrip] at hcontent hremoved htotal
  refine ⟨tokenize_mark h, hreading, hnotes, hstatistics, ?_, ?_, hremoved, htotal, hcontent⟩
  · rw [hstatistics, (analyze parse source).statistics.lineRatio_eq]
    rfl
  · rw [hstatistics]
    rfl

/-- A comment without line break. -/
def comment : Text := "# a".toList

/-- The tree of `comment`. -/
def commentTree : SyntaxTree :=
  .named "module" ⟨0, 0⟩ ⟨3, 0⟩ [.named "comment" ⟨0, 0⟩ ⟨3, 0⟩ []]

/-- Of a comment without line break an empty line is left, and behind a mark the mark alone. -/
theorem seesThroughMark_comment :
    SeesThroughMark (.ofTable [(comment, commentTree)]) comment ∧
      (strip (.ofTable [(comment, commentTree)]) comment).content = ['\n'] ∧
      (strip (.ofTable [(comment, commentTree)]) (byteOrderMark :: comment)).content =
        [byteOrderMark] :=
  ⟨seesThroughMark _ (by decide) (by decide), by decide +kernel, by decide +kernel⟩

/-- The mark is a character that is no commentary: of `comment` all letters are, and behind a mark
three out of four. -/
theorem not_letterRatio_mark : ¬ ∀ (parse : Parser) (source : Text), source ≠ [] →
    source.head? ≠ some byteOrderMark →
      (analyze parse (byteOrderMark :: source)).statistics.letterRatio =
        (analyze parse source).statistics.letterRatio := by
  intro h
  have := h (.ofTable [(comment, commentTree)]) comment (by decide) (by decide)
  revert this
  decide +kernel

end Marginalia
