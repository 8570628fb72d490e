import Marginalia.Analysis
import Marginalia.Proofs.Literal
import Marginalia.Proofs.Notes.OfLines
import Marginalia.Proofs.Text.Lines
import Marginalia.Proofs.Token.Scan

/-!
# Notes further to the right

When the first line of a source begins further to the right, its notes do, and so do the ends of
literals on it: `Note.shiftFirstLine` says what becomes of the note on a line. Both readings of a
source agree with it. The tokens do because literals and comments are moved with them
(`Notes.ofTokens_move`), and the lines do although a byte order mark makes the first line code:
the reading trims the mark off, or looks at the other end of the line (`Notes.ofLines_mark`).
-/

namespace Marginalia

/-! ## Notes -/

/-- The extent in the place that `f` carries it to. -/
def Extent.move (f : Position → Position) (e : Extent) : Extent :=
  ⟨f e.start, f e.stop⟩

/-- The note on line `n`, when line 1 begins `width` columns further to the right. -/
def Note.shiftFirstLine (width n : ℕ) (note : Note) : Note :=
  { note with
    column := (Position.shiftFirstLine width ⟨n, note.column⟩).column
    extent := note.extent.map (Extent.move (Position.shiftFirstLine width)) }

namespace Notes

/-- The entry, when line 1 begins `width` columns further to the right. -/
def shiftEntry (width : ℕ) (e : ℕ × Note) : ℕ × Note :=
  (e.1, e.2.shiftFirstLine width e.1)

variable {width : ℕ}

theorem insertEntry_shiftEntry (e : ℕ × Note) (es : List (ℕ × Note)) :
    insertEntry e.1 (shiftEntry width e).2 (es.map (shiftEntry width)) =
      (insertEntry e.1 e.2 es).map (shiftEntry width) := by
  induction es with
  | nil => rfl
  | cons d ds ih =>
    simp only [List.map_cons, insertEntry, show (shiftEntry width d).1 = d.1 from rfl]
    split
    · rfl
    · split
      · rfl
      · rw [ih, List.map_cons]

theorem toList_insertAll_shiftEntry {ns ns' : Notes}
    (h : ns'.toList = ns.toList.map (shiftEntry width)) (es : List (ℕ × Note)) :
    (ns'.insertAll (es.map (shiftEntry width))).toList =
      (ns.insertAll es).toList.map (shiftEntry width) := by
  induction es generalizing ns ns' with
  | nil => exact h
  | cons e es ih =>
    refine @ih (ns.insert e.1 e.2) (ns'.insert e.1 (shiftEntry width e).2) ?_
    show insertEntry e.1 (shiftEntry width e).2 ns'.toList = _
    rw [h, insertEntry_shiftEntry]
    rfl

theorem get?_of_shiftEntry {ns ns' : Notes} (h : ns'.toList = ns.toList.map (shiftEntry width))
    (n : ℕ) : ns'.get? n = (ns.get? n).map (Note.shiftFirstLine width n) := by
  rw [get?, get?, h, List.find?_map, Option.map_map, Option.map_map]
  show (ns.toList.find? (·.1 = n)).map _ = _
  cases hfind : ns.toList.find? (·.1 = n) with
  | none => rfl
  | some e =>
    obtain rfl : e.1 = n := by simpa using List.find?_some hfind
    rfl

theorem letterCount_of_shiftEntry {ns ns' : Notes}
    (h : ns'.toList = ns.toList.map (shiftEntry width)) : ns'.letterCount = ns.letterCount := by
  rw [letterCount, letterCount, h, List.map_map]
  rfl

end Notes

/-! ## Literals and tokens -/

namespace Literal

theorem start_shiftFirstLine (width : ℕ) (d : Literal) :
    (d.shiftFirstLine width).start = d.start.shiftFirstLine width := by
  rw [shiftFirstLine, Position.shiftFirstLine]
  split <;> rfl

theorem stop_shiftFirstLine (width : ℕ) {d : Literal} (hstart : 1 ≤ d.start.line)
    (hle : d.start.line ≤ d.stop.line) :
    (d.shiftFirstLine width).stop = d.stop.shiftFirstLine width := by
  rw [shiftFirstLine, Position.shiftFirstLine]
  by_cases h : d.start.line = 1
  · rw [if_pos h]
  · rw [if_neg h, if_neg (by omega)]

theorem line_stop_shiftFirstLine (width : ℕ) (d : Literal) :
    (d.shiftFirstLine width).stop.line = d.stop.line := by
  rw [shiftFirstLine]
  split
  · simp only
    split
    · next h => exact h.symm
    · rfl
  · rfl

theorem lines_shiftFirstLine (width : ℕ) (d : Literal) :
    (d.shiftFirstLine width).lines = d.lines := by
  rw [lines, lines, line_stop_shiftFirstLine, start_shiftFirstLine,
    (Position.isMove_shiftFirstLine width).line_eq]
  rfl

theorem columnOn_shiftFirstLine (width : ℕ) {d : Literal} (hstart : 1 ≤ d.start.line) {n : ℕ}
    (hn : n ∈ d.lines) : (d.shiftFirstLine width).columnOn n =
      (Position.shiftFirstLine width ⟨n, d.columnOn n⟩).column := by
  have hle := (mem_lines.1 hn).1
  rw [columnOn, columnOn, start_shiftFirstLine, (Position.isMove_shiftFirstLine width).line_eq,
    Nat.add_zero]
  by_cases h : n = d.start.line
  · rw [if_pos h, if_pos h, h]
  · rw [if_neg h, if_neg h, Position.shiftFirstLine, if_neg (by simp only; omega)]

/-- The notes of a literal are shifted with it. -/
theorem notes_shiftFirstLine (kind : NoteKind) (width : ℕ) {d : Literal}
    (hstart : 1 ≤ d.start.line) :
    (d.shiftFirstLine width).notes kind = (d.notes kind).map (Notes.shiftEntry width) := by
  have hcontents : (d.shiftFirstLine width).lineContents = d.lineContents := by
    rw [lineContents, lineContents, lines_shiftFirstLine, text_shiftFirstLine]
  rw [notes, notes, hcontents, List.map_map]
  refine List.map_congr_left fun e he => ?_
  obtain ⟨i, hi, rfl⟩ := List.mem_mapIdx.1 he
  have hmem : d.lines[i] ∈ d.lines := List.getElem_mem hi
  have hle := mem_lines.1 hmem
  simp only [Function.comp, Notes.shiftEntry, Note.shiftFirstLine, Option.map, Extent.move, extent,
    columnOn_shiftFirstLine width hstart hmem, start_shiftFirstLine,
    stop_shiftFirstLine width hstart (hle.1.trans hle.2)]

theorem flatMap_notes_shiftFirstLine (kind : NoteKind) (width : ℕ) {ds : List Literal}
    (hds : ∀ d ∈ ds, 1 ≤ d.start.line) :
    (ds.map (shiftFirstLine width)).flatMap (notes kind) =
      (ds.flatMap (notes kind)).map (Notes.shiftEntry width) := by
  rw [List.map_flatMap, List.flatMap_map]
  exact List.flatMap_congr fun d hd => notes_shiftFirstLine kind width (hds d hd)

end Literal

/-- The token stands where its text ends: the position just past it is known from its start. -/
def Token.IsPlaced (t : Token) : Prop :=
  1 ≤ t.start.line ∧ t.stop.line = (t.start.advanceBy t.text).line

/-- The literal of a token is shifted with it. -/
theorem Literal.ofToken_move (width : ℕ) {t : Token} (ht : t.IsPlaced) :
    ofToken (t.move (Position.shiftFirstLine width)) = (ofToken t).shiftFirstLine width := by
  obtain ⟨hstart, hstop⟩ := ht
  rw [Position.line_advanceBy] at hstop
  have hline := (Position.isMove_shiftFirstLine width).line_eq
  by_cases h : t.start.line = 1
  · have hshift : Position.shiftFirstLine width t.start = ⟨1, t.start.column + width⟩ := if_pos h
    by_cases hlf : '\n' ∈ t.text
    · have hcount := List.count_pos_iff.2 hlf
      rw [shiftFirstLine, if_pos (show (ofToken t).start.line = 1 from h)]
      simp only [ofToken, ofText, Token.move, hline, hshift, h, if_pos hlf, Nat.add_zero]
      rw [if_neg (by omega)]
    · rw [List.count_eq_zero_of_not_mem hlf, h, Nat.add_zero] at hstop
      rw [shiftFirstLine, if_pos (show (ofToken t).start.line = 1 from h)]
      simp only [ofToken, ofText, Token.move, hline, hshift, h, if_neg hlf, hstop, Nat.add_zero]
      simp [Nat.add_right_comm]
  · have hshift : Position.shiftFirstLine width t.start = t.start := if_neg h
    rw [shiftFirstLine, if_neg (show ¬ (ofToken t).start.line = 1 from h), ofToken, ofToken,
      Token.move]
    simp only [hshift, hline, Nat.add_zero]

theorem Literal.covers_shiftFirstLine (width : ℕ) (d : Literal) (n : ℕ) :
    (d.shiftFirstLine width).covers n = d.covers n := by
  rw [Bool.eq_iff_iff, covers_iff, covers_iff, lines_shiftFirstLine]

section Standalone

variable {f : Position → Position}

theorem find?_isSemantic_move (ts : List Token) :
    (ts.map (Token.move f)).find? Token.isSemantic =
      (ts.find? Token.isSemantic).map (Token.move f) := by
  rw [List.find?_map]
  rfl

theorem standsAloneBetween_move (before after : List Token) :
    standsAloneBetween (before.map (Token.move f)) (after.map (Token.move f)) =
      standsAloneBetween before after := by
  simp only [standsAloneBetween, find?_isSemantic_move]
  cases before.find? Token.isSemantic <;> cases after.find? Token.isSemantic <;> rfl

/-- Whether a literal stands alone does not depend on its place. -/
theorem standaloneFrom_move (width : ℕ) {ts : List Token}
    (hts : ∀ t ∈ ts, t.kind = .string → t.IsPlaced) (before : List Token) (found : List Literal) :
    standaloneFrom (before.map (Token.move (Position.shiftFirstLine width)))
        (found.map (Literal.shiftFirstLine width))
        (ts.map (Token.move (Position.shiftFirstLine width))) =
      (standaloneFrom before found ts).map (Literal.shiftFirstLine width) := by
  induction ts generalizing before found with
  | nil => rfl
  | cons t ts ih =>
    have ih := ih fun u hu => hts u (List.mem_cons_of_mem _ hu)
    have hany : (found.map (Literal.shiftFirstLine width)).any
        (·.covers (t.move (Position.shiftFirstLine width)).start.line) =
          found.any (·.covers t.start.line) := by
      rw [List.any_map]
      congr 1
      funext d
      rw [Function.comp, Literal.covers_shiftFirstLine]
      simp only [Token.move, (Position.isMove_shiftFirstLine width).line_eq, Nat.add_zero]
    rw [List.map_cons, standaloneFrom, standaloneFrom, hany, standsAloneBetween_move,
      show (t.move (Position.shiftFirstLine width)).isPlainTripleQuoted = t.isPlainTripleQuoted
        from rfl]
    split
    · next h =>
      simp only [Bool.and_eq_true] at h
      have hstring := Literal.kind_of_isPlainTripleQuoted h.1.1
      rw [Literal.ofToken_move width (hts t List.mem_cons_self hstring), List.map_cons]
      exact congrArg _ (ih (t :: before) (Literal.ofToken t :: found))
    · exact ih (t :: before) found

end Standalone

/-- **The notes of tokens** are shifted with them. -/
theorem Notes.ofTokens_move (width : ℕ) {ts : List Token}
    (hts : ∀ t ∈ ts, t.kind = .string → t.IsPlaced) :
    (ofTokens (ts.map (Token.move (Position.shiftFirstLine width)))).toList =
      (ofTokens ts).toList.map (shiftEntry width) := by
  have hcomments : (commentTokens (ts.map (Token.move (Position.shiftFirstLine width)))).map
      Token.commentNote = ((commentTokens ts).map Token.commentNote).map (shiftEntry width) := by
    rw [commentTokens, List.filter_map, List.map_map, List.map_map]
    refine List.map_congr_left fun t _ => ?_
    simp only [Function.comp, Token.commentNote, Token.move, shiftEntry, Note.shiftFirstLine,
      (Position.isMove_shiftFirstLine width).line_eq, Nat.add_zero, Option.map]
  have hstart : ∀ d ∈ standaloneStrings ts, 1 ≤ d.start.line := by
    intro d hd
    obtain ⟨t, ht, hstring, rfl⟩ := Literal.exists_token_of_mem_standaloneFrom hd
    exact (hts t ht hstring).1
  have hstrings : standaloneStrings (ts.map (Token.move (Position.shiftFirstLine width))) =
      (standaloneStrings ts).map (Literal.shiftFirstLine width) :=
    standaloneFrom_move width hts [] []
  rw [ofTokens, ofTokens, hcomments, hstrings, Literal.flatMap_notes_shiftFirstLine _ _ hstart]
  exact toList_insertAll_shiftEntry (toList_insertAll_shiftEntry rfl _) _

/-- **Docstrings** are laid over notes that are shifted with them. -/
theorem Notes.withDocstrings_shift {width : ℕ} {ns ns' : Notes}
    (h : ns'.toList = ns.toList.map (shiftEntry width)) {ds : List Literal}
    (hds : ∀ d ∈ ds, 1 ≤ d.start.line) :
    (ns'.withDocstrings (ds.map (Literal.shiftFirstLine width))).toList =
      (ns.withDocstrings ds).toList.map (shiftEntry width) := by
  rw [withDocstrings, withDocstrings, Literal.flatMap_notes_shiftFirstLine _ _ hds]
  exact toList_insertAll_shiftEntry h _

/-! ## Lines behind a byte order mark -/

section Lines

theorem Text.trimEnd_isSpace_mark (t : Text) :
    trimEnd isSpace (byteOrderMark :: t) = byteOrderMark :: trimEnd isSpace t := by
  rw [trimEnd_cons, if_neg (fun h => absurd h.2 (by decide))]

theorem commentStart?_mark (line : Text) :
    commentStart? (byteOrderMark :: line) = (commentStart? line).map (· + 1) := by
  rw [commentStart?, commentStart?, commentStartFrom?, if_neg (by decide)]
  rfl

/-- The mark is code. -/
theorem codePart_mark (line : Text) :
    codePart (byteOrderMark :: line) = byteOrderMark :: codePart line := by
  rw [codePart, codePart, commentStart?_mark]
  cases commentStart? line with
  | none => exact Text.trimEnd_isSpace_mark line
  | some n => exact Text.trimEnd_isSpace_mark (line.take n)

theorem count_mark {q : Text} (hq : q ∈ tripleQuotes) (t : Text) :
    Text.count q (byteOrderMark :: t) = Text.count q t := by
  have hne : q.isPrefixOf (byteOrderMark :: t) = false := by
    simp only [tripleQuotes, List.mem_cons, List.not_mem_nil, or_false] at hq
    rcases hq with rfl | rfl <;> rfl
  rw [Text.count, Text.countFrom, hne]
  rfl

theorem openQuotes?_mark (code : Text) :
    openQuotes? (byteOrderMark :: code) = openQuotes? code := by
  simp only [openQuotes?, tripleQuotes, List.find?_cons, List.find?_nil,
    count_mark (q := ['"', '"', '"']) (by decide), count_mark (q := ['\'', '\'', '\'']) (by decide)]

/-- The mark in front of the first line does not make the line after it go on with an
expression. -/
theorem mayStandAlone_mark (before : List Text) (line : Text) :
    mayStandAlone (before ++ [byteOrderMark :: line]) = mayStandAlone (before ++ [line]) := by
  rw [mayStandAlone, mayStandAlone, List.map_append, List.map_append, List.find?_append,
    List.find?_append]
  cases (before.map codePart).find? (!·.isEmpty) with
  | some code => rfl
  | none =>
    rw [Option.none_or, Option.none_or, List.map_singleton, List.map_singleton, codePart_mark]
    cases h : codePart line with
    | nil => decide
    | cons c r => simp

theorem commentNote?_mark (line : Text) :
    commentNote? 1 (byteOrderMark :: line) = (commentNote? 1 line).map (Notes.shiftEntry 1) := by
  rw [commentNote?, commentNote?, commentStart?_mark]
  cases commentStart? line <;> rfl

theorem closing_mark (quotes line : Text) (column : ℕ) (after : List Text) :
    closing quotes (byteOrderMark :: line) (column + 1) after =
      ((closing quotes line column after).1,
        (Position.shiftFirstLine 1 ⟨1 + (closing quotes line column after).1,
          (closing quotes line column after).2⟩).column) := by
  rw [closing, closing, List.drop_succ_cons]
  cases Text.find? quotes (line.drop column) with
  | some n =>
    show (0, column + 1 + n + quotes.length) = (0, column + n + quotes.length + 1)
    rw [Prod.mk.injEq]
    omega
  | none =>
    cases closingLine? quotes after with
    | some e => 
      obtain ⟨k, c⟩ := e
      simp only [Position.shiftFirstLine]
      rw [if_neg (by omega)]
    | none =>
      cases after with
      | nil => rfl
      | cons l ls =>
        have hlast : (l :: ls).getLast? = some ((l :: ls).getLast (by simp)) :=
          List.getLast?_eq_some_getLast (by simp)
        simp only [Position.shiftFirstLine, List.length_cons, hlast, Option.getD_some]
        rw [if_neg (by omega)]

theorem openingBlock?_mark (line : Text) :
    openingBlock? [] (byteOrderMark :: line) =
      (openingBlock? [] line).map fun (quotes, column) => (quotes, column + 1) := by
  have htrim : (byteOrderMark :: line).dropWhile isBlankChar = line.dropWhile isBlankChar := by
    rw [List.dropWhile_cons, if_pos (by decide)]
  have hle := (List.dropWhile_suffix (l := line) isBlankChar).length_le
  simp only [openingBlock?, htrim]
  cases tripleQuotes.find? (·.isPrefixOf (line.dropWhile isBlankChar)) with
  | none => rfl
  | some quotes =>
    simp only [List.length_cons]
    split
    · simp only [Option.map_some, Option.some_inj, Prod.mk.injEq, true_and]
      omega
    · rfl

/-- What was read before a line matters only for whether a literal may stand alone there. -/
theorem lineNotes_congr {before before' : List Text}
    (h : ∀ xs, mayStandAlone (xs ++ before) = mayStandAlone (xs ++ before'))
    (inCode : Option Text) (n : ℕ) (lines : List Text) :
    lineNotes before inCode n lines = lineNotes before' inCode n lines := by
  have hcons : ∀ {b b' : List Text}, (∀ xs, mayStandAlone (xs ++ b) = mayStandAlone (xs ++ b')) →
      ∀ zs xs, mayStandAlone (xs ++ (zs ++ b)) = mayStandAlone (xs ++ (zs ++ b')) := by
    intro b b' h zs xs
    rw [← List.append_assoc, ← List.append_assoc, h]
  have hopening : ∀ {b b' : List Text}, (∀ xs, mayStandAlone (xs ++ b) = mayStandAlone (xs ++ b')) →
      ∀ line, openingBlock? b line = openingBlock? b' line := by
    intro b b' h line
    simp only [openingBlock?, show mayStandAlone b = mayStandAlone b' from h []]
  fun_induction lineNotes before inCode n lines generalizing before' with
  | case1 => rw [lineNotes]
  | case2 before n line after quotes ih =>
    rw [lineNotes]
    exact ih (hcons h [line])
  | case3 before n line after quotes column hopen k stopColumn hclosing extent =>
    rename_i ih
    have hrest := hcons h ((after.take k).reverse ++ [line])
    simp only [List.append_assoc, List.singleton_append] at hrest
    rw [lineNotes, ← hopening h, hopen]
    simp only [hclosing]
    rw [ih hrest]
  | case4 before n line after hopen ih =>
    rw [lineNotes, ← hopening h, hopen]
    simp only
    rw [ih (hcons h [line])]
    rfl

/-- The literal in a block moves with its first line. -/
theorem map_shiftEntry_blockNotes (width : ℕ) {n : ℕ} (hn : 1 ≤ n) (column : ℕ) (first : Text)
    (below : List Text) (extent : Extent) :
    (blockNotes n column first below extent).map (Notes.shiftEntry width) =
      blockNotes n (Position.shiftFirstLine width ⟨n, column⟩).column first below
        (extent.move (Position.shiftFirstLine width)) := by
  rw [blockNotes, blockNotes, List.map_cons]
  refine congrArg _ (List.ext_getElem (by simp) fun i hi hi' => ?_)
  have hline : Position.shiftFirstLine width ⟨n + 1 + i, 0⟩ = ⟨n + 1 + i, 0⟩ :=
    if_neg (by simp only; omega)
  simp [Notes.shiftEntry, Note.shiftFirstLine, hline]

/-- Below line 1 nothing is shifted. -/
theorem map_shiftEntry_lineNotes (width : ℕ) (before : List Text) (inCode : Option Text) {n : ℕ}
    (hn : 1 < n) (lines : List Text) :
    (lineNotes before inCode n lines).map (Notes.shiftEntry width) =
      lineNotes before inCode n lines := by
  have hbelow : ∀ p : Position, 1 < p.line → Position.shiftFirstLine width p = p :=
    fun p hp => if_neg (Nat.ne_of_gt hp)
  refine lineNotes_induction (P := fun n _ es => 1 < n → es.map (Notes.shiftEntry width) = es)
    ?_ ?_ ?_ ?_ before inCode n lines hn
  · intro n lines _
    rfl
  · intro n ls ms es fs hes hfs hn
    rw [List.map_append, hes hn, hfs (Nat.lt_add_right _ hn)]
  · intro n line hn
    rw [commentNote?]
    cases commentStart? line with
    | none => rfl
    | some column => simp [Notes.shiftEntry, Note.shiftFirstLine, hbelow ⟨n, column⟩ hn]
  · intro n column line below extent hstart hstop hn
    rw [map_shiftEntry_blockNotes width (Nat.le_of_lt hn), hbelow _ hn, Extent.move,
      hbelow _ (by omega), hbelow _ (by omega)]

/-- The notes of a source whose first line has a byte order mark in front of it. -/
theorem lineNotes_mark (line : Text) (after : List Text) :
    lineNotes [] none 1 ((byteOrderMark :: line) :: after) =
      (lineNotes [] none 1 (line :: after)).map (Notes.shiftEntry 1) := by
  have hmark : ∀ xs, mayStandAlone (xs ++ [byteOrderMark :: line]) = mayStandAlone (xs ++ [line]) :=
    fun xs => mayStandAlone_mark xs line
  rw [lineNotes, lineNotes, openingBlock?_mark]
  cases openingBlock? [] line with
  | none =>
    simp only [Option.map_none, List.map_append, codePart_mark, openQuotes?_mark]
    rw [lineNotes_congr hmark, map_shiftEntry_lineNotes 1 _ _ (by omega), commentNote?_mark]
    cases commentNote? 1 line <;> rfl
  | some block =>
    obtain ⟨quotes, column⟩ := block
    simp only [Option.map_some, Nat.add_right_comm column 1, closing_mark, List.map_append]
    rw [@lineNotes_congr _ ((after.take (closing quotes line (column + quotes.length)
      after).1).reverse ++ [line]) fun xs => ?_, map_shiftEntry_lineNotes 1 _ _ (by omega),
      map_shiftEntry_blockNotes 1 (Nat.le_refl 1), Extent.move,
      ← Position.line_column_shiftFirstLine 1 ⟨1 + _, _⟩]
    · rfl
    · rw [← List.append_assoc, ← List.append_assoc, hmark]

/-- The texts of the lines of a source behind a byte order mark. -/
theorem map_text_splitLines_mark {source : Text} (h : source ≠ []) :
    ∃ line after, (splitLines source).map Line.text = line :: after ∧
      (splitLines (byteOrderMark :: source)).map Line.text = (byteOrderMark :: line) :: after := by
  rw [splitLines_cons (by decide) fun hc => absurd hc (by decide)]
  cases hs : splitLines source with
  | nil =>
    have hjoin := joinLines_splitLines source
    rw [hs] at hjoin
    exact absurd hjoin.symm h
  | cons l ls => exact ⟨l.text, ls.map Line.text, rfl, rfl⟩

/-- **The notes of lines** are shifted with the first line by a byte order mark. -/
theorem Notes.ofLines_mark {source : Text} (h : source ≠ []) :
    (ofLines (byteOrderMark :: source)).toList = (ofLines source).toList.map (shiftEntry 1) := by
  obtain ⟨line, after, hlines, hmarked⟩ := map_text_splitLines_mark h
  rw [ofLines, ofLines, hlines, hmarked, lineNotes_mark]
  exact toList_insertAll_shiftEntry rfl _

end Lines

end Marginalia
