import Marginalia.Analysis
import Marginalia.Proofs.Literal
import Marginalia.Proofs.Notes
import Marginalia.Proofs.Rewrite.Lines
import Marginalia.Proofs.Token.Delimiter
import Marginalia.Proofs.Token.LineBreaks

/-!
# Sources with the other line break

A source whose lines end in a carriage return and a line feed is treated as the source whose lines
end in a line feed only. Carriage returns reach the notes nowhere: they are cut off at the end of
comments, lines and the parts of literals, so literals whose lines are the same but for them
(`Text.SameLines`) leave the same notes. What is put together in `treatsLineBreaksAlike` is that
tokens, notes and the rewritten source of the two correspond.
-/

namespace Marginalia

open Text

/-! ## The same lines -/

/-- The texts have the same lines, but for carriage returns at their ends. -/
def Text.SameLines (x y : Text) : Prop :=
  (splitAt '\n' x).map (trimEnd (· == '\r')) = (splitAt '\n' y).map (trimEnd (· == '\r'))

theorem splitAt_toCrlf (t : Text) :
    ∃ ps p, splitAt '\n' t = ps ++ [p] ∧ splitAt '\n' (toCrlf t) = ps.map (· ++ ['\r']) ++ [p] := by
  induction t with
  | nil => exact ⟨[], [], rfl, rfl⟩
  | cons c r ih =>
    obtain ⟨ps, p, hr, hcrlf⟩ := ih
    by_cases hc : c = '\n'
    · refine ⟨[] :: ps, p, ?_, ?_⟩
      · rw [hc, splitAt, if_pos rfl, hr]
        rfl
      · rw [hc, toCrlf_lineFeed_cons, splitAt, if_neg (by decide), splitAt, if_pos rfl, hcrlf]
        rfl
    · rw [toCrlf_cons hc, splitAt, splitAt, if_neg hc, if_neg hc, hr, hcrlf]
      cases ps with
      | nil => exact ⟨[], c :: p, rfl, rfl⟩
      | cons x ps => exact ⟨(c :: x) :: ps, p, rfl, rfl⟩

theorem sameLines_toCrlf (t : Text) : SameLines t (toCrlf t) := by
  obtain ⟨ps, p, ht, hc⟩ := splitAt_toCrlf t
  rw [SameLines, ht, hc, List.map_append, List.map_append, List.map_map]
  refine congrArg (· ++ _) (List.map_congr_left fun x _ => ?_)
  exact (trimEnd_append_of_forall (List.forall_mem_singleton.2 rfl) x).symm

namespace Literal

/-- The literals were made from the same place and from texts with the same lines. -/
def Alike (d e : Literal) : Prop :=
  ∃ width start stopLine x y, SameLines x y ∧ d = (ofText start stopLine x).shiftFirstLine width ∧
    e = (ofText start stopLine y).shiftFirstLine width

theorem alike_toCrlf (start : Position) (stopLine : ℕ) (x : Text) :
    Alike (ofText start stopLine x) (ofText start stopLine (toCrlf x)) :=
  ⟨0, start, stopLine, x, toCrlf x, sameLines_toCrlf x, (shiftFirstLine_zero _).symm,
    (shiftFirstLine_zero _).symm⟩

theorem length_splitAt (sep : Char) (t : Text) : (splitAt sep t).length = List.count sep t + 1 := by
  induction t with
  | nil => rfl
  | cons c r ih =>
    rw [splitAt]
    split
    · next hc => rw [hc, List.length_cons, ih, List.count_cons_self]
    · next hc =>
      rw [List.count_cons_of_ne hc, ← ih]
      cases hr : splitAt sep r with
      | nil => exact absurd hr (splitAt_ne_nil sep r)
      | cons p ps => rfl

theorem mem_iff_of_sameLines {x y : Text} (h : SameLines x y) : '\n' ∈ x ↔ '\n' ∈ y := by
  have hlength := congrArg List.length h
  rw [List.length_map, List.length_map, length_splitAt, length_splitAt] at hlength
  rw [← List.count_pos_iff, ← List.count_pos_iff]
  omega

/-- The width of the last line of a literal is measured without carriage returns. -/
theorem trimEnd_lastLine (t : Text) : trimEnd (· == '\r') (lastLine t) =
    (((splitAt '\n' t).map (trimEnd (· == '\r'))).getLast?).getD [] := by
  rw [lastLine, List.getLast?_map]
  cases (splitAt '\n' t).getLast? <;> rfl

theorem extent_ofText_eq {x y : Text} (h : SameLines x y) (start : Position) (stopLine : ℕ) :
    (ofText start stopLine x).extent = (ofText start stopLine y).extent := by
  simp only [extent, ofText, trimEnd_lastLine, show _ = _ from h, mem_iff_of_sameLines h]

section Alike

variable {d e : Literal} (h : Alike d e)
include h

theorem extent_of_alike : d.extent = e.extent := by
  obtain ⟨width, start, stopLine, x, y, hxy, rfl, rfl⟩ := h
  have hstop := congrArg Extent.stop (extent_ofText_eq hxy start stopLine)
  simp only [extent] at hstop
  simp only [extent, shiftFirstLine, hstop]
  split_ifs <;> simp_all [ofText]

theorem sameLines_of_alike : SameLines d.text e.text := by
  obtain ⟨width, start, stopLine, x, y, hxy, rfl, rfl⟩ := h
  have htext : ∀ c : Literal, (c.shiftFirstLine width).text = c.text := fun c => by
    rw [shiftFirstLine]
    split <;> rfl
  rw [htext, htext]
  exact hxy

theorem lineContents_of_alike : d.lineContents = e.lineContents := by
  have hextent := extent_of_alike h
  have hlines : d.lines = e.lines := by
    rw [lines, lines, show d.start = e.start from congrArg Extent.start hextent,
      show d.stop = e.stop from congrArg Extent.stop hextent]
  have hpiece : ∀ (ps : List Text) (i : ℕ), trimEnd (· == '\r') (ps[i]?.getD []) =
      ((ps.map (trimEnd (· == '\r')))[i]?).getD [] := by
    intro ps i
    rw [List.getElem?_map]
    cases ps[i]? <;> rfl
  simp only [lineContents, hlines, hpiece, show _ = _ from sameLines_of_alike h]

end Alike

theorem notes_of_alike (kind : NoteKind) {d e : Literal} (h : Alike d e) :
    d.notes kind = e.notes kind := by
  have hextent := extent_of_alike h
  have hstart : d.start = e.start := congrArg Extent.start hextent
  have hcolumn : ∀ n, d.columnOn n = e.columnOn n := fun n => by rw [columnOn, columnOn, hstart]
  simp only [notes, lineContents_of_alike h, hextent, hcolumn]

theorem flatMap_notes_of_alike (kind : NoteKind) {ds es : List Literal}
    (h : List.Forall₂ Alike ds es) : ds.flatMap (notes kind) = es.flatMap (notes kind) := by
  induction h with
  | nil => rfl
  | cons hd _ ih => rw [List.flatMap_cons, List.flatMap_cons, notes_of_alike kind hd, ih]

theorem any_covers_of_alike {ds es : List Literal} (h : List.Forall₂ Alike ds es) (n : ℕ) :
    ds.any (·.covers n) = es.any (·.covers n) := by
  induction h with
  | nil => rfl
  | cons hd _ ih =>
    have hextent := extent_of_alike hd
    rw [List.any_cons, List.any_cons, ih, covers, covers,
      show Literal.start _ = _ from congrArg Extent.start hextent,
      show Literal.stop _ = _ from congrArg Extent.stop hextent]
    rfl

end Literal

/-! ## Tokens -/

/-- The two sources have the same tokens. -/
theorem tokenize_toCrlf {source : Text} (h : '\r' ∉ source) :
    tokenize (toCrlf source) = (tokenize source).map (List.map Token.toCrlf) := by
  cases source with
  | nil => exact scan_toCrlf h
  | cons c r =>
    by_cases hc : c = '\ufeff'
    · rw [hc, toCrlf_cons (by decide)]
      exact scan_toCrlf fun hr => h (List.mem_cons_of_mem c hr)
    · have hmark : ∀ s, splitByteOrderMark (c :: s) = (c :: s, 0) := by
        intro s
        rw [splitByteOrderMark.eq_2]
        simp [hc]
      have hmark' : splitByteOrderMark (toCrlf (c :: r)) = (toCrlf (c :: r), 0) := by
        by_cases hlf : c = '\n'
        · rw [hlf]
          rfl
        · rw [toCrlf_cons hlf, hmark]
      rw [tokenize, tokenize, hmark', hmark]
      exact scan_toCrlf h

namespace Token

theorem kind_toCrlf (t : Token) : t.toCrlf.kind = t.kind := by
  rw [toCrlf]
  split <;> rfl

theorem line_start_toCrlf (t : Token) : t.toCrlf.start.line = t.start.line := by
  rw [toCrlf]
  split <;> rfl

/-- Texts without a line break are told apart as before. -/
theorem text_toCrlf_beq (t : Token) {w : Text} (hw : '\n' ∉ w) :
    (t.toCrlf.text == w) = (t.text == w) := by
  by_cases hlf : '\n' ∈ t.text
  · have hne : (t.text == w) = false := beq_eq_false_iff_ne.2 fun h => hw (h ▸ hlf)
    have hmem : '\n' ∈ t.toCrlf.text := by
      rw [toCrlf]
      split
      · exact hlf
      · exact List.mem_flatMap.2 ⟨'\n', hlf, by simp⟩
    rw [hne, beq_eq_false_iff_ne]
    exact fun h => hw (h ▸ hmem)
  · rw [toCrlf_of_notMem hlf]

theorem isOp_toCrlf (t : Token) {w : Text} (hw : '\n' ∉ w) : t.toCrlf.isOp w = t.isOp w := by
  rw [isOp, isOp, kind_toCrlf, text_toCrlf_beq t hw]

theorem isName_toCrlf (t : Token) {w : Text} (hw : '\n' ∉ w) : t.toCrlf.isName w = t.isName w := by
  rw [isName, isName, kind_toCrlf, text_toCrlf_beq t hw]

theorem isSemantic_toCrlf (t : Token) : t.toCrlf.isSemantic = t.isSemantic := by
  rw [isSemantic, isSemantic, kind_toCrlf]

theorem any_congr_of_mem {α : Type} {f g : α → Bool} {l : List α} (h : ∀ a ∈ l, f a = g a) :
    l.any f = l.any g := by
  rw [Bool.eq_iff_iff, List.any_eq_true, List.any_eq_true]
  exact exists_congr fun a => and_congr_right fun ha => by rw [h a ha]

theorem bindsNext_toCrlf (t : Token) : t.toCrlf.bindsNext = t.bindsNext := by
  have hops : ∀ w ∈ bindingOperators, '\n' ∉ w := by decide
  have hnames : ∀ w ∈ bindingKeywords, '\n' ∉ w := by decide
  rw [bindsNext, bindsNext, any_congr_of_mem fun w hw => isOp_toCrlf t (hops w hw),
    any_congr_of_mem fun w hw => isName_toCrlf t (hnames w hw)]

theorem closesPrevious_toCrlf (t : Token) : t.toCrlf.closesPrevious = t.closesPrevious := by
  have hops : ∀ w ∈ trailingOperators, '\n' ∉ w := by decide
  rw [closesPrevious, closesPrevious, any_congr_of_mem fun w hw => isOp_toCrlf t (hops w hw)]

theorem text_toCrlf_of_string {t : Token} (ht : IsLiteralText t.text) :
    t.toCrlf = { t with text := Text.toCrlf t.text } := by
  obtain ⟨pre, q, s, n, ht, hq, -⟩ := ht
  rw [toCrlf, if_neg]
  rw [ht]
  intro h
  cases pre with
  | nil =>
    obtain ⟨rfl, -⟩ := List.cons.inj h
    simp at hq
  | cons c pre => simp at h

/-- A literal between three quotes stays one. -/
theorem isPlainTripleQuoted_toCrlf {t : Token} (ht : t.kind = .string → IsLiteralText t.text) :
    t.toCrlf.isPlainTripleQuoted = t.isPlainTripleQuoted := by
  by_cases hk : t.kind = .string
  · have hliteral := ht hk
    have hprefix : t.toCrlf.stringPrefix = t.stringPrefix := by
      rw [stringPrefix, stringPrefix, text_toCrlf_of_string hliteral,
        takeWhile_toCrlf (by decide) (by decide)]
    rw [isPlainTripleQuoted, isPlainTripleQuoted, hprefix, isTripleQuoted, isTripleQuoted,
      text_toCrlf_of_string hliteral, dropWhile_toCrlf (by decide) (by decide)]
    simp only [isPrefixOf_toCrlf (x := ['"', '"', '"']) (by decide) (by decide),
      isPrefixOf_toCrlf (x := ['\'', '\'', '\'']) (by decide) (by decide)]
    by_cases hquotes : (['"', '"', '"'].isPrefixOf (t.text.dropWhile Char.isAlpha) ||
        ['\'', '\'', '\''].isPrefixOf (t.text.dropWhile Char.isAlpha)) = true
    · have hsix := hliteral.six_le_length (by simpa using hquotes)
      have hsix' := hsix.trans (length_le_toCrlf _)
      rw [decide_eq_true hsix, decide_eq_true hsix']
    · simp only [Bool.eq_false_iff.2 hquotes, Bool.and_false, Bool.false_and]
  · rw [isPlainTripleQuoted, isPlainTripleQuoted, isTripleQuoted, isTripleQuoted, kind_toCrlf,
      beq_eq_false_iff_ne.2 hk]
    rfl

end Token

theorem standsAloneBetween_toCrlf (before after : List Token) :
    standsAloneBetween (before.map Token.toCrlf) (after.map Token.toCrlf) =
      standsAloneBetween before after := by
  have hsemantic : Token.isSemantic ∘ Token.toCrlf = Token.isSemantic :=
    funext Token.isSemantic_toCrlf
  rw [standsAloneBetween, standsAloneBetween, List.find?_map, List.find?_map, hsemantic]
  cases before.find? Token.isSemantic with
  | none => rfl
  | some t =>
    cases after.find? Token.isSemantic with
    | none => simp [Token.bindsNext_toCrlf]
    | some u => simp [Token.bindsNext_toCrlf, Token.closesPrevious_toCrlf]

/-- The same literals stand alone. -/
theorem standaloneFrom_toCrlf {ts : List Token}
    (hts : ∀ t ∈ ts, t.kind = .string → IsLiteralText t.text) (before : List Token)
    {found found' : List Literal} (hfound : List.Forall₂ Literal.Alike found found') :
    List.Forall₂ Literal.Alike (standaloneFrom before found ts)
      (standaloneFrom (before.map Token.toCrlf) found' (ts.map Token.toCrlf)) := by
  induction ts generalizing before found found' with
  | nil => exact .nil
  | cons t ts ih =>
    have ih := fun before {found found'} =>
      @ih (fun u hu => hts u (List.mem_cons_of_mem t hu)) before found found'
    have hcovers :
        found.any (·.covers t.start.line) = found'.any (·.covers t.toCrlf.start.line) := by
      rw [Token.line_start_toCrlf]
      exact Literal.any_covers_of_alike hfound _
    rw [List.map_cons, standaloneFrom, standaloneFrom,
      Token.isPlainTripleQuoted_toCrlf (hts t List.mem_cons_self), ← hcovers,
      standsAloneBetween_toCrlf]
    split
    · next h =>
      simp only [Bool.and_eq_true] at h
      have hstring := Literal.kind_of_isPlainTripleQuoted h.1.1
      have halike : Literal.Alike (Literal.ofToken t) (Literal.ofToken t.toCrlf) := by
        rw [Literal.ofToken, Literal.ofToken,
          Token.text_toCrlf_of_string (hts t List.mem_cons_self hstring)]
        exact Literal.alike_toCrlf ..
      exact .cons halike (ih (t :: before) (.cons halike hfound))
    · exact ih (t :: before) hfound

/-! ## Notes -/

theorem Notes.ofTokens_toCrlf {source : Text} {ts : List Token} (ht : tokenize source = .ok ts) :
    ofTokens (ts.map Token.toCrlf) = ofTokens ts := by
  have hcomments : (commentTokens (ts.map Token.toCrlf)).map Token.commentNote =
      (commentTokens ts).map Token.commentNote := by
    have hkind : (fun t : Token => t.kind == .comment) ∘ Token.toCrlf =
        fun t => t.kind == .comment := funext fun t => by rw [Function.comp, Token.kind_toCrlf]
    rw [commentTokens, commentTokens, List.filter_map, hkind, List.map_map]
    refine List.map_congr_left fun t hmem => ?_
    obtain ⟨hmem, hk⟩ := List.mem_filter.1 hmem
    obtain ⟨i, hi⟩ := List.getElem?_of_mem hmem
    obtain ⟨y, -, hy, hlf, -⟩ := of_comment ht hi (by simpa using hk)
    rw [Function.comp, Token.toCrlf_of_notMem (by simp [hy, hlf])]
  have hstandalone : List.Forall₂ Literal.Alike (standaloneStrings ts)
      (standaloneStrings (ts.map Token.toCrlf)) :=
    standaloneFrom_toCrlf (fun t hmem hk => isLiteralText_of_tokenize ht hmem hk) [] .nil
  rw [ofTokens, ofTokens, hcomments, Literal.flatMap_notes_of_alike _ hstandalone]

/-! ## Lines -/

/-- The terminator with a carriage return, if there is one. -/
def Terminator.toCrlf : Terminator → Terminator
  | .none => .none
  | .lf | .crlf => .crlf

/-- The line with a carriage return in its terminator. -/
def Line.toCrlf (l : Line) : Line := ⟨l.text, l.terminator.toCrlf⟩

theorem splitLines_toCrlf {t : Text} (h : '\r' ∉ t) :
    splitLines (toCrlf t) = (splitLines t).map Line.toCrlf := by
  induction t with
  | nil => rfl
  | cons c r ih =>
    have ih := ih fun hr => h (List.mem_cons_of_mem c hr)
    have hcr : c ≠ '\r' := fun hc => h (by simp [hc])
    by_cases hc : c = '\n'
    · rw [hc, toCrlf_lineFeed_cons, splitLines, splitLines, ih]
      rfl
    · rw [toCrlf_cons hc, splitLines_cons hc fun h => absurd h hcr,
        splitLines_cons hc fun h => absurd h hcr, ih]
      cases splitLines r <;> rfl

theorem baseNotes_toCrlf {source : Text} (h : '\r' ∉ source) :
    baseNotes (toCrlf source) = baseNotes source := by
  rw [baseNotes, baseNotes, tokenize_toCrlf h]
  cases ht : tokenize source with
  | ok ts => exact congrArg (·, true) (Notes.ofTokens_toCrlf ht)
  | error e =>
    have hlines :
        (splitLines (toCrlf source)).map Line.text = (splitLines source).map Line.text := by
      rw [splitLines_toCrlf h, List.map_map]
      rfl
    exact congrArg (·, false) (by rw [Notes.ofLines, Notes.ofLines, hlines])

/-! ## Rewriting -/

section Rewrite

variable (lines : List Line) (ns : Notes) (verify : Bool)

theorem lineText_toCrlf (n : ℕ) : lineText (lines.map Line.toCrlf) n = lineText lines n := by
  cases n with
  | zero => rfl
  | succ n =>
    rw [lineText, lineText, List.getElem?_map]
    cases lines[n]? <;> rfl

/-- Lines are rewritten by their texts. -/
theorem rewrittenText_toCrlf (n : ℕ) (t : Text) :
    rewrittenText (lines.map Line.toCrlf) ns verify n t = rewrittenText lines ns verify n t := by
  have hremovable : ∀ e, isRemovable (lines.map Line.toCrlf) e = isRemovable lines e := by
    intro e
    rw [isRemovable, isRemovable, lineText_toCrlf, lineText_toCrlf]
  simp only [rewrittenText, rewriteLine, hremovable]

theorem rewriteLines_toCrlf (n : ℕ) (previous : Terminator) (ls : List Line) :
    rewriteLines (lines.map Line.toCrlf) ns verify n previous.toCrlf (ls.map Line.toCrlf) =
      (rewriteLines lines ns verify n previous ls).map Line.toCrlf := by
  induction ls generalizing n previous with
  | nil => rfl
  | cons l ls ih =>
    have hkept : ∀ text, keptTerminator previous.toCrlf l.terminator.toCrlf text =
        (keptTerminator previous l.terminator text).toCrlf := by
      intro text
      have hnone : l.terminator.toCrlf = .none ↔ l.terminator = .none := by
        cases l.terminator <;> simp [Terminator.toCrlf]
      simp only [keptTerminator, hnone]
      split <;> rfl
    rw [List.map_cons, rewriteLines, rewriteLines, List.map_cons,
      show l.toCrlf.terminator = l.terminator.toCrlf from rfl, ih,
      show l.toCrlf.text = l.text from rfl, rewrittenText_toCrlf, hkept]
    rfl

variable {lines} {ns} {verify}

/-- What the terminator before the first line is does not matter if that line has its own. -/
theorem rewriteLines_congr {n : ℕ} {ls : List Line}
    (h : ∀ l ∈ ls.head?, l.terminator ≠ .none) (previous previous' : Terminator) :
    rewriteLines lines ns verify n previous ls = rewriteLines lines ns verify n previous' ls := by
  cases ls with
  | nil => rfl
  | cons l ls =>
    rw [rewriteLines, rewriteLines, keptTerminator, keptTerminator,
      if_neg fun hk => h l rfl hk.1, if_neg fun hk => h l rfl hk.1]

/-- Rewriting brings no other line breaks into the lines. -/
theorem forall_rewriteLines {previous : Terminator} (hp : previous ≠ .crlf) {ls : List Line}
    (h : ∀ l ∈ ls, '\n' ∉ l.text ∧ l.terminator ≠ .crlf) (n : ℕ) :
    ∀ l ∈ rewriteLines lines ns verify n previous ls, '\n' ∉ l.text ∧ l.terminator ≠ .crlf := by
  induction ls generalizing n previous with
  | nil => simp [rewriteLines]
  | cons l ls ih =>
    obtain ⟨hlf, hterm⟩ := h l List.mem_cons_self
    rw [rewriteLines]
    refine List.forall_mem_cons.2 ⟨⟨fun hmem => ?_, ?_⟩,
      ih hterm (fun m hm => h m (List.mem_cons_of_mem l hm)) (n + 1)⟩
    · exact hlf ((rewrittenText_isPrefix lines ns verify n l.text).subset hmem)
    · simp only [keptTerminator]
      split
      · exact hp
      · exact hterm

end Rewrite

theorem joinLines_toCrlf {ls : List Line} (h : ∀ l ∈ ls, '\n' ∉ l.text ∧ l.terminator ≠ .crlf) :
    joinLines (ls.map Line.toCrlf) = toCrlf (joinLines ls) := by
  induction ls with
  | nil => rfl
  | cons l ls ih =>
    obtain ⟨hlf, hterm⟩ := h l List.mem_cons_self
    have hchars : l.toCrlf.chars = toCrlf l.chars := by
      rw [Line.chars, Line.chars, toCrlf_append, toCrlf_of_notMem hlf]
      refine congrArg (l.text ++ ·) ?_
      cases hl : l.terminator with
      | none => simp [Line.toCrlf, hl, Terminator.toCrlf, Terminator.text]
      | lf => simp [Line.toCrlf, hl, Terminator.toCrlf, Terminator.text]
      | crlf => exact absurd hl hterm
    rw [List.map_cons, joinLines_cons, joinLines_cons, toCrlf_append, hchars,
      ih fun m hm => h m (List.mem_cons_of_mem l hm)]

theorem changedLines_toCrlf (old new : List Line) :
    changedLines (old.map Line.toCrlf) (new.map Line.toCrlf) = changedLines old new := by
  induction old generalizing new with
  | nil => rfl
  | cons l ls ih =>
    cases new with
    | nil => rfl
    | cons m ms =>
      have ih := ih ms
      simp only [changedLines] at ih ⊢
      simp only [List.map_cons, List.zip_cons_cons, List.filter_cons,
        show l.toCrlf.text = l.text from rfl, show m.toCrlf.text = m.text from rfl]
      split
      · rw [List.length_cons, List.length_cons, ih]
      · exact ih

/-- **The rewritten sources correspond.** -/
theorem rewrite_toCrlf {source : Text} (hcr : '\r' ∉ source) (hlf : '\n' ∈ source) (ns : Notes)
    (verify : Bool) :
    rewrite (toCrlf source) ns verify =
      ⟨toCrlf (rewrite source ns verify).content, (rewrite source ns verify).removed,
        (rewrite source ns verify).total⟩ := by
  have hlines : ∀ l ∈ splitLines source, '\n' ∉ l.text ∧ l.terminator ≠ .crlf := by
    intro l hl
    refine ⟨((isSplit_splitLines source).isSound hl).lineFeed_notMem, fun hterm => hcr ?_⟩
    rw [← joinLines_splitLines source]
    exact List.mem_flatMap.2 ⟨l, hl, List.mem_append_right _ (by simp [hterm, Terminator.text])⟩
  have hfirst : ∀ l ∈ ((splitLines source).map Line.toCrlf).head?, l.terminator ≠ .none := by
    obtain ⟨l, ls, hls, -, -, hterm⟩ := exists_splitLines_eq_cons (List.ne_nil_of_mem hlf)
    have hne : l.terminator ≠ .none := fun h => hterm.1 h hlf
    rw [hls]
    rintro m ⟨⟩
    cases hl : l.terminator with
    | none => exact absurd hl hne
    | lf => simp [Line.toCrlf, hl, Terminator.toCrlf]
    | crlf => simp [Line.toCrlf, hl, Terminator.toCrlf]
  have hresult := rewriteLines_toCrlf (splitLines source) ns verify 1 .lf (splitLines source)
  rw [rewriteLines_congr hfirst _ .lf] at hresult
  simp only [rewrite, totalLines, splitLines_toCrlf hcr, hresult, changedLines_toCrlf,
    List.length_map, joinLines_toCrlf
      (forall_rewriteLines (show Terminator.lf ≠ .crlf by decide) hlines 1)]

/-! ## The two sources -/

/-- The source is treated as the one that has a carriage return in front of every line feed. -/
structure TreatsLineBreaksAlike (source : Text) : Prop where
  tokenize_eq : tokenize (toCrlf source) = (tokenize source).map (List.map Token.toCrlf)
  baseNotes_eq : baseNotes (toCrlf source) = baseNotes source
  withDocstrings_eq : ∀ ds es, List.Forall₂ Literal.Alike ds es →
    (baseNotes (toCrlf source)).1.withDocstrings es = (baseNotes source).1.withDocstrings ds
  content_eq : ∀ ns verify, (rewrite (toCrlf source) ns verify).content =
    toCrlf (rewrite source ns verify).content
  removed_eq : ∀ ns verify, (rewrite (toCrlf source) ns verify).removed =
    (rewrite source ns verify).removed
  total_eq : ∀ ns verify, (rewrite (toCrlf source) ns verify).total =
    (rewrite source ns verify).total

/-- **The two line breaks are treated alike.** -/
theorem treatsLineBreaksAlike {source : Text} (hcr : '\r' ∉ source) (hlf : '\n' ∈ source) :
    TreatsLineBreaksAlike source where
  tokenize_eq := tokenize_toCrlf hcr
  baseNotes_eq := baseNotes_toCrlf hcr
  withDocstrings_eq ds es h := by
    rw [baseNotes_toCrlf hcr, Notes.withDocstrings, Notes.withDocstrings,
      Literal.flatMap_notes_of_alike _ h]
  content_eq ns verify := by rw [rewrite_toCrlf hcr hlf]
  removed_eq ns verify := by rw [rewrite_toCrlf hcr hlf]
  total_eq ns verify := by rw [rewrite_toCrlf hcr hlf]

/-- A literal over two lines, in a source that is analysed and rewritten either way. -/
theorem treatsLineBreaksAlike_documented :
    TreatsLineBreaksAlike "\"\"\"a\n  b\"\"\"\nx = 1 # c\n".toList :=
  treatsLineBreaksAlike (by decide) (by decide)

end Marginalia
