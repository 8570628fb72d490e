import Mathlib.Data.List.NodupEquivFin
import Marginalia.Proofs.Rewrite.Tokens

/-!
# Stripping twice

The second pass looks at another text than the first: a literal that has gone was a neighbour of
others, and it was the first statement of a body. But what the second pass comes to is known from
the source. It sees the code and the comments that are left (`filter_isVisible_rewrite`), it judges
a literal as the first pass would have done (`isRemovable_rewrite`), and its docstrings are the
statements that have come first in their bodies, when the parser goes by what is left
(`ShowsLeft`). So stripping twice is stripping once exactly if these literals cannot go, and no
comment is left but on their lines (`strip_strip_iff`).

This is not always so. When the first statement of a body has gone, the next one may be a string
that can go, too (`not_strip_strip`).
-/

namespace Marginalia

/-! ## Sources that stay as they are -/

/-- No literal that is recorded among the tokens can go, and the comments are on lines of such
literals. -/
structure IsStable (source : Text) (ts : List Token) (ds : List Literal) : Prop where
  stays : ∀ d ∈ recordedLiterals ts ds, isRemovable (splitLines source) d.extent = false
  covered : ∀ u ∈ ts, u.kind = .comment → ∃ d ∈ recordedLiterals ts ds, u.start.line ∈ d.lines

section Tokenize

variable {source : Text} {ts : List Token} (ht : tokenize source = .ok ts)
include ht

/-- The visible characters of a token are on their lines. -/
theorem getElem?_lineText_of_mem {u : Token} (hu : u ∈ ts) {i : ℕ} {c : Char}
    (hi : u.text[i]? = some c) (hblank : isBlankChar c = false) :
    (lineText (splitLines source) (u.start.advanceBy (u.text.take i)).line)[
      (u.start.advanceBy (u.text.take i)).column]? = some c := by
  obtain ⟨j, l, hline, hl, hchar⟩ := exists_line_of_standsAt ((standsAt_of_mem ht hu).char hi)
  rw [hline, lineText]
  simp only [hl]
  exact getElem?_text_of_chars hchar (ne_of_isBlankChar hblank (by decide))
    (ne_of_isBlankChar hblank (by decide))

/-- A token of code shows where it starts. -/
theorem exists_getElem?_lineText_of_isCode {u : Token} (hu : u ∈ ts) (hc : u.kind.isCode = true) :
    ∃ c, (lineText (splitLines source) u.start.line)[u.start.column]? = some c ∧
      isBlankChar c = false := by
  obtain ⟨c, hhead, hblank, -⟩ := (isCodeText_of_mem ht hu hc).2.head
  have hchar := getElem?_lineText_of_mem ht hu (i := 0)
    (by rw [← List.head?_eq_getElem?, hhead]) hblank
  rw [List.take_zero, Position.advanceBy_nil] at hchar
  exact ⟨c, hchar, hblank⟩

/-- A literal of whole tokens has a line on which something of it shows. -/
theorem Literal.Runs.exists_mem_lineText {d : Literal} {i j : ℕ} (hd : d.Runs source ts i j) :
    ∃ n ∈ d.lines, ∃ c ∈ lineText (splitLines source) n, isBlankChar c = false := by
  obtain ⟨u, v, hij, hu, hv, hc, hcv, hstart, hstop⟩ := hd.exists_tokens ht
  -- it is the line on which the literal starts
  refine ⟨u.start.line, Literal.mem_lines.2 ⟨by rw [hstart], ?_⟩, ?_⟩
  · rw [hstop, (isCodeText_of_mem ht (List.mem_of_getElem? hv) hcv).1]
    exact Position.line_le ((start_le_start ht hu hv hij).trans (Position.le_advanceBy ..))
  · obtain ⟨c, hchar, hblank⟩ :=
      exists_getElem?_lineText_of_isCode ht (List.mem_of_getElem? hu) hc
    exact ⟨c, List.mem_of_getElem? hchar, hblank⟩

section Docstrings

variable {parse : Parser}

theorem notes_analyze_of_tokenize : (analyze parse source).notes =
    (Notes.ofTokens ts).withDocstrings (knownDocstrings parse source) := by
  rw [notes_analyze, baseNotes, ht]

theorem IsStable.isSettled (h : IsStable source ts (knownDocstrings parse source)) :
    IsSettled parse source := by
  rw [IsSettled, notes_analyze_of_tokenize ht]
  rintro ⟨n, note⟩ hmem
  have hget := Notes.get?_eq_some_iff.2 hmem
  have hkind : note.kind.isString = true := by
    have hfound := Notes.foundAt ts (knownDocstrings parse source) n
    rw [hget] at hfound
    cases hfound with
    | docstring _ _ hkind => exact congrArg NoteKind.isString hkind
    | standalone _ _ _ hkind => exact congrArg NoteKind.isString hkind
    | comment hno hno' hu hk hline =>
      obtain ⟨d, hd, hn⟩ := h.covered _ hu hk
      rw [hline] at hn
      rcases List.mem_append.1 (mem_of_mem_recordedLiterals hd) with hd | hd
      · exact absurd hn (hno' d hd)
      · exact absurd hn (hno d hd)
  refine ⟨hkind, fun x hx hrem => ?_⟩
  obtain ⟨d, hd, -, hstays⟩ := exists_recorded_of_hasVerdict ⟨note, x, hget, hkind, hx, hrem⟩
  rw [h.stays d hd] at hstays
  exact Bool.noConfusion hstays

variable (hparse : parse.IsSound)
  (hds : ∀ d ∈ knownDocstrings parse source, ∃ i j, d.Runs source ts i j)

include hparse hds

theorem IsSettled.isStable (h : IsSettled parse source) :
    IsStable source ts (knownDocstrings parse source) := by
  rw [IsSettled, notes_analyze_of_tokenize ht] at h
  refine ⟨fun d hd => ?_, fun u hu hk => ?_⟩
  · -- on one of its lines something shows, so this line has not been emptied
    obtain ⟨i, j, hruns⟩ := Literal.exists_runs_of_mem ht hds (mem_of_mem_recordedLiterals hd)
    obtain ⟨n, hn, c, hc, hblank⟩ := hruns.exists_mem_lineText ht
    obtain ⟨note, x, hget, hkind, hx, hrem⟩ :=
      hasVerdict_of_mem_recordedLiterals ht (docstrings_apart hparse source) hds hd hn
    rw [← hrem]
    by_contra hgoes
    rcases (h _ (Notes.get?_eq_some_iff.1 hget)).2 x hx (Bool.of_not_eq_false hgoes) with
      hempty | hempty <;> rw [hempty] at hc
    · exact absurd hc List.not_mem_nil
    · rw [List.mem_singleton.1 hc] at hblank
      exact absurd hblank (by decide)
  · have hcovered : u.start.line ∈ coveredLines ts (knownDocstrings parse source) :=
      mem_coveredLines.2 (Or.inr (Or.inr ⟨u, List.mem_filter.2 ⟨hu, by simp [hk]⟩, rfl⟩))
    cases hget : ((Notes.ofTokens ts).withDocstrings
        (knownDocstrings parse source)).get? u.start.line with
    | none => exact absurd hcovered (Notes.get?_withDocstrings_eq_none_iff.1 hget)
    | some note =>
      have hkind := (h _ (Notes.get?_eq_some_iff.1 hget)).1
      obtain ⟨x, hx⟩ := ((isFaithful_ofTokens ht).withDocstrings _).literal _ _ hget hkind
      have hverdict : ((Notes.ofTokens ts).withDocstrings
          (knownDocstrings parse source)).HasVerdict source
            (isRemovable (splitLines source) x) u.start.line :=
        ⟨note, x, hget, hkind, hx, rfl⟩
      obtain ⟨d, hd, hn, -⟩ := exists_recorded_of_hasVerdict hverdict
      exact ⟨d, hd, hn⟩

/-- **A source with tokens is settled** exactly if it is stable. -/
theorem isSettled_iff_isStable : IsSettled parse source ↔
    IsStable source ts (knownDocstrings parse source) :=
  ⟨fun h => h.isStable ht hparse hds, fun h => h.isSettled ht⟩

end Docstrings

end Tokenize

/-! ## The literals among visible tokens -/

theorem isPlainTripleQuoted_eq_false {u : Token} (hu : u.isVisible = false) :
    u.isPlainTripleQuoted = false := by
  by_contra hplain
  rw [Token.isVisible,
    Literal.kind_of_isPlainTripleQuoted (Bool.of_not_eq_false hplain)] at hu
  exact Bool.noConfusion hu

/-- The tokens that bear meaning are visible, but for the end marker. -/
theorem isSemantic_eq_false {u : Token} (hu : u.isVisible = false) (he : u.kind ≠ .endMarker) :
    u.isSemantic = false := by
  cases hk : u.kind <;>
    simp_all [Token.isVisible, Token.isSemantic, TokenKind.isCode, TokenKind.isLayout]

/-- Only visible tokens and the end marker are looked at behind a string, and the end marker does
not matter. -/
theorem any_closesPrevious_filter {e : Token} (he : e.kind = .endMarker) {us : List Token}
    (hus : ∀ u ∈ us, u.kind ≠ .endMarker) :
    (((us ++ [e]).filter Token.isVisible).find? Token.isSemantic).any Token.closesPrevious =
      ((us ++ [e]).find? Token.isSemantic).any Token.closesPrevious := by
  induction us with
  | nil =>
    have hvisible : e.isVisible = false := by simp [Token.isVisible, he, TokenKind.isCode]
    have hcloses : e.closesPrevious = false := by
      simp [Token.closesPrevious, trailingOperators, Token.isOp, he]
    rw [List.nil_append, List.filter_cons_of_neg (by simp [hvisible]), List.find?_singleton]
    split <;> simp [hcloses]
  | cons u us ih =>
    obtain ⟨hu, hus⟩ := List.forall_mem_cons.1 hus
    rw [List.cons_append]
    cases hvisible : u.isVisible with
    | true =>
      rw [List.filter_cons_of_pos hvisible, List.find?_cons, List.find?_cons]
      split
      · rfl
      · exact ih hus
    | false =>
      rw [List.filter_cons_of_neg (by simp [hvisible]), ih hus, List.find?_cons,
        isSemantic_eq_false hvisible hu]

/-- The standalone literals are found among the visible tokens. -/
theorem standaloneFrom_filter {e : Token} (he : e.kind = .endMarker) {us : List Token}
    (hus : ∀ u ∈ us, u.kind ≠ .endMarker) {before before' : List Token}
    (hbefore : before'.find? Token.isSemantic = before.find? Token.isSemantic)
    (found : List Literal) :
    standaloneFrom before' found ((us ++ [e]).filter Token.isVisible) =
      standaloneFrom before found (us ++ [e]) := by
  induction us generalizing before before' found with
  | nil =>
    have hvisible : e.isVisible = false := by simp [Token.isVisible, he, TokenKind.isCode]
    rw [List.nil_append, List.filter_cons_of_neg (by simp [hvisible]), standaloneFrom,
      isPlainTripleQuoted_eq_false hvisible]
    rfl
  | cons u us ih =>
    obtain ⟨hu, hus⟩ := List.forall_mem_cons.1 hus
    rw [List.cons_append]
    cases hvisible : u.isVisible with
    | true =>
      have hnext : (u :: before').find? Token.isSemantic =
          (u :: before).find? Token.isSemantic := by
        rw [List.find?_cons, List.find?_cons, hbefore]
      rw [List.filter_cons_of_pos hvisible, standaloneFrom, standaloneFrom, standsAloneBetween,
        standsAloneBetween, hbefore, any_closesPrevious_filter he hus]
      simp only [ih hus hnext]
    | false =>
      rw [List.filter_cons_of_neg (by simp [hvisible]), standaloneFrom,
        isPlainTripleQuoted_eq_false hvisible]
      simp only [Bool.false_and, Bool.false_eq_true, ↓reduceIte]
      refine ih hus ?_ found
      rw [List.find?_cons, isSemantic_eq_false hvisible hu, hbefore]

theorem standaloneStrings_filter {source : Text} {ts : List Token} (ht : tokenize source = .ok ts) :
    standaloneStrings (ts.filter Token.isVisible) = standaloneStrings ts := by
  obtain ⟨us, e, rfl, he, hus⟩ := (outlines_of_tokenize ht).isOutlined.endMarker
  exact standaloneFrom_filter he hus rfl []

/-- Layout has no part in what is stable. -/
theorem isStable_filter_iff {source text : Text} {ts : List Token} (ht : tokenize text = .ok ts)
    {ds : List Literal} :
    IsStable source (ts.filter Token.isVisible) ds ↔ IsStable source ts ds := by
  have hrecorded : recordedLiterals (ts.filter Token.isVisible) ds = recordedLiterals ts ds := by
    rw [recordedLiterals, standaloneStrings_filter ht, recordedLiterals]
  constructor
  · rintro ⟨hstays, hcovered⟩
    rw [hrecorded] at hstays hcovered
    refine ⟨hstays, fun u hu hk => hcovered u (List.mem_filter.2 ⟨hu, ?_⟩) hk⟩
    rw [Token.isVisible, hk]
    rfl
  · rintro ⟨hstays, hcovered⟩
    rw [← hrecorded] at hstays hcovered
    exact ⟨hstays, fun u hu hk => hcovered u (List.mem_filter.1 hu).1 hk⟩

/-! ## One judgement in both passes -/

/-- Whether a comment or nothing stands in the text, behind white space. -/
def opensNoCode (t : Text) : Bool :=
  (Text.trim isSpace t).isEmpty || (Text.trim isSpace t).head? == some '#'

theorem isRemovable_eq (lines : List Line) (e : Extent) : isRemovable lines e =
    (isBlank ((lineText lines e.start.line).take e.start.column) &&
      opensNoCode ((lineText lines e.stop.line).drop e.stop.column)) := rfl

/-- It is of no account that a comment is cut off, with the white space in front of it. -/
theorem opensNoCode_append {w : Text} (hw : ∀ c ∈ w, isSpace c = true) (x z : Text) :
    opensNoCode (x ++ (w ++ '#' :: z)) = opensNoCode x := by
  have hsplit := List.takeWhile_append_dropWhile (p := isSpace) (l := x)
  have hspace : ∀ c ∈ x.takeWhile isSpace, isSpace c = true :=
    fun c hc => List.mem_takeWhile_imp hc
  have hhead := List.head?_dropWhile_not isSpace x
  generalize x.takeWhile isSpace = y at *
  cases hvisible : x.dropWhile isSpace with
  | nil =>
    rw [hvisible, List.append_nil] at hsplit
    subst hsplit
    have hnone : Text.trim isSpace y = [] := by
      rw [Text.trim, hvisible]
      rfl
    have hsign := Text.head?_trim (x := y ++ w) (t := z) (c := '#') (p := isSpace)
      (List.forall_mem_append.2 ⟨hspace, hw⟩) (by decide)
    rw [List.append_assoc] at hsign
    rw [opensNoCode, hsign, opensNoCode, hnone]
    simp
  | cons c x' =>
    rw [hvisible] at hsplit hhead
    subst hsplit
    have hc : isSpace c = false := by simpa using hhead
    have hold := Text.head?_trim (t := x' ++ (w ++ '#' :: z)) hspace hc
    have hnew := Text.head?_trim (t := x') hspace hc
    obtain ⟨a, ha⟩ := List.head?_eq_some_iff.1 hold
    obtain ⟨b, hb⟩ := List.head?_eq_some_iff.1 hnew
    rw [List.append_assoc, List.cons_append, opensNoCode, ha, opensNoCode, hb]
    rfl

/-- So it is behind a visible character of a line whose comment is cut off. -/
theorem opensNoCode_rewriteLine {lines : List Line} {t : Text} {note : Note}
    (hk : note.kind.isString = false) (hsign : t[note.column]? = some '#') {i : ℕ} {c : Char}
    (hi : (rewriteLine lines false t note)[i]? = some c) (hc : isBlankChar c = false) :
    opensNoCode ((rewriteLine lines false t note).drop (i + 1)) = opensNoCode (t.drop (i + 1)) := by
  have hcut : rewriteLine lines false t note = Text.trimEnd isSpace (t.take note.column) := by
    simp only [rewriteLine, hk, Bool.false_eq_true, ↓reduceIte, Bool.false_and] at hi ⊢
    split
    · next hblank =>
      rw [if_pos hblank] at hi
      have hmem := List.mem_of_getElem? hi
      rcases blanked_eq_or t with hempty | hempty <;> rw [hempty] at hmem
      · exact absurd hmem List.not_mem_nil
      · rw [List.mem_singleton.1 hmem] at hc
        exact absurd hc (by decide)
    · rfl
  rw [hcut] at hi ⊢
  obtain ⟨w, htake, hw⟩ := Text.exists_trimEnd_append isSpace (t.take note.column)
  have hlt := (List.getElem?_eq_some_iff.1 hi).1
  obtain ⟨hcolumn, hsign⟩ := List.getElem?_eq_some_iff.1 hsign
  have hline : t = Text.trimEnd isSpace (t.take note.column) ++
      (w ++ '#' :: t.drop (note.column + 1)) := by
    rw [← List.append_assoc, ← htake, ← hsign, List.getElem_cons_drop, List.take_append_drop]
  conv_rhs => rw [hline]
  rw [List.drop_append_of_le_length hlt, opensNoCode_append hw]

section Rewrite

variable {source : Text} {ts : List Token} (ht : tokenize source = .ok ts) {ds : List Literal}
  (hapart : ds.Pairwise Literal.Apart) (hclean : GoCleanly source ts ds) {us : List Token}
  (hus : tokenize (rewrite source ((Notes.ofTokens ts).withDocstrings ds) false).content = .ok us)
include ht hapart hclean hus

/-- A token of code among those of what is left is one of the source, and lies in no literal that
goes. -/
theorem of_mem_tokenize_rewrite {u : Token} (hu : u ∈ us) (hc : u.kind.isCode = true) :
    u ∈ ts ∧ ∀ d ∈ recordedLiterals ts ds, isRemovable (splitLines source) d.extent = true →
      ¬ u.LiesIn d := by
  have hleft : u ∈ tokensLeft source ts ds := by
    rw [← filter_isVisible_rewrite ht hapart hclean hus]
    exact List.mem_filter.2 ⟨hu, by rw [Token.isVisible, hc]; rfl⟩
  obtain ⟨hmem, hleft⟩ := List.mem_filter.1 hleft
  exact ⟨(List.mem_filter.1 hmem).1, (isLeft_iff_of_isCode hc).1 hleft⟩

/-- No literal goes on the lines of code that is left. -/
theorem not_hasVerdict_of_mem {u : Token} (hu : u ∈ us) (hc : u.kind.isCode = true) {n : ℕ}
    (hn : u.IsOn n) : ¬ ((Notes.ofTokens ts).withDocstrings ds).HasVerdict source true n := by
  intro hverdict
  obtain ⟨hmem, hno⟩ := of_mem_tokenize_rewrite ht hapart hclean hus hu hc
  obtain ⟨k, hk⟩ := List.getElem?_of_mem hmem
  obtain ⟨d, hd, hnd, hrem⟩ := exists_recorded_of_hasVerdict hverdict
  obtain ⟨i, j, hruns⟩ := Literal.exists_runs_of_mem ht hclean.runs
    (mem_of_mem_recordedLiterals hd)
  exact hno d hd hrem (within_of_isRemovable ht hruns hk hc hnd hn.1 hn.2 hrem)

/-- **A literal is judged in what is left as it was in the source.** -/
theorem isRemovable_rewrite {e : Extent} {u v : Token} (hu : u ∈ us) (hcu : u.kind.isCode = true)
    (hv : v ∈ us) (hcv : v.kind.isCode = true) (hstart : e.start = u.start)
    (hstop : e.stop = v.stop) :
    isRemovable (linesLeft source ts ds) e = isRemovable (splitLines source) e := by
  have hprefix : lineText (linesLeft source ts ds) e.start.line <+:
      lineText (splitLines source) e.start.line := lineText_rewrite_isPrefix ..
  rw [isRemovable_eq, isRemovable_eq]
  congr 1
  · -- in front of the literal, the line is as it was
    obtain ⟨c, hchar, -⟩ := exists_getElem?_lineText_of_isCode hus hu hcu
    rw [← hstart] at hchar
    have hlt : e.start.column < (lineText (linesLeft source ts ds) e.start.line).length :=
      (List.getElem?_eq_some_iff.1 hchar).1
    obtain ⟨r, hr⟩ := hprefix
    rw [← hr, List.take_append_of_le_length hlt.le]
  · obtain ⟨y, c, hy, hblank, hend⟩ := exists_last_of_mem hus hv hcv
    have hchar := getElem?_lineText_of_mem hus hv (i := y.length) (by rw [hy]; simp) hblank
    have htake : v.text.take y.length = y := by rw [hy, List.take_left]
    have hline : (v.start.advanceBy y).line = e.stop.line := by rw [hstop, hend]
    rw [htake, hline] at hchar
    have hcolumn : e.stop.column = (v.start.advanceBy y).column + 1 := by rw [hstop, hend]
    have hon : v.IsOn e.stop.line := by
      refine ⟨?_, by rw [hstop]⟩
      rw [← hline]
      exact Position.line_le (Position.le_advanceBy ..)
    have hverdict := not_hasVerdict_of_mem ht hapart hclean hus hv hcv hon
    rcases rewrittenText_of_not_hasVerdict hverdict (lineText (splitLines source) e.stop.line)
      with hsame | ⟨w, hw, hkw, hwline, hcut⟩
    · rw [lineText_linesLeft, hsame]
    · have hsign := getElem?_of_comment ht hw hkw
      rw [hwline] at hsign
      rw [← linesLeft, lineText_linesLeft, hcut] at hchar
      rw [lineText_linesLeft, hcut, hcolumn]
      exact opensNoCode_rewriteLine rfl hsign hchar hblank

/-- A source and what is left of it agree on which literals can go. -/
theorem isStable_rewrite_iff {ds' : List Literal} (hds' : ∀ d ∈ ds', ∃ i j, d.Runs
      (rewrite source ((Notes.ofTokens ts).withDocstrings ds) false).content us i j) :
    IsStable (rewrite source ((Notes.ofTokens ts).withDocstrings ds) false).content us ds' ↔
      IsStable source us ds' := by
  have hsame : ∀ d ∈ recordedLiterals us ds',
      isRemovable (linesLeft source ts ds) d.extent = isRemovable (splitLines source) d.extent := by
    intro d hd
    obtain ⟨i, j, hruns⟩ := Literal.exists_runs_of_mem hus hds' (mem_of_mem_recordedLiterals hd)
    obtain ⟨u, v, -, hu, hv, hcu, hcv, hstart, hstop⟩ := hruns.exists_tokens hus
    exact isRemovable_rewrite ht hapart hclean hus (List.mem_of_getElem? hu) hcu
      (List.mem_of_getElem? hv) hcv hstart hstop
  constructor
  · rintro ⟨hstays, hcovered⟩
    exact ⟨fun d hd => (hsame d hd).symm.trans (hstays d hd), hcovered⟩
  · rintro ⟨hstays, hcovered⟩
    exact ⟨fun d hd => (hsame d hd).trans (hstays d hd), hcovered⟩

end Rewrite

/-! ## The docstrings of the second pass -/

/-- Whether a literal of the tree, which is measured behind a byte order mark, is recorded and can
go. -/
def goesFromTree (source : Text) (ts : List Token) (ds : List Literal) (d : Literal) : Bool :=
  let d := d.shiftFirstLine (splitByteOrderMark source).2
  (recordedLiterals ts ds).contains d && isRemovable (splitLines source) d.extent

/-- The statement that comes first in a body when the literals that `goes` speaks of have gone. -/
def firstStatementLeft? (text : Text) (goes : Literal → Bool) (body : SyntaxTree) :
    Option SyntaxTree :=
  body.namedChildren.find? fun s => s.kind != "comment".toList && !(s.literal? text).any goes

/-- The docstrings that a syntax tree of the source shows when the recorded literals that can go
have gone: the statements that then come first in their bodies. -/
def docstringsLeft (source : Text) (ts : List Token) (ds : List Literal) (root : SyntaxTree) :
    List Literal :=
  let (text, width) := splitByteOrderMark source
  (sortByLine ((root :: bodiesBelow root).filterMap fun body =>
    ((firstStatementLeft? text (goesFromTree source ts ds) body).filter
      (isStringStatement text)).bind (·.literal? text))).map (·.shiftFirstLine width)

/-- The statement `s` of one text and `s'` of another are the same as far as docstrings go: neither
consists of string literals, or both do and are spelled the same, in the same place. -/
structure IsSameStatement (text text' : Text) (s s' : SyntaxTree) : Prop where
  isStringStatement_eq : isStringStatement text' s' = isStringStatement text s
  literal_eq : isStringStatement text s = true → s'.literal? text' = s.literal? text

instance (text text' : Text) (s s' : SyntaxTree) : Decidable (IsSameStatement text text' s s') :=
  decidable_of_iff (isStringStatement text' s' = isStringStatement text s ∧
      (isStringStatement text s = true → s'.literal? text' = s.literal? text))
    ⟨fun h => ⟨h.1, h.2⟩, fun h => ⟨h.1, h.2⟩⟩

/-- The statement that comes first in the body `b` when the literals that `goes` speaks of have gone
is the one at the front of `b'`. -/
def IsBodyLeft (text text' : Text) (goes : Literal → Bool) (b b' : SyntaxTree) : Prop :=
  Option.Rel (IsSameStatement text text') (firstStatementLeft? text goes b) (firstStatement? b')

instance (text text' : Text) (goes : Literal → Bool) (b b' : SyntaxTree) :
    Decidable (IsBodyLeft text text' goes b b') :=
  match h : firstStatementLeft? text goes b, h' : firstStatement? b' with
  | none, none => isTrue (by rw [IsBodyLeft, h, h']; exact .none)
  | some s, some s' =>
    decidable_of_iff (IsSameStatement text text' s s')
      (by rw [IsBodyLeft, h, h']; exact ⟨.some, by rintro ⟨hsame⟩; exact hsame⟩)
  | none, some _ => isFalse (by rw [IsBodyLeft, h, h']; nofun)
  | some _, none => isFalse (by rw [IsBodyLeft, h, h']; nofun)

/-- The tree of what is left has the bodies of the tree of the source, but for the literals that
`goes` speaks of. -/
def IsTreeLeft (text text' : Text) (goes : Literal → Bool) (root root' : SyntaxTree) : Prop :=
  List.Forall₂ (IsBodyLeft text text' goes) (root :: bodiesBelow root)
    (root' :: bodiesBelow root')

instance (text text' : Text) (goes : Literal → Bool) (root root' : SyntaxTree) :
    Decidable (IsTreeLeft text text' goes root root') :=
  inferInstanceAs (Decidable (List.Forall₂ _ _ _))

/-- The docstrings `ds` are those of what is left: none if the parser refuses that, and otherwise
those that the syntax tree of the source shows then. -/
inductive ShowsLeft (parse : Parser) (source : Text) (ts : List Token) : List Literal → Prop
  | refused {e : SyntaxError} (h : docstrings parse (strip parse source).content = .error e) :
      ShowsLeft parse source ts []
  | taken {root root' : SyntaxTree} (hroot : parse (splitByteOrderMark source).1 = .ok root)
      (hroot' : parse (splitByteOrderMark (strip parse source).content).1 = .ok root')
      (hvalid : root'.hasError = false)
      (hleft : IsTreeLeft (splitByteOrderMark source).1
        (splitByteOrderMark (strip parse source).content).1
        (goesFromTree source ts (knownDocstrings parse source)) root root') :
      ShowsLeft parse source ts (docstringsLeft source ts (knownDocstrings parse source) root)

/-- What is left of a body has the docstring that the body has then. -/
theorem IsBodyLeft.docstringOfBody?_eq {text text' : Text} {goes : Literal → Bool}
    {b b' : SyntaxTree} (h : IsBodyLeft text text' goes b b') :
    docstringOfBody? text' b' =
      ((firstStatementLeft? text goes b).filter (isStringStatement text)).bind
        (·.literal? text) := by
  rw [docstringOfBody?, docstringStatement?]
  rw [IsBodyLeft] at h
  generalize firstStatementLeft? text goes b = s, firstStatement? b' = s' at h ⊢
  cases h with
  | none => rfl
  | some h =>
    rw [Option.filter_some, Option.filter_some, h.isStringStatement_eq]
    split
    · next hstring => exact h.literal_eq hstring
    · rfl

theorem filterMap_docstring_of_forall₂ {text text' : Text} {goes : Literal → Bool}
    {bs bs' : List SyntaxTree} (h : List.Forall₂ (IsBodyLeft text text' goes) bs bs') :
    bs'.filterMap (docstringOfBody? text') = bs.filterMap fun b =>
      ((firstStatementLeft? text goes b).filter (isStringStatement text)).bind
        (·.literal? text) := by
  induction h with
  | nil => rfl
  | cons h _ ih => rw [List.filterMap_cons, List.filterMap_cons, ih, h.docstringOfBody?_eq]

/-- The second pass has these docstrings. -/
theorem ShowsLeft.knownDocstrings_eq {parse : Parser} {source : Text} {ts : List Token}
    (ht : tokenize source = .ok ts) {ds : List Literal} (h : ShowsLeft parse source ts ds) :
    knownDocstrings parse (strip parse source).content = ds := by
  cases h with
  | refused h => rw [knownDocstrings, h]
  | taken hroot hroot' hvalid hleft =>
    obtain ⟨m, t, e, -, -, -, hsplit, hsplit'⟩ :=
      exists_splitByteOrderMark source ts (knownDocstrings parse source)
    rw [← strip_eq_rewrite ht] at hsplit'
    have hwidth : (splitByteOrderMark (strip parse source).content).2 =
        (splitByteOrderMark source).2 := by
      rw [hsplit, hsplit']
    have hdocstrings := filterMap_docstring_of_forall₂ hleft
    rw [knownDocstrings, docstrings]
    simp only [hroot', bind, Except.bind, hvalid, Bool.false_eq_true, ↓reduceIte,
      SyntaxTree.docstrings, hdocstrings, hwidth]
    rfl

/-- The notes come from tokens when there are any. -/
theorem baseNotes_snd_iff {source : Text} :
    (baseNotes source).2 = true ↔ ∃ ts, tokenize source = .ok ts := by
  rw [baseNotes]
  cases tokenize source <;> simp

theorem Literal.Runs.of_sublist {source : Text} {ts us : List Token} (h : ts.Sublist us)
    {d : Literal} {i j : ℕ} (hd : d.Runs source ts i j) : ∃ k l, d.Runs source us k l := by
  obtain ⟨f, hf⟩ := List.sublist_iff_exists_orderEmbedding_getElem?_eq.1 h
  obtain ⟨u, v, raw, hij, hu, hv, hrest⟩ := hd
  exact ⟨f i, f j, u, v, raw, f.monotone hij, (hf i).symm.trans hu, (hf j).symm.trans hv, hrest⟩

/-- **Stripping twice is stripping once** exactly if, in the source, none of the literals can go
that are recorded among the code and the comments that are left, and the comments are on lines of
such literals. This is so when the lines that are left are nested; otherwise the second pass does
not go by tokens any more. The parser refuses what is left, or sees in it the bodies of the source
without what has gone. The literals that go are to be made of whole tokens, and so are the
docstrings of the second pass. -/
theorem strip_strip_iff {parse : Parser} (hparse : parse.IsSound) {source : Text}
    {ts : List Token} (ht : tokenize source = .ok ts)
    (hclean : GoCleanly source ts (knownDocstrings parse source)) {ds : List Literal}
    (hds : ShowsLeft parse source ts ds)
    (hruns : ∀ d ∈ ds, ∃ i j, d.Runs (strip parse source).content
      (tokensLeft source ts (knownDocstrings parse source)) i j) :
    ((analyze parse (strip parse source).content).reading.tokens =
      isNested [] (startColumns (linesBehindMark (strip parse source).content) (lineStarts ts))) ∧
    ((analyze parse (strip parse source).content).reading.tokens = true →
      ((strip parse (strip parse source).content).content = (strip parse source).content ∧
        (strip parse (strip parse source).content).removed = 0 ↔
      IsStable source (tokensLeft source ts (knownDocstrings parse source)) ds)) := by
  have hpath := exists_tokenize_strip_iff hparse ht hclean
  rw [tokens_reading_analyze, Bool.eq_iff_iff, ← hpath]
  refine ⟨baseNotes_snd_iff, fun htokens => ?_⟩
  obtain ⟨us, hus⟩ := baseNotes_snd_iff.1 htokens
  have hknown := hds.knownDocstrings_eq ht
  have hus' := hus
  rw [strip_eq_rewrite ht] at hus'
  have hapart := docstrings_apart hparse source
  have hleft := filter_isVisible_rewrite ht hapart hclean hus'
  have hruns' : ∀ d ∈ ds, ∃ i j, d.Runs (strip parse source).content us i j := by
    intro d hd
    obtain ⟨i, j, hrun⟩ := hruns d hd
    rw [← hleft] at hrun
    exact hrun.of_sublist List.filter_sublist
  rw [strip_eq_self_iff, isSettled_iff_isStable hus hparse (hknown ▸ hruns'), hknown, ← hleft,
    isStable_filter_iff hus]
  rw [strip_eq_rewrite ht] at hruns' ⊢
  exact isStable_rewrite_iff ht hapart hclean hus' hruns'

/-- A docstring with a comment behind it, and a string in front of an assignment. -/
def stringBehindDocstring : Text := "\"\"\"a\"\"\"  # c\n'b'; x = 1\n".toList

/-- The token of the string. -/
def secondString : Token := .at .string "'b'".toList ⟨2, 0⟩

/-- The tokens of `stringBehindDocstring`. -/
def stringBehindDocstringTokens : List Token :=
  [.at .string "\"\"\"a\"\"\"".toList ⟨1, 0⟩, .at .comment "# c".toList ⟨1, 9⟩,
   ⟨.newline, ['\n'], ⟨1, 12⟩, ⟨1, 13⟩⟩, secondString, .at .op [';'] ⟨2, 3⟩,
   .at .name ['x'] ⟨2, 5⟩, .at .op ['='] ⟨2, 7⟩, .at .number ['1'] ⟨2, 9⟩,
   ⟨.newline, ['\n'], ⟨2, 10⟩, ⟨2, 11⟩⟩, .at .endMarker [] ⟨3, 0⟩]

theorem tokenize_stringBehindDocstring :
    tokenize stringBehindDocstring = .ok stringBehindDocstringTokens := by
  decide +kernel

/-- The statements on the last line, which starts at `byte`. -/
def lastStatements (byte : ℕ) : List SyntaxTree :=
  [.stringStatement 1 ⟨byte, 1⟩ ⟨byte + 3, 1⟩, .mark ";" ⟨byte + 3, 1⟩ ⟨byte + 4, 1⟩,
   .named "expression_statement" ⟨byte + 5, 1⟩ ⟨byte + 10, 1⟩
    [.named "assignment" ⟨byte + 5, 1⟩ ⟨byte + 10, 1⟩
      [.as "left" (.named "identifier" ⟨byte + 5, 1⟩ ⟨byte + 6, 1⟩ []),
       .mark "=" ⟨byte + 7, 1⟩ ⟨byte + 8, 1⟩,
       .as "right" (.named "integer" ⟨byte + 9, 1⟩ ⟨byte + 10, 1⟩ [])]]]

/-- The syntax tree of `stringBehindDocstring`. -/
def stringBehindDocstringTree : SyntaxTree :=
  .named "module" ⟨0, 0⟩ ⟨24, 2⟩ (.stringStatement 3 ⟨0, 0⟩ ⟨7, 0⟩ ::
    .named "comment" ⟨9, 0⟩ ⟨12, 0⟩ [] :: lastStatements 13)

/-- What is left of `stringBehindDocstring`. -/
def onlyLastStatements : Text := "\n'b'; x = 1\n".toList

/-- The syntax tree of `onlyLastStatements`. -/
def onlyLastStatementsTree : SyntaxTree :=
  .named "module" ⟨1, 1⟩ ⟨12, 2⟩ (lastStatements 1)

/-- A parser that knows `stringBehindDocstring` and what is left of it. -/
def parseTwice : Parser := .ofTable
  [(stringBehindDocstring, stringBehindDocstringTree), (onlyLastStatements, onlyLastStatementsTree)]

theorem goCleanly_stringBehindDocstring : GoCleanly stringBehindDocstring
    stringBehindDocstringTokens (knownDocstrings parseTwice stringBehindDocstring) := by
  have hdocstrings : knownDocstrings parseTwice stringBehindDocstring =
      [.ofToken (.at .string "\"\"\"a\"\"\"".toList ⟨1, 0⟩)] := by
    decide +kernel
  have hu : stringBehindDocstringTokens[0]? =
      some (.at .string "\"\"\"a\"\"\"".toList ⟨1, 0⟩) := rfl
  rw [hdocstrings]
  refine ⟨fun d hd => ?_, ?_, ?_⟩
  · obtain rfl := List.mem_singleton.1 hd
    exact ⟨0, 0, Literal.runs_ofToken tokenize_stringBehindDocstring hu rfl⟩
  · simp only [Token.LiesIn]
    decide +kernel
  · decide +kernel

/-- The string has become the docstring. -/
theorem showsLeft_stringBehindDocstring : ShowsLeft parseTwice stringBehindDocstring
    stringBehindDocstringTokens [.ofToken secondString] := by
  have hleft : docstringsLeft stringBehindDocstring stringBehindDocstringTokens
      (knownDocstrings parseTwice stringBehindDocstring) stringBehindDocstringTree =
        [.ofToken secondString] := by
    decide +kernel
  rw [← hleft]
  have htree : IsTreeLeft stringBehindDocstring onlyLastStatements
      (goesFromTree stringBehindDocstring stringBehindDocstringTokens
        (knownDocstrings parseTwice stringBehindDocstring))
      stringBehindDocstringTree onlyLastStatementsTree := by
    decide +kernel
  have hcontent : (strip parseTwice stringBehindDocstring).content = onlyLastStatements := by
    decide +kernel
  have hroot : parseTwice (splitByteOrderMark (strip parseTwice stringBehindDocstring).content).1 =
      .ok onlyLastStatementsTree := by
    rw [hcontent]
    rfl
  refine .taken rfl hroot (by decide) ?_
  rw [hcontent]
  exact htree

theorem runs_secondString : ∀ d ∈ [Literal.ofToken secondString], ∃ i j,
    d.Runs (strip parseTwice stringBehindDocstring).content (tokensLeft stringBehindDocstring
      stringBehindDocstringTokens (knownDocstrings parseTwice stringBehindDocstring)) i j := by
  intro d hd
  obtain rfl := List.mem_singleton.1 hd
  have hu : (tokensLeft stringBehindDocstring stringBehindDocstringTokens
      (knownDocstrings parseTwice stringBehindDocstring))[0]? = some secondString := by
    decide +kernel
  exact ⟨0, 0, secondString, secondString, secondString.text, le_rfl, hu, hu, rfl, rfl,
    by decide +kernel, rfl, rfl⟩

/-- The second pass goes by tokens again, and the string stays, for the assignment shares its
line. -/
theorem strip_strip_stringBehindDocstring :
    (analyze parseTwice (strip parseTwice stringBehindDocstring).content).reading.tokens = true ∧
    (strip parseTwice (strip parseTwice stringBehindDocstring).content).content =
        (strip parseTwice stringBehindDocstring).content ∧
      (strip parseTwice (strip parseTwice stringBehindDocstring).content).removed = 0 := by
  have hparse : parseTwice.IsSound := Parser.isSound_ofTable (by decide +kernel)
  obtain ⟨hpath, hiff⟩ := strip_strip_iff hparse tokenize_stringBehindDocstring
    goCleanly_stringBehindDocstring showsLeft_stringBehindDocstring runs_secondString
  have htokens : (analyze parseTwice
      (strip parseTwice stringBehindDocstring).content).reading.tokens = true :=
    hpath.trans (by decide +kernel)
  exact ⟨htokens, (hiff htokens).2 ⟨by decide +kernel, by decide +kernel⟩⟩

/-- A parser that knows two strings in a row, and what is left of them. -/
def parseTwoStrings : Parser := .ofTable
  [("\"\"\"a\"\"\"\n'b'\n".toList, .named "module" ⟨0, 0⟩ ⟨12, 2⟩
    [.stringStatement 3 ⟨0, 0⟩ ⟨7, 0⟩, .stringStatement 1 ⟨8, 1⟩ ⟨11, 1⟩]),
   ("\n'b'\n".toList, .named "module" ⟨1, 1⟩ ⟨5, 2⟩ [.stringStatement 1 ⟨1, 1⟩ ⟨4, 1⟩])]

/-- When the string in front has gone, the one after it has become the docstring. -/
theorem not_strip_strip : ¬ ∀ parse : Parser, parse.IsSound → ∀ source,
    (strip parse (strip parse source).content).content = (strip parse source).content ∧
      (strip parse (strip parse source).content).removed = 0 := by
  intro h
  have hparse : parseTwoStrings.IsSound := Parser.isSound_ofTable (by decide +kernel)
  have htwice := h parseTwoStrings hparse "\"\"\"a\"\"\"\n'b'\n".toList
  revert htwice
  decide +kernel

end Marginalia
