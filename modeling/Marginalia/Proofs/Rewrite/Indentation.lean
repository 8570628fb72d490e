import Marginalia.Proofs.ByteOrderMark
import Marginalia.Proofs.Rewrite.Pieces
import Marginalia.Proofs.Token.LineStarts

/-!
# What is left of a source has tokens again

When the scanner goes through what is left of a source, it comes by the pieces of the source again,
those that are dropped left out. A piece that stays is read as it was, because the line behind it is
at most cut (`accepts_piece_iff`). So all that can go wrong is the indentation: what is left has
tokens exactly when the columns at which its logical lines start are nested (`accepts_thinned_iff`),
and these columns are those of the source, but for the lines that go.

This can go wrong. A literal may open a block, and when it goes, the block is opened by a deeper
line, or not at all (`not_tokenize_strip`). It goes right when no line that goes has a deeper one
behind it (`CarriesNoBlock`), as in every source that a parser would take, where no block follows a
literal.
-/

namespace Marginalia

/-! ## Lines of what is left -/

/-- A line is measured in the thinned text where it starts in the source. -/
theorem indentOf?_lineText_thinned {source m pre t : Text} (h : source = m ++ pre ++ t)
    (hm : '\n' ∉ m) (hpre : pre = [] ∨ pre.getLast? = some '\n') (new : List Line)
    (e : Terminator) :
    indentOf? (lineText (splitLines (thinned (splitLines source) new
        (Position.origin.advanceBy m) (pre ++ t) ++ e.text))
          (Position.origin.advanceBy (m ++ pre)).line) =
      indentOf? (thinned (splitLines source) new (Position.origin.advanceBy (m ++ pre)) t ++
        e.text) := by
  have hcount : List.count '\n'
      (thinned (splitLines source) new (Position.origin.advanceBy m) pre) = List.count '\n' pre :=
    count_thinned h
  have hends : thinned (splitLines source) new (Position.origin.advanceBy m) pre = [] ∨
      ∃ y, thinned (splitLines source) new (Position.origin.advanceBy m) pre = y ++ ['\n'] := by
    rcases hpre with rfl | hlast
    · exact Or.inl rfl
    · obtain ⟨y, rfl⟩ := List.getLast?_eq_some_iff.1 hlast
      right
      rw [thinned_append, ← Position.advanceBy_append, thinned_lineFeed (t := t) (by rw [h]; simp)]
      exact ⟨_, rfl⟩
  rw [thinned_append, ← Position.advanceBy_append, List.append_assoc, Position.line_advanceBy,
    List.count_append, List.count_eq_zero_of_not_mem hm, Nat.zero_add, ← hcount]
  generalize thinned (splitLines source) new (Position.origin.advanceBy m) pre = x at hends
  have hlast : x.getLast? ≠ some '\r' := by
    rcases hends with rfl | ⟨y, rfl⟩ <;> simp
  have hline : Literal.lastLine x = [] := by
    rcases hends with rfl | ⟨y, rfl⟩
    · rfl
    · rw [Literal.lastLine_append_lineFeed]
      rfl
  have hcut := lineText_splitLines_append (a := x) (b := thinned (splitLines source) new
    (Position.origin.advanceBy (m ++ pre)) t ++ e.text) fun hcr => absurd hcr hlast
  rw [show Position.origin.line = 1 from rfl, hcut, hline, List.nil_append, indentOf?_firstLine]

/-! ## The scanner on what is left -/

theorem Reached.openLine {source : Text} {ts : List Token} {pre ws r : Text} {us rest : List Token}
    (h : Reached source ts pre (ws ++ r) (us ++ rest)) {indents opened : List ℕ}
    (hopen : Marginalia.openLine indents (Position.origin.advanceBy pre) ws r = .ok (us, opened)) :
    Reached source ts (pre ++ ws) r rest := by
  refine h.advance fun u hu => ?_
  rw [(of_mem_openLine hopen hu).1, Position.advanceBy_append]

theorem Reached.place {source : Text} {ts : List Token} {pre x r : Text} {u : Option Token}
    {rest : List Token} (h : Reached source ts pre (x ++ r) (u.toList ++ rest)) {l l' : Layout}
    {k : Piece}
    (hplace : Marginalia.place l (Position.origin.advanceBy pre) x k = .ok (u, l')) :
    Reached source ts (pre ++ x) r rest := by
  refine h.advance fun v hv => ?_
  obtain rfl : u = some v := by simpa using hv
  obtain ⟨hstart, z, rfl⟩ := of_place hplace
  rw [hstart, Position.advanceBy_append, Position.advanceBy_append _ v.text]
  exact Position.le_advanceBy ..

section Scan

variable {source : Text} {ts : List Token} {new : List Line} (hkeeps : KeepsPieces source ts new)
  {e : Terminator}
include hkeeps

/-- **One step**: the scanner accepts what is left of a text if it accepts what is left behind the
next piece. -/
theorem accepts_piece_iff {pre : Text} {c : Char} {r : Text} {rest : List Token} {l l' : Layout}
    (hl : l.atLineStart = false) {k : Piece} {n : ℕ} (hread : Piece.read c r = .ok (k, n))
    {u : Option Token}
    (hplace : place l (Position.origin.advanceBy pre) (c :: r.take n) k = .ok (u, l'))
    (h : Reached source ts pre (c :: r.take n ++ r.drop n) (u.toList ++ rest))
    (hrest : Tiles (Position.origin.advanceBy (pre ++ c :: r.take n)) (r.drop n) rest)
    (indents : List ℕ) :
    Accepts { l with indents } (thinned (splitLines source) new (Position.origin.advanceBy pre)
        (c :: r.take n ++ r.drop n) ++ e.text) ↔
      Accepts { l' with indents } (thinned (splitLines source) new
        (Position.origin.advanceBy (pre ++ c :: r.take n)) (r.drop n) ++ e.text) := by
  have hfits := (Piece.fits_of_read hread).2
  have hsource := h.source_eq
  rw [← List.append_assoc] at hsource
  rcases hkeeps h hfits hplace hrest with hstays | ⟨hdropped, s, rfl⟩
  · obtain ⟨-, v, s, hplace'⟩ :=
      exists_place_of_place hplace (Position.origin.advanceBy pre) indents l.inStatement
    rw [thinned_append, hstays, ← Position.advanceBy_append, List.append_assoc, List.cons_append,
      accepts_take_append_iff (l := { l with indents }) hl hread hplace' (isCutOf_thinned hsource)]
    exact accepts_inStatement_iff s (l := { l' with indents })
  · rw [accepts_thinned_iff_of_isDropped hsource hdropped (l := { l with indents }) hl]
    exact (accepts_inStatement_iff s (l := { l with indents })).symm

/-- **A whole run**: what is left of a text is accepted if its lines are nested in the open
blocks. -/
theorem accepts_thinned_iff {m t₀ : Text} (hsource : source = m ++ t₀) (hm : '\n' ∉ m)
    {l : Layout} {p : Position} {t : Text} {rest : List Token} (h : scan l p t = .ok rest)
    {pre : Text} (hp : Position.origin.advanceBy (m ++ pre) = p)
    (hreached : Reached source ts (m ++ pre) t rest)
    (hstart : l.atLineStart = true → pre = [] ∨ pre.getLast? = some '\n') (indents : List ℕ) :
    Accepts { l with indents } (thinned (splitLines source) new p t ++ e.text) ↔
      isNested indents (startColumns (splitLines (thinned (splitLines source) new
        (Position.origin.advanceBy m) t₀ ++ e.text)) (pendingStarts l p rest)) = true := by
  -- the scanner goes through the source, and has `pre` behind it
  fun_induction scan l p t generalizing rest pre indents with
  | case1 => simp at h
  | case2 l p t hl ws rest' us opened hopen =>
    rename_i ih
    obtain ⟨rest, hrest, rfl⟩ := exists_of_map_eq_ok h
    have hws : ∀ c ∈ ws, isInlineSpace c = true := fun c hc => List.mem_takeWhile_imp hc
    have hsplit : t = ws ++ rest' := List.takeWhile_append_dropWhile.symm
    have hfront := hreached.source_eq
    obtain rfl : t₀ = pre ++ t := by
      rw [hsource, List.append_assoc] at hfront
      exact List.append_cancel_left hfront
    have hthinned : thinned (splitLines source) new p t = thinned (splitLines source) new p ws ++
        thinned (splitLines source) new (p.advanceBy ws) rest' := by
      rw [← thinned_append, ← hsplit]
    rw [hsplit] at hreached
    have hreached' := hreached.openLine (hp.symm ▸ hopen)
    rw [List.append_assoc] at hreached'
    have hends := ih hrest (by rw [← hp, ← Position.advanceBy_append, List.append_assoc])
      hreached' (fun h => Bool.noConfusion h)
    have hcolumn := indentOf?_lineText_thinned hfront hm (hstart hl) new e
    rw [hp] at hcolumn
    rw [pendingStarts_of_atLineStart hl, startColumns_cons, hcolumn]
    refine accepts_iff_isNested (l := { l with indents }) hl fun opened => ?_
    rw [hthinned, List.append_assoc, accepts_spaces_append_iff rfl
      fun c hc => hws c ((thinned_sublist ..).subset hc), hends,
      pendingStarts_of_not_atLineStart rfl, lineStartsFrom_openLine hws hopen]
  | case3 l p hl =>
    have hl' : l.atLineStart = false := by simpa using hl
    obtain ⟨hdepth, hnone⟩ := lineStartsFrom_finish h l.depth
    rw [pendingStarts_of_not_atLineStart hl', hnone]
    exact iff_of_true (accepts_terminator (l := { l with indents }) hdepth e) rfl
  | case4 => simp at h
  | case5 => simp at h
  | case6 l p hl c r k n hread x u l' hplace =>
    rename_i ih
    have hl' : l.atLineStart = false := by simpa using hl
    obtain ⟨rest, hrest, rfl⟩ := exists_of_map_eq_ok h
    obtain ⟨-, hfits⟩ := Piece.fits_of_read hread
    have hsplit : c :: r = x ++ r.drop n := by simp [x]
    subst hp
    rw [hsplit] at hreached ⊢
    have hreached' := hreached.place hplace
    have htiles := tiles_of_scan hrest
    rw [← Position.advanceBy_append] at htiles
    rw [accepts_piece_iff hkeeps hl' hread hplace hreached htiles,
      pendingStarts_of_not_atLineStart hl', lineStartsFrom_place hl' hfits hplace,
      Position.advanceBy_append _ (m ++ pre)]
    rw [List.append_assoc] at hreached'
    refine ih hrest (by rw [← Position.advanceBy_append, List.append_assoc]) hreached' ?_ indents
    intro hline
    right
    have hx : x = ['\n'] := eq_lineFeed_of_place hl' hfits hplace hline
    rw [hx, List.getLast?_concat]

/-- What is left of a whole source, behind its byte order mark. -/
theorem exists_scan_thinned_iff {m t : Text} (hsource : source = m ++ t) (hm : '\n' ∉ m)
    (hmark : (splitByteOrderMark source).2 = m.length)
    (h : scan .initial (Position.origin.advanceBy m) t = .ok ts) (p : Position) :
    (∃ us, scan .initial p (thinned (splitLines source) new (Position.origin.advanceBy m) t ++
        e.text) = .ok us) ↔
      isNested [] (startColumns (splitLines (thinned (splitLines source) new
        (Position.origin.advanceBy m) t ++ e.text)) (lineStarts ts)) = true := by
  have hreached : Reached source ts (m ++ []) t ts := by
    refine ⟨by rw [hsource, List.append_nil], ?_, [], rfl, by simp⟩
    rw [hmark, List.append_nil]
  have hline : (Position.origin.advanceBy m).line = 1 := Position.line_advanceBy_of_notMem _ hm
  have hrun := accepts_thinned_iff hkeeps (e := e) hsource hm h (by rw [List.append_nil]) hreached
    (fun _ => Or.inl rfl) []
  rw [pendingStarts_of_atLineStart rfl, hline] at hrun
  refine Iff.trans ?_ hrun
  exact (accepts_iff_scan p false (l := .initial)).symm

end Scan

/-! ## The whole source -/

/-- A byte order mark at the front of a line stays. -/
theorem head?_rewrittenText_mark {lines : List Line} {ns : Notes} {verify : Bool} {n : ℕ} {t : Text}
    (h : t.head? = some byteOrderMark) :
    (rewrittenText lines ns verify n t).head? = some byteOrderMark := by
  obtain ⟨r, rfl⟩ := List.head?_eq_some_iff.1 h
  rw [rewrittenText]
  cases ns.get? n with
  | none => rfl
  | some note =>
    have hblanked : blanked (byteOrderMark :: r) = [byteOrderMark] := by
      rw [blanked, if_pos rfl]
    simp only [rewriteLine, hblanked]
    cases note.column with
    | zero =>
      simp only [List.take_zero, show isBlank [] = true from rfl, ↓reduceIte]
      split_ifs <;> rfl
    | succ k =>
      rw [List.take_succ_cons, Text.trimEnd_isSpace_mark]
      split_ifs <;> rfl

/-- The lines of a source behind its byte order mark. -/
def linesBehindMark (source : Text) : List Line := splitLines (splitByteOrderMark source).1

theorem lineText_linesBehindMark (source : Text) (n : ℕ) :
    lineText (linesBehindMark source) n =
      (lineText (splitLines source) n).drop (firstColumn source n) := by
  by_cases hmark : source.head? = some byteOrderMark
  · obtain ⟨t, rfl⟩ := List.head?_eq_some_iff.1 hmark
    have hcolumn : firstColumn (byteOrderMark :: t) n = if n = 1 then 1 else 0 := rfl
    rw [splitLines_mark, hcolumn]
    split
    · next hn =>
      rw [hn, lineText_push_one]
      rfl
    · next hn =>
      rw [lineText_mark _ hn]
      rfl
  · rw [linesBehindMark, firstColumn, splitByteOrderMark_of_head? hmark]
    simp

/-- What is left of a source behind its byte order mark is thinned as the source is. -/
theorem exists_splitByteOrderMark (source : Text) (ts : List Token) (ds : List Literal) :
    ∃ m t, ∃ e : Terminator, source = m ++ t ∧ '\n' ∉ m ∧
      Position.origin.advanceBy m = ⟨1, m.length⟩ ∧
      splitByteOrderMark source = (t, m.length) ∧
      splitByteOrderMark (rewrite source ((Notes.ofTokens ts).withDocstrings ds) false).content =
        (thinned (splitLines source) (linesLeft source ts ds) (Position.origin.advanceBy m) t ++
          e.text, m.length) := by
  obtain ⟨e, hcontent⟩ :=
    exists_content_rewrite source ((Notes.ofTokens ts).withDocstrings ds) false
  by_cases hmark : source.head? = some byteOrderMark
  · obtain ⟨t, rfl⟩ := List.head?_eq_some_iff.1 hmark
    refine ⟨[byteOrderMark], t, e, rfl, by decide, rfl, rfl, ?_⟩
    have hline : (lineText (linesLeft (byteOrderMark :: t) ts ds) 1).head? =
        some byteOrderMark := by
      rw [lineText_linesLeft]
      refine head?_rewrittenText_mark ?_
      rw [splitLines_mark, lineText_push_one]
      rfl
    have hstays : Stays (splitLines (byteOrderMark :: t)) (linesLeft (byteOrderMark :: t) ts ds)
        Position.origin := by
      left
      obtain ⟨r, hr⟩ := List.head?_eq_some_iff.1 hline
      rw [show Position.origin.line = 1 from rfl, hr]
      exact Nat.succ_pos _
    rw [hcontent, ← linesLeft, thinned, if_pos hstays]
    rfl
  · refine ⟨[], source, e, rfl, by simp, rfl, splitByteOrderMark_of_head? hmark, ?_⟩
    rw [splitByteOrderMark_of_head?, hcontent]
    · rfl
    · intro hhead
      obtain ⟨t, ht⟩ := List.head?_eq_some_iff.1 hhead
      obtain ⟨r, hr⟩ := lineText_rewrite_isPrefix source ((Notes.ofTokens ts).withDocstrings ds)
        false 1
      rw [ht, ← firstLine, firstLine_cons (by decide) (by decide)] at hr
      exact hmark (head?_of_lineText_one (by rw [← hr]; rfl))

section Strip

variable {parse : Parser} (hparse : parse.IsSound) {source : Text} {ts : List Token}
  (ht : tokenize source = .ok ts) (hclean : GoCleanly source ts (knownDocstrings parse source))
include hparse ht hclean

/-- **What is left of a source has tokens again exactly when its lines are nested**, if the literals
that go are made of whole tokens, with no bracket among them. -/
theorem exists_tokenize_strip_iff : (∃ us, tokenize (strip parse source).content = .ok us) ↔
    isNested [] (startColumns (linesBehindMark (strip parse source).content) (lineStarts ts)) =
      true := by
  obtain ⟨m, t, e, hsource, hm, horigin, hsplit, hleft⟩ :=
    exists_splitByteOrderMark source ts (knownDocstrings parse source)
  have hscan : scan .initial (Position.origin.advanceBy m) t = .ok ts := by
    rw [tokenize, hsplit] at ht
    rwa [horigin]
  have hmark : (splitByteOrderMark source).2 = m.length := by rw [hsplit]
  have hkeeps := keepsPieces_linesLeft ht (docstrings_apart hparse source) hclean
  rw [strip_eq_rewrite ht, tokenize, linesBehindMark, hleft]
  exact exists_scan_thinned_iff hkeeps hsource hm hmark hscan _

omit hparse hclean in
/-- The lines of a source that has tokens are nested. -/
theorem isNested_startColumns_source :
    isNested [] (startColumns (linesBehindMark source) (lineStarts ts)) = true := by
  obtain ⟨m, t, e, hsource, hm, horigin, hsplit, -⟩ := exists_splitByteOrderMark source ts []
  have hscan : scan .initial (Position.origin.advanceBy m) t = .ok ts := by
    rw [tokenize, hsplit] at ht
    rwa [horigin]
  have hsame := (exists_scan_thinned_iff (keepsPieces_splitLines source ts) (e := .none) hsource
    hm (by rw [hsplit]) hscan (Position.origin.advanceBy m)).1
  rw [thinned_splitLines, Terminator.text, List.append_nil] at hsame
  rw [linesBehindMark, hsplit]
  exact hsame ⟨ts, hscan⟩

omit hparse hclean in
/-- What is left of a line begins as the line does, also behind the byte order mark. -/
theorem lineText_linesBehindMark_isPrefix (n : ℕ) :
    lineText (linesBehindMark (strip parse source).content) n <+:
      lineText (linesBehindMark source) n := by
  obtain ⟨m, t, e, -, -, -, hsplit, hleft⟩ :=
    exists_splitByteOrderMark source ts (knownDocstrings parse source)
  have hcolumn : firstColumn (strip parse source).content n = firstColumn source n := by
    rw [firstColumn, firstColumn, strip_eq_rewrite ht, hleft, hsplit]
  rw [lineText_linesBehindMark, lineText_linesBehindMark, hcolumn, strip_eq_rewrite ht]
  exact (lineText_rewrite_isPrefix ..).drop _

end Strip

/-- **What is left of a source has tokens again exactly when its lines are nested**, if the literals
that go are made of whole tokens, with no bracket among them. Its lines are nested when no line that
goes carries a block. -/
theorem tokenize_strip {parse : Parser} (hparse : parse.IsSound) {source : Text} {ts : List Token}
    (ht : tokenize source = .ok ts)
    (hclean : GoCleanly source ts (knownDocstrings parse source)) :
    ((∃ us, tokenize (strip parse source).content = .ok us) ↔
      isNested [] (startColumns (linesBehindMark (strip parse source).content) (lineStarts ts)) =
        true) ∧
    (CarriesNoBlock (linesBehindMark source) (linesBehindMark (strip parse source).content)
      (lineStarts ts) → ∃ us, tokenize (strip parse source).content = .ok us) := by
  have hiff := exists_tokenize_strip_iff hparse ht hclean
  refine ⟨hiff, fun hcarry => hiff.2 ?_⟩
  refine isNested_startColumns (fun n _ => ?_) hcarry (isNested_startColumns_source ht)
  exact indentOf?_of_isPrefix (lineText_linesBehindMark_isPrefix ht n)

/-- A function with a docstring, and a comment. -/
def function : Text := "def f():\n  'a'\n  return 1  # b\n".toList

/-- The tokens of `function`. -/
def functionTokens : List Token :=
  [.at .name "def".toList ⟨1, 0⟩, .at .name ['f'] ⟨1, 4⟩, .at .op ['('] ⟨1, 5⟩,
   .at .op [')'] ⟨1, 6⟩, .at .op [':'] ⟨1, 7⟩, ⟨.newline, ['\n'], ⟨1, 8⟩, ⟨1, 9⟩⟩,
   .at .indent "  ".toList ⟨2, 0⟩, .at .string "'a'".toList ⟨2, 2⟩,
   ⟨.newline, ['\n'], ⟨2, 5⟩, ⟨2, 6⟩⟩, .at .name "return".toList ⟨3, 2⟩,
   .at .number ['1'] ⟨3, 9⟩, .at .comment "# b".toList ⟨3, 12⟩,
   ⟨.newline, ['\n'], ⟨3, 15⟩, ⟨3, 16⟩⟩, .at .dedent [] ⟨4, 0⟩, .at .endMarker [] ⟨4, 0⟩]

theorem tokenize_function : tokenize function = .ok functionTokens := by
  decide +kernel

/-- A parser that knows `function`. -/
def parseFunction : Parser := .ofTable
  [(function, .named "module" ⟨0, 0⟩ ⟨31, 3⟩
    [.function 0 0 ⟨11, 1⟩ ⟨30, 2⟩
      [.stringStatement 1 ⟨11, 1⟩ ⟨14, 1⟩,
       .named "return_statement" ⟨17, 2⟩ ⟨25, 2⟩
        [.mark "return" ⟨17, 2⟩ ⟨23, 2⟩, .named "integer" ⟨24, 2⟩ ⟨25, 2⟩ []],
       .named "comment" ⟨27, 2⟩ ⟨30, 2⟩ []]])]

theorem goCleanly_function :
    GoCleanly function functionTokens (knownDocstrings parseFunction function) := by
  have hdocstrings : knownDocstrings parseFunction function =
      [.ofToken (.at .string "'a'".toList ⟨2, 2⟩)] := by
    decide +kernel
  have hu : functionTokens[7]? = some (.at .string "'a'".toList ⟨2, 2⟩) := rfl
  rw [hdocstrings]
  refine ⟨fun d hd => ?_, ?_, ?_⟩
  · obtain rfl := List.mem_singleton.1 hd
    exact ⟨7, 7, Literal.runs_ofToken tokenize_function hu rfl⟩
  · simp only [Token.LiesIn]
    decide +kernel
  · decide +kernel

/-- The docstring goes, and the statement behind it opens the block. -/
theorem tokenize_strip_function : ∃ us, tokenize (strip parseFunction function).content = .ok us :=
  (tokenize_strip (Parser.isSound_ofTable (by decide +kernel)) tokenize_function
    goCleanly_function).2 (by decide +kernel)

/-- A literal that opens a block, a deeper line, and a line at the column of the literal. -/
def sunken : Text := " \"\"\"a\"\"\"\n  x\n y\n".toList

/-- The tokens of `sunken`. -/
def sunkenTokens : List Token :=
  [.at .indent [' '] ⟨1, 0⟩, .at .string "\"\"\"a\"\"\"".toList ⟨1, 1⟩,
   ⟨.newline, ['\n'], ⟨1, 8⟩, ⟨1, 9⟩⟩, .at .indent "  ".toList ⟨2, 0⟩, .at .name ['x'] ⟨2, 2⟩,
   ⟨.newline, ['\n'], ⟨2, 3⟩, ⟨2, 4⟩⟩, .at .dedent [] ⟨3, 1⟩, .at .name ['y'] ⟨3, 1⟩,
   ⟨.newline, ['\n'], ⟨3, 2⟩, ⟨3, 3⟩⟩, .at .dedent [] ⟨4, 0⟩, .at .endMarker [] ⟨4, 0⟩]

theorem tokenize_sunken : tokenize sunken = .ok sunkenTokens := by
  decide +kernel

/-- A parser that takes the lines of `sunken` for three statements. -/
def parseSunken : Parser := .ofTable
  [(sunken, .named "module" ⟨1, 0⟩ ⟨16, 3⟩
    [.stringStatement 3 ⟨1, 0⟩ ⟨8, 0⟩,
     .named "expression_statement" ⟨11, 1⟩ ⟨12, 1⟩ [.named "identifier" ⟨11, 1⟩ ⟨12, 1⟩ []],
     .named "expression_statement" ⟨14, 2⟩ ⟨15, 2⟩ [.named "identifier" ⟨14, 2⟩ ⟨15, 2⟩ []]])]

/-- When the literal has gone, the last line goes back to a block that was never opened. -/
theorem not_tokenize_strip : ¬ ∀ parse : Parser, parse.IsSound → ∀ source ts,
    tokenize source = .ok ts → ∃ us, tokenize (strip parse source).content = .ok us := by
  intro h
  obtain ⟨us, hus⟩ := h parseSunken (Parser.isSound_ofTable (by decide +kernel)) sunken
    sunkenTokens tokenize_sunken
  have herror : tokenize (strip parseSunken sunken).content = .error (.inconsistentDedent 3) := by
    decide +kernel
  simp [hus] at herror

/-- Two docstrings that do not go cleanly, and their trees: one has its end within a token, one has
a bracket in it. -/
def uncleanSources : List (Text × SyntaxTree) :=
  [("f\"\x7b\"\"\"a\"\"\"\x7d\"\ndef g():\n  '\"\"\"#'\n".toList,
    .named "module" ⟨0, 0⟩ ⟨31, 3⟩
      [.named "expression_statement" ⟨0, 0⟩ ⟨12, 0⟩
        [.formatted ⟨0, 0⟩ ⟨12, 0⟩ (.string 3 3 ⟨3, 0⟩ ⟨10, 0⟩)],
       .function 13 1 ⟨24, 2⟩ ⟨30, 2⟩ [.stringStatement 1 ⟨24, 2⟩ ⟨30, 2⟩]]),
   ("\"a\" f\"\x7b\"(\"\x7d\"\nx = f\"\x7b\")\"\x7d\"\n".toList,
    .named "module" ⟨0, 0⟩ ⟨26, 2⟩
      [.named "expression_statement" ⟨0, 0⟩ ⟨12, 0⟩
        [.named "concatenated_string" ⟨0, 0⟩ ⟨12, 0⟩
          [.string 1 1 ⟨0, 0⟩ ⟨3, 0⟩, .formatted ⟨4, 0⟩ ⟨12, 0⟩ (.string 1 1 ⟨7, 0⟩ ⟨10, 0⟩)]],
       .named "expression_statement" ⟨13, 1⟩ ⟨25, 1⟩
        [.named "assignment" ⟨13, 1⟩ ⟨25, 1⟩
          [.as "left" (.named "identifier" ⟨13, 1⟩ ⟨14, 1⟩ []), .mark "=" ⟨15, 1⟩ ⟨16, 1⟩,
           .as "right" (.formatted ⟨17, 1⟩ ⟨25, 1⟩ (.string 1 1 ⟨20, 1⟩ ⟨23, 1⟩))]]])]

/-- What is left of `uncleanSources` has no tokens. -/
example : uncleanSources.all (fun (source, tree) =>
    decide (tree.IsSound source) && (tokenize source).isOk &&
      !(tokenize (strip (.ofTable uncleanSources) source).content).isOk) = true := by
  decide +kernel

end Marginalia
