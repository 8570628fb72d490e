import Marginalia.Proofs.Notes.Precedence
import Marginalia.Proofs.Rewrite.Indentation
import Marginalia.Proofs.Token.Visible

/-!
# The tokens of what is left

When what is left of a source has tokens, its code and its comments are those of the source that
stay, each in its place (`filter_isVisible_rewrite`). The scanner comes by the pieces of the source
again, and a place in the source is the same place in what is left, up to where the line is cut
(`ComesTo`).

Which tokens stay is known from the source alone (`tokensLeft`): code stays unless it lies in a
literal that goes, and a comment stays if it is on a line of a literal that stays.
-/

namespace Marginalia

/-! ## Places in what is left -/

/-- What stands at `p` in a source comes to `q` in the lines that are left: it is on the same line,
and in the same place unless the line ends in front of it. -/
structure ComesTo (new : List Line) (p q : Position) : Prop where
  line_eq : q.line = p.line
  eq_of_le : p.column ≤ (lineText new p.line).length → q = p

theorem comesTo_self (new : List Line) (p : Position) : ComesTo new p p := ⟨rfl, fun _ => rfl⟩

theorem ComesTo.advanceBy_thinned {source pre x t : Text} {new : List Line}
    (h : source = pre ++ x ++ t) {q : Position}
    (hq : ComesTo new (Position.origin.advanceBy pre) q) :
    ComesTo new (Position.origin.advanceBy (pre ++ x))
      (q.advanceBy (thinned (splitLines source) new (Position.origin.advanceBy pre) x)) := by
  induction x generalizing pre q with
  | nil => rwa [List.append_nil]
  | cons c x ih =>
    have ih := @ih (pre ++ [c]) (by rw [h]; simp)
    rw [List.append_assoc, List.singleton_append, Position.advanceBy_append _ pre [c],
      Position.advanceBy_cons, Position.advanceBy_nil] at ih
    rw [thinned]
    by_cases hc : c = '\n'
    · subst hc
      rw [if_pos (stays_lineFeed (t := x ++ t) (by rw [h]; simp)), Position.advanceBy_cons]
      refine ih ?_
      have hnext : q.advance '\n' = (Position.origin.advanceBy pre).advance '\n' := by
        rw [Position.advance, if_pos rfl, Position.advance, if_pos rfl, hq.line_eq]
      rw [hnext]
      exact comesTo_self ..
    · by_cases hcut : (Position.origin.advanceBy pre).column <
          (lineText new (Position.origin.advanceBy pre).line).length
      · obtain rfl := hq.eq_of_le hcut.le
        have hstays : Stays (splitLines source) new (Position.origin.advanceBy pre) := Or.inl hcut
        rw [if_pos hstays, Position.advanceBy_cons]
        exact ih (comesTo_self ..)
      · -- behind the end of the line only the line has to be right
        rw [Position.advance_of_ne hc] at ih ⊢
        have hbehind : ∀ q', q'.line = (Position.origin.advanceBy pre).line →
            ComesTo new ⟨(Position.origin.advanceBy pre).line,
              (Position.origin.advanceBy pre).column + 1⟩ q' :=
          fun q' hline => ⟨hline, fun hle => absurd hle (by simp only; omega)⟩
        split
        · rw [Position.advanceBy_cons, Position.advance_of_ne hc]
          exact ih (hbehind _ hq.line_eq)
        · exact ih (hbehind _ hq.line_eq)

/-- A text that stays, and starts with a character of a line, starts in front of the end of what is
left of the line. -/
theorem column_lt_of_thinned_eq {source pre x t : Text} {new : List Line} {c : Char}
    (h : source = pre ++ (c :: x ++ t)) (hcr : c ≠ '\r') (hlf : c ≠ '\n')
    (hstays : thinned (splitLines source) new (Position.origin.advanceBy pre) (c :: x) = c :: x) :
    (Position.origin.advanceBy pre).column <
      (lineText new (Position.origin.advanceBy pre).line).length := by
  by_contra hcut
  have hgone : ¬ Stays (splitLines source) new (Position.origin.advanceBy pre) := by
    rintro (hlt | hle)
    · exact hcut hlt
    · exact ((of_standsAt ⟨pre, x ++ t, by rw [h]; simp, rfl⟩).2 hle).elim hcr hlf
  -- without its first character the text is too short
  have hlength := congrArg List.length hstays
  rw [thinned, if_neg hgone] at hlength
  have hle := (thinned_sublist (splitLines source) new
    ((Position.origin.advanceBy pre).advance c) x).length_le
  rw [hlength, List.length_cons] at hle
  omega

/-! ## The scanner on what is left -/

/-- The token starts on what the lines have of its line. -/
def Token.startsIn (lines : List Line) (u : Token) : Bool :=
  decide (u.start.column < (lineText lines u.start.line).length)

/-- A token that is visible does not start in a line break. -/
theorem ne_of_isVisible {l l' : Layout} {p : Position} {c : Char} {x rest : Text} {k : Piece}
    {u : Token} (hfits : k.Fits (c :: x) rest) (hplace : place l p (c :: x) k = .ok (some u, l'))
    (hu : u.isVisible = true) : c ≠ '\r' ∧ c ≠ '\n' := by
  cases hfits with
  | space | continuation => simp [place] at hplace
  | lineBreak =>
    obtain ⟨rfl, -⟩ : _ = u ∧ _ := by simpa [place] using hplace
    simp only [Token.isVisible] at hu
    split_ifs at hu <;> exact absurd hu (by decide)
  | comment => exact ⟨by decide, by decide⟩
  | code _ hx =>
    obtain ⟨d, hd, hblank, -⟩ := hx.head
    obtain rfl : c = d := by simpa using hd
    exact ⟨ne_of_isBlankChar hblank (by decide), ne_of_isBlankChar hblank (by decide)⟩

section Scan

variable {source : Text} {ts : List Token} {new : List Line} (hkeeps : KeepsPieces source ts new)
  {e : Terminator}
include hkeeps

/-- **One step**: what is left of a text shows the token of the next piece if that stays, and what
is left behind it. -/
theorem shows_piece {pre : Text} {c : Char} {r : Text} {rest us : List Token} {l l' : Layout}
    {k : Piece} {n : ℕ} (hread : Piece.read c r = .ok (k, n)) {u : Option Token}
    (hplace : place l (Position.origin.advanceBy pre) (c :: r.take n) k = .ok (u, l'))
    (hreached : Reached source ts pre (c :: r.take n ++ r.drop n) (u.toList ++ rest))
    (hrest : Tiles (Position.origin.advanceBy (pre ++ c :: r.take n)) (r.drop n) rest)
    {q : Position} (hq : ComesTo new (Position.origin.advanceBy pre) q)
    (h : ∀ q', ComesTo new (Position.origin.advanceBy (pre ++ c :: r.take n)) q' →
      Shows l'.depth q' (thinned (splitLines source) new
        (Position.origin.advanceBy (pre ++ c :: r.take n)) (r.drop n) ++ e.text) us) :
    Shows l.depth q (thinned (splitLines source) new (Position.origin.advanceBy pre)
        (c :: r.take n ++ r.drop n) ++ e.text)
      ((u.toList.filter Token.isVisible).filter (·.startsIn new) ++ us) := by
  have hfits := (Piece.fits_of_read hread).2
  have hsource := hreached.source_eq
  rw [← List.append_assoc] at hsource
  have h := h _ (hq.advanceBy_thinned hsource)
  have hstart : ∀ v ∈ u, v.start = Position.origin.advanceBy pre :=
    fun v hv => (of_place (Option.mem_def.1 hv ▸ hplace)).1
  rw [thinned_append, ← Position.advanceBy_append, List.append_assoc]
  rcases hkeeps hreached hfits hplace hrest with hstays | ⟨hdropped, s, rfl⟩
  · -- the place of a visible piece is in front of the end of its line
    have hfront : ∀ v ∈ u, v.isVisible = true → (Position.origin.advanceBy pre).column <
        (lineText new (Position.origin.advanceBy pre).line).length := by
      intro v hv hvisible
      obtain ⟨hcr, hlf⟩ := ne_of_isVisible hfits (Option.mem_def.1 hv ▸ hplace) hvisible
      exact column_lt_of_thinned_eq hreached.source_eq hcr hlf hstays
    have hfilter : (u.toList.filter Token.isVisible).filter (·.startsIn new) =
        u.toList.filter Token.isVisible := by
      refine List.filter_eq_self.2 fun v hv => ?_
      obtain ⟨hv, hvisible⟩ := List.mem_filter.1 hv
      rw [Option.mem_toList] at hv
      rw [Token.startsIn, hstart v hv]
      exact decide_eq_true (hfront v hv hvisible)
    rw [hstays] at h ⊢
    rw [hfilter]
    refine Shows.take_append hread hplace ?_ (isCutOf_thinned hsource) h
    rintro ⟨v, hv, hvisible⟩
    exact hq.eq_of_le (hfront v hv hvisible).le
  · have hfilter : (u.toList.filter Token.isVisible).filter (·.startsIn new) = [] := by
      refine List.filter_eq_nil_iff.2 fun v hv => ?_
      have hcut := hdropped [] _ rfl
      rw [Position.advanceBy_nil, ← hstart v (Option.mem_toList.1 (List.mem_filter.1 hv).1)] at hcut
      rw [Token.startsIn, decide_eq_false (not_lt.2 hcut)]
      exact Bool.false_ne_true
    rw [hfilter, List.nil_append]
    exact h.lineBreaks_append fun d => eq_or_of_mem_thinned hsource hdropped

/-- **A whole run**: what is left of a text shows the tokens of the text that start in front of the
end of what is left of their lines. -/
theorem shows_thinned {l : Layout} {p : Position} {t : Text} {rest : List Token}
    (h : scan l p t = .ok rest) {pre : Text} (hp : Position.origin.advanceBy pre = p)
    (hreached : Reached source ts pre t rest) {q : Position} (hq : ComesTo new p q) :
    Shows l.depth q (thinned (splitLines source) new p t ++ e.text)
      ((rest.filter Token.isVisible).filter (·.startsIn new)) := by
  -- the scanner goes through the source, and has `pre` behind it
  fun_induction scan l p t generalizing rest pre q with
  | case1 => simp at h
  | case2 l p t hl ws rest' us opened hopen =>
    rename_i ih
    obtain ⟨rest, hrest, rfl⟩ := exists_of_map_eq_ok h
    have hws : ∀ c ∈ ws, isInlineSpace c = true := fun c hc => List.mem_takeWhile_imp hc
    have hsplit : t = ws ++ rest' := List.takeWhile_append_dropWhile.symm
    subst hp
    rw [hsplit] at hreached ⊢
    have hreached' := hreached.openLine hopen
    have hsource := hreached.source_eq
    rw [← List.append_assoc] at hsource
    rw [List.filter_append, filter_isVisible_eq_nil fun v hv =>
        Or.inl (of_mem_openLine hopen hv).2.2, List.nil_append, thinned_append, List.append_assoc,
      shows_spaces_append_iff fun c hc => hws c ((thinned_sublist ..).subset hc)]
    exact ih hrest (Position.advanceBy_append ..) hreached' (by
      rw [← Position.advanceBy_append]
      exact hq.advanceBy_thinned hsource)
  | case3 l p hl =>
    rw [filter_isVisible_eq_nil fun v hv => (of_mem_finish h hv).1, thinned, List.nil_append,
      ← List.append_nil e.text]
    refine Shows.lineBreaks_append ?_ (shows_nil _ _)
    cases e <;> simp [Terminator.text]
  | case4 => simp at h
  | case5 => simp at h
  | case6 l p hl c r k n hread x u l' hplace =>
    rename_i ih
    obtain ⟨rest, hrest, rfl⟩ := exists_of_map_eq_ok h
    have hsplit : c :: r = x ++ r.drop n := by simp [x]
    subst hp
    rw [hsplit] at hreached ⊢
    have hreached' := hreached.place hplace
    have htiles := tiles_of_scan hrest
    rw [← Position.advanceBy_append] at htiles ih hrest
    rw [List.filter_append, List.filter_append]
    exact shows_piece hkeeps hread hplace hreached htiles hq fun q' hq' =>
      ih hrest rfl hreached' hq'

end Scan

/-! ## What is left, by the source -/

/-- The literals that notes are made of: the docstrings `ds`, and the standalone literals that are
no part of one. -/
def recordedLiterals (ts : List Token) (ds : List Literal) : List Literal :=
  ds ++ (standaloneStrings ts).filter fun s =>
    ds.all fun d => decide ¬ (d.start ≤ s.start ∧ s.stop ≤ d.stop)

/-- Whether a visible token is left: code, when it lies in no literal that goes, and a comment, when
a literal that stays is on its line. -/
def Token.isLeft (source : Text) (ts : List Token) (ds : List Literal) (u : Token) : Bool :=
  if u.kind = .comment then
    (recordedLiterals ts ds).any fun d =>
      d.covers u.start.line && !isRemovable (splitLines source) d.extent
  else
    (recordedLiterals ts ds).all fun d =>
      !(isRemovable (splitLines source) d.extent &&
        decide (d.start ≤ u.start ∧ u.stop ≤ d.stop))

/-- The code and the comments that are left when the notes of the tokens, with the docstrings `ds`
laid over them, are taken out. -/
def tokensLeft (source : Text) (ts : List Token) (ds : List Literal) : List Token :=
  (ts.filter Token.isVisible).filter (·.isLeft source ts ds)

theorem mem_recordedLiterals {ts : List Token} {ds : List Literal} {d : Literal} :
    d ∈ recordedLiterals ts ds ↔ d ∈ ds ∨ d ∈ standaloneStrings ts ∧
      ∀ e ∈ ds, ¬ (e.start ≤ d.start ∧ d.stop ≤ e.stop) := by
  simp only [recordedLiterals, List.mem_append, List.mem_filter, List.all_eq_true,
    decide_eq_true_eq]

theorem mem_of_mem_recordedLiterals {ts : List Token} {ds : List Literal} {d : Literal}
    (h : d ∈ recordedLiterals ts ds) : d ∈ standaloneStrings ts ++ ds :=
  List.mem_append.2 ((mem_recordedLiterals.1 h).symm.imp_left And.left)

theorem isLeft_iff_of_comment {source : Text} {ts : List Token} {ds : List Literal} {u : Token}
    (hk : u.kind = .comment) : u.isLeft source ts ds = true ↔ ∃ d ∈ recordedLiterals ts ds,
      u.start.line ∈ d.lines ∧ isRemovable (splitLines source) d.extent = false := by
  rw [Token.isLeft, if_pos hk, List.any_eq_true]
  simp only [Bool.and_eq_true, Bool.not_eq_true', Literal.covers_iff]

theorem isLeft_iff_of_isCode {source : Text} {ts : List Token} {ds : List Literal} {u : Token}
    (hc : u.kind.isCode = true) : u.isLeft source ts ds = true ↔ ∀ d ∈ recordedLiterals ts ds,
      isRemovable (splitLines source) d.extent = true → ¬ u.LiesIn d := by
  have hk : u.kind ≠ .comment := fun hk => by simp [hk, TokenKind.isCode] at hc
  rw [Token.isLeft, if_neg hk, List.all_eq_true]
  refine forall₂_congr fun d _ => ?_
  rw [Bool.not_eq_true', Bool.and_eq_false_iff, decide_eq_false_iff_not, ← Bool.not_eq_true,
    imp_iff_not_or]
  rfl

/-- The verdict on a line is that of a recorded literal on it. -/
theorem exists_recorded_of_hasVerdict {source : Text} {ts : List Token} {ds : List Literal}
    {n : ℕ} {goes : Bool} (h : ((Notes.ofTokens ts).withDocstrings ds).HasVerdict source goes n) :
    ∃ d ∈ recordedLiterals ts ds, n ∈ d.lines ∧
      isRemovable (splitLines source) d.extent = goes := by
  obtain ⟨note, x, hget, hkind, hx, rfl⟩ := h
  have hfound := Notes.foundAt ts ds n
  rw [hget] at hfound
  cases hfound with
  | @docstring d _ hd hn _ hx' =>
    obtain rfl : d.extent = x := Option.some_inj.1 (hx'.symm.trans hx)
    exact ⟨d, mem_recordedLiterals.2 (Or.inl hd), hn, rfl⟩
  | @standalone d _ hno hd hn _ hx' =>
    obtain rfl : d.extent = x := Option.some_inj.1 (hx'.symm.trans hx)
    refine ⟨d, mem_recordedLiterals.2 (Or.inr ⟨hd, fun e he hpart => hno e he ?_⟩), hn, rfl⟩
    -- a docstring around the literal would have line `n`, too
    obtain ⟨hn₁, hn₂⟩ := Literal.mem_lines.1 hn
    exact Literal.mem_lines.2
      ⟨(Position.line_le hpart.1).trans hn₁, hn₂.trans (Position.line_le hpart.2)⟩
  | comment => exact Bool.noConfusion hkind

section Tokenize

variable {source : Text} {ts : List Token} (ht : tokenize source = .ok ts) {ds : List Literal}
include ht

/-- A token starts behind the byte order mark. -/
theorem firstColumn_le_of_mem {u : Token} (hu : u ∈ ts) :
    firstColumn source u.start.line ≤ u.start.column := by
  obtain ⟨m, t, e, -, -, horigin, hsplit, -⟩ := exists_splitByteOrderMark source [] []
  rw [tokenize, hsplit] at ht
  obtain ⟨i, hi⟩ := List.getElem?_of_mem hu
  obtain ⟨a, -, -, ha, -⟩ := (tiles_of_scan ht).split hi
  rw [← ha, ← horigin, ← Position.advanceBy_append]
  refine firstColumn_le_column ?_
  rw [hsplit, List.length_append]
  exact Nat.le_add_right ..

/-- A comment stays only on a line of a literal that stays. -/
theorem length_linesLeft_le_of_comment {u : Token} (hu : u ∈ ts) (hk : u.kind = .comment)
    (hstays : ¬ ((Notes.ofTokens ts).withDocstrings ds).HasVerdict source false u.start.line)
    (hgoes : ¬ ((Notes.ofTokens ts).withDocstrings ds).HasVerdict source true u.start.line) :
    (lineText (linesLeft source ts ds) u.start.line).length ≤ u.start.column := by
  have hfound := Notes.foundAt ts ds u.start.line
  rw [lineText_linesLeft, rewrittenText]
  cases hget : ((Notes.ofTokens ts).withDocstrings ds).get? u.start.line with
  | none =>
    refine absurd ?_ (Notes.get?_withDocstrings_eq_none_iff.1 hget)
    exact mem_coveredLines.2 (Or.inr (Or.inr ⟨u, List.mem_filter.2 ⟨hu, by simp [hk]⟩, rfl⟩))
  | some note =>
    have hno : note.kind.isString = true → ∀ x, note.extent ≠ some x := by
      intro hkind x hx
      cases hrem : isRemovable (splitLines source) x with
      | false => exact hstays ⟨note, x, hget, hkind, hx, hrem⟩
      | true => exact hgoes ⟨note, x, hget, hkind, hx, hrem⟩
    rw [hget] at hfound
    cases hfound with
    | docstring _ _ hkind hx => exact absurd hx (hno (congrArg NoteKind.isString hkind) _)
    | standalone _ _ _ hkind hx => exact absurd hx (hno (congrArg NoteKind.isString hkind) _)
    | comment _ _ hw hkw hline =>
      obtain rfl := eq_of_comment_of_comment ht hw hkw hu hk hline
      exact length_rewriteLine_le rfl (getElem?_of_comment ht hu hk)

section Runs

variable (hapart : ds.Pairwise Literal.Apart) (hds : ∀ d ∈ ds, ∃ i j, d.Runs source ts i j)
include hapart hds

/-- **Each line of a recorded literal has its verdict.** -/
theorem hasVerdict_of_mem_recordedLiterals {d : Literal} (hd : d ∈ recordedLiterals ts ds) {n : ℕ}
    (hn : n ∈ d.lines) : ((Notes.ofTokens ts).withDocstrings ds).HasVerdict source
      (isRemovable (splitLines source) d.extent) n := by
  rcases mem_recordedLiterals.1 hd with hd | ⟨hd, hno⟩
  · obtain ⟨i, j, hruns⟩ := hds d hd
    exact hasVerdict_of_mem ht hapart hd hruns hn fun e he _ => hds e he
  · obtain ⟨i, u, hu, hdu, hruns⟩ := Literal.runs_of_mem_standaloneStrings ht hd
    refine hasVerdict_of_mem_standaloneStrings ht hd hu hdu hruns hn ?_ fun e he _ => hds e he
    intro e he k l hruns' hki
    by_contra hil
    exact hno e he (hruns.within ht hruns' hki (by omega))

end Runs

variable (hapart : ds.Pairwise Literal.Apart) (hclean : GoCleanly source ts ds)
include hapart hclean

/-- Code starts on what is left of its line unless it lies in a literal that goes. -/
theorem startsIn_linesLeft_of_isCode {u : Token} (hu : u ∈ ts) (hc : u.kind.isCode = true) :
    u.startsIn (linesLeft source ts ds) = true ↔ ∀ d ∈ recordedLiterals ts ds,
      isRemovable (splitLines source) d.extent = true → ¬ u.LiesIn d := by
  obtain ⟨k, hk⟩ := List.getElem?_of_mem hu
  rw [Token.startsIn, decide_eq_true_iff]
  constructor
  · intro hlt d hd hrem hin
    have hon : u.IsOn u.start.line := by
      refine ⟨le_rfl, ?_⟩
      rw [(isCodeText_of_mem ht hu hc).1]
      exact Position.line_le (Position.le_advanceBy ..)
    have hverdict := hasVerdict_of_mem_recordedLiterals ht hapart hclean.runs hd (hin.mem_lines hon)
    rw [hrem] at hverdict
    exact absurd hlt (not_lt.2 ((length_linesLeft_le ht hapart hclean hverdict).trans
      (firstColumn_le_of_mem ht hu)))
  · intro hno
    obtain ⟨c, hhead, hblank, -⟩ := (isCodeText_of_mem ht hu hc).2.head
    have hchar : u.text[0]? = some c := by rw [← List.head?_eq_getElem?, hhead]
    have hstays : ∀ note x, ((Notes.ofTokens ts).withDocstrings ds).get?
        (u.start.advanceBy (u.text.take 0)).line = some note → note.kind.isString = true →
          note.extent = some x → isRemovable (splitLines source) x = false := by
      intro note x hget hkind hx
      by_contra hrem
      rw [Bool.not_eq_false] at hrem
      obtain ⟨d, hd, hn, hrem⟩ := exists_recorded_of_hasVerdict ⟨note, x, hget, hkind, hx, hrem⟩
      obtain ⟨i, j, hruns⟩ := Literal.exists_runs_of_mem ht hclean.runs
        (mem_of_mem_recordedLiterals hd)
      obtain ⟨hle, hge⟩ := line_advanceBy_take ht hu hc 0
      exact hno d hd hrem (within_of_isRemovable ht hruns hk hc hn hle hge hrem)
    have hstands := standsAt_rewrite_char_of_note ht hk hc hchar hstays
    rw [List.take_zero, Position.advanceBy_nil] at hstands
    by_contra hle
    have hbreak := (of_standsAt hstands).2 (not_lt.1 hle)
    exact hbreak.elim (ne_of_isBlankChar hblank (by decide)) (ne_of_isBlankChar hblank (by decide))

/-- A comment starts on what is left of its line if a literal that stays is on the line. -/
theorem startsIn_linesLeft_of_comment {u : Token} (hu : u ∈ ts) (hk : u.kind = .comment) :
    u.startsIn (linesLeft source ts ds) = true ↔ ∃ d ∈ recordedLiterals ts ds,
      u.start.line ∈ d.lines ∧ isRemovable (splitLines source) d.extent = false := by
  rw [Token.startsIn, decide_eq_true_iff]
  constructor
  · intro hlt
    by_contra hno
    have hstays : ¬ ((Notes.ofTokens ts).withDocstrings ds).HasVerdict source false u.start.line :=
      fun hverdict => hno (exists_recorded_of_hasVerdict hverdict)
    by_cases hgoes : ((Notes.ofTokens ts).withDocstrings ds).HasVerdict source true u.start.line
    · exact absurd hlt (not_lt.2 ((length_linesLeft_le ht hapart hclean hgoes).trans
        (firstColumn_le_of_mem ht hu)))
    · exact absurd hlt (not_lt.2 (length_linesLeft_le_of_comment ht hu hk hstays hgoes))
  · rintro ⟨d, hd, hn, hrem⟩
    have hverdict := hasVerdict_of_mem_recordedLiterals ht hapart hclean.runs hd hn
    rw [hrem] at hverdict
    obtain ⟨note, x, hget, hkind, hx, hrem⟩ := hverdict
    rw [lineText_linesLeft, rewrittenText, hget]
    simp only
    rw [rewriteLine_of_not_removable hkind hx hrem]
    exact (List.getElem?_eq_some_iff.1 (getElem?_of_comment ht hu hk)).1

/-- Which tokens start on what is left of their lines is known from the source. -/
theorem startsIn_linesLeft {u : Token} (hu : u ∈ ts) (hvisible : u.isVisible = true) :
    u.startsIn (linesLeft source ts ds) = u.isLeft source ts ds := by
  rw [Bool.eq_iff_iff]
  by_cases hk : u.kind = .comment
  · rw [startsIn_linesLeft_of_comment ht hapart hclean hu hk, isLeft_iff_of_comment hk]
  · have hc : u.kind.isCode = true := by simpa [Token.isVisible, hk] using hvisible
    rw [startsIn_linesLeft_of_isCode ht hapart hclean hu hc, isLeft_iff_of_isCode hc]

/-- **The tokens of what is left** are those that are left of the tokens of the source. -/
theorem filter_isVisible_rewrite {us : List Token}
    (hus : tokenize (rewrite source ((Notes.ofTokens ts).withDocstrings ds) false).content =
      .ok us) : us.filter Token.isVisible = tokensLeft source ts ds := by
  obtain ⟨m, t, e, hsource, -, horigin, hsplit, hleft⟩ := exists_splitByteOrderMark source ts ds
  have hscan : scan .initial (Position.origin.advanceBy m) t = .ok ts := by
    rw [tokenize, hsplit] at ht
    rwa [horigin]
  have hreached : Reached source ts m t ts :=
    ⟨hsource, by rw [hsplit], [], rfl, by simp⟩
  have hus' : scan .initial (Position.origin.advanceBy m) (thinned (splitLines source)
      (linesLeft source ts ds) (Position.origin.advanceBy m) t ++ e.text) = .ok us := by
    rw [tokenize, hleft, horigin] at hus
    rwa [horigin]
  have hshows := shows_thinned (keepsPieces_linesLeft ht hapart hclean) (e := e) hscan rfl hreached
    (comesTo_self ..)
  rw [hshows .initial us rfl hus', tokensLeft]
  refine List.filter_congr fun u hu => ?_
  obtain ⟨hu, hvisible⟩ := List.mem_filter.1 hu
  exact startsIn_linesLeft ht hapart hclean hu hvisible

end Tokenize

end Marginalia
