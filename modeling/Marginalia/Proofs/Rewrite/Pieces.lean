import Marginalia.Proofs.Rewrite.Rows
import Marginalia.Proofs.Rewrite.Thinned
import Marginalia.Proofs.Strip

/-!
# Pieces stay or are dropped

When commentary is taken out of a source, each piece that the scanner finds in it stays with all its
characters, or it is dropped, and then the scanner does not miss it (`KeepsPieces`). This needs that
the literals that go are made of whole tokens, none of them a bracket (`GoCleanly`). Then

* a token of code stays, unless it lies in a literal that goes (`thinned_code`);
* a comment stays, if it is on a line of a literal that stays, and is dropped otherwise
  (`thinned_comment`);
* a backslash and its line break stay or go together, for a literal in front of them does not go
  (`thinned_continuation`).
-/

namespace Marginalia

/-! ## Literals that go cleanly -/

/-- Whether the token opens or closes a bracket. -/
def Token.isBracket (u : Token) : Bool :=
  u.kind == .op && u.text.all fun c => isOpening c || isClosing c

/-- The lines that are left when the notes of the tokens, with the docstrings `ds` laid over them,
are taken out. -/
def linesLeft (source : Text) (ts : List Token) (ds : List Literal) : List Line :=
  splitLines (rewrite source ((Notes.ofTokens ts).withDocstrings ds) false).content

/-- The literals that go are made of whole tokens, none of them a bracket, and no line of theirs but
the first of the source begins with a byte order mark, which would stay. -/
structure GoCleanly (source : Text) (ts : List Token) (ds : List Literal) : Prop where
  runs : ∀ d ∈ ds, ∃ i j, d.Runs source ts i j
  not_bracket : ∀ d ∈ ds, isRemovable (splitLines source) d.extent = true →
    ∀ u ∈ ts, u.LiesIn d → u.isBracket = false
  not_mark : ∀ d ∈ standaloneStrings ts ++ ds, isRemovable (splitLines source) d.extent = true →
    ∀ n ∈ d.lines, 1 < n → (lineText (splitLines source) n).head? ≠ some byteOrderMark

/-! ## What is left of a line -/

/-- The column at which line `n` begins, behind a byte order mark in front of the source. -/
def firstColumn (source : Text) (n : ℕ) : ℕ :=
  if n = 1 then (splitByteOrderMark source).2 else 0

theorem firstColumn_le_column {source pre : Text}
    (h : (splitByteOrderMark source).2 ≤ pre.length) :
    firstColumn source (Position.origin.advanceBy pre).line ≤
      (Position.origin.advanceBy pre).column := by
  rw [firstColumn]
  split
  · next hline =>
    rw [Position.line_advanceBy] at hline
    have hlf : '\n' ∉ pre := by
      rw [← List.count_eq_zero]
      have : Position.origin.line = 1 := rfl
      omega
    rw [Position.column_advanceBy_of_notMem _ hlf]
    exact h.trans (Nat.le_add_left ..)
  · exact Nat.zero_le _

theorem head?_of_lineText_one {source : Text} {c : Char}
    (h : (lineText (splitLines source) 1).head? = some c) : source.head? = some c := by
  obtain ⟨y, hy⟩ := List.head?_eq_some_iff.1 h
  obtain ⟨z, hz⟩ := firstLine_isPrefix source
  rw [← hz, firstLine, hy]
  rfl

/-- Of the emptied lines only the first one may keep a byte order mark. -/
theorem length_blanked_le {source : Text} {n : ℕ} (hn : 1 ≤ n)
    (h : 1 < n → (lineText (splitLines source) n).head? ≠ some byteOrderMark) :
    (blanked (lineText (splitLines source) n)).length ≤ firstColumn source n := by
  cases hl : lineText (splitLines source) n with
  | nil => exact Nat.zero_le _
  | cons c r =>
    rw [blanked]
    split
    · next hc =>
      subst hc
      rw [hl] at h
      obtain rfl : n = 1 := by
        by_contra hne
        exact h (by omega) rfl
      have hhead : source.head? = some byteOrderMark := head?_of_lineText_one (by rw [hl]; rfl)
      obtain ⟨t, rfl⟩ := List.head?_eq_some_iff.1 hhead
      exact Nat.le_refl 1
    · exact Nat.zero_le _

theorem lineText_linesLeft (source : Text) (ts : List Token) (ds : List Literal) (n : ℕ) :
    lineText (linesLeft source ts ds) n = rewrittenText (splitLines source)
      ((Notes.ofTokens ts).withDocstrings ds) false n (lineText (splitLines source) n) := by
  rw [linesLeft, lineText_rewrite]
  split
  · next hn =>
    rw [lineText_eq_nil hn]
    exact (List.prefix_nil.1 (rewrittenText_isPrefix ..)).symm
  · rfl

/-- On a line that stays, all characters stay. -/
theorem thinned_eq_self_of_lineText_eq {old new : List Line} {p : Position} {x : Text}
    (h : lineText new p.line = lineText old p.line)
    (hx : ∀ y c z, x = y ++ c :: z → '\n' ∉ y) : thinned old new p x = x := by
  refine thinned_eq_self fun y c z hyz => ?_
  rw [stays_advanceBy_iff (hx y c z hyz), h]
  exact lt_or_ge _ _

/-- A comment leaves nothing behind the column at which it starts. -/
theorem length_rewriteLine_le {lines : List Line} {t : Text} {note : Note}
    (hk : note.kind.isString = false) (hsign : t[note.column]? = some '#') :
    (rewriteLine lines false t note).length ≤ note.column := by
  simp only [rewriteLine, hk, Bool.false_eq_true, ↓reduceIte, Bool.false_and]
  split
  · cases t with
    | nil => simp at hsign
    | cons c r =>
      rw [blanked]
      split
      · next hc =>
        refine Nat.one_le_iff_ne_zero.2 fun hzero => ?_
        rw [hzero, hc] at hsign
        have hmark : byteOrderMark = '#' := Option.some.inj hsign
        exact absurd hmark (by decide)
      · exact Nat.zero_le _
  · exact (Text.trimEnd_isPrefix ..).length_le.trans (List.length_take_le _ _)

/-- Where no literal goes, the line stays or a comment is cut off. -/
theorem rewrittenText_of_not_hasVerdict {source : Text} {ts : List Token} {ds : List Literal}
    {n : ℕ} (hverdict : ¬ ((Notes.ofTokens ts).withDocstrings ds).HasVerdict source true n)
    (t : Text) :
    rewrittenText (splitLines source) ((Notes.ofTokens ts).withDocstrings ds) false n t = t ∨
      ∃ w ∈ ts, w.kind = .comment ∧ w.start.line = n ∧
        rewrittenText (splitLines source) ((Notes.ofTokens ts).withDocstrings ds) false n t =
          rewriteLine (splitLines source) false t w.commentNote.2 := by
  have hfound := Notes.foundAt ts ds n
  rw [Notes.HasVerdict] at hverdict
  rw [rewrittenText]
  generalize ((Notes.ofTokens ts).withDocstrings ds).get? n = found at hfound hverdict ⊢
  cases hfound with
  | docstring _ _ hk he =>
    have hkind := congrArg NoteKind.isString hk
    refine Or.inl (rewriteLine_of_not_removable hkind he (Bool.eq_false_iff.2 fun hrem => ?_))
    exact hverdict ⟨_, _, rfl, hkind, he, hrem⟩
  | standalone _ _ _ hk he =>
    have hkind := congrArg NoteKind.isString hk
    refine Or.inl (rewriteLine_of_not_removable hkind he (Bool.eq_false_iff.2 fun hrem => ?_))
    exact hverdict ⟨_, _, rfl, hkind, he, hrem⟩
  | comment _ _ hw hk hn => exact Or.inr ⟨_, hw, hk, hn, rfl⟩
  | nothing => exact Or.inl rfl

/-! ## Pieces of each kind -/

/-- The scanner has come behind `pre`; the text `t` and the tokens `rest` are still ahead. -/
structure Reached (source : Text) (ts : List Token) (pre t : Text) (rest : List Token) : Prop where
  source_eq : source = pre ++ t
  mark_le : (splitByteOrderMark source).2 ≤ pre.length
  tokens_eq : ∃ done, ts = done ++ rest ∧
    ∀ u ∈ done, u.start.advanceBy u.text ≤ Position.origin.advanceBy pre

theorem Reached.mem {source : Text} {ts : List Token} {pre t : Text} {u : Token}
    {rest : List Token} (h : Reached source ts pre t (u :: rest)) : u ∈ ts := by
  obtain ⟨done, hts, -⟩ := h.tokens_eq
  exact hts ▸ List.mem_append_right _ List.mem_cons_self

/-- A piece further on. -/
theorem Reached.advance {source : Text} {ts : List Token} {pre x r : Text} {us rest : List Token}
    (h : Reached source ts pre (x ++ r) (us ++ rest))
    (hus : ∀ u ∈ us, u.start.advanceBy u.text ≤ Position.origin.advanceBy (pre ++ x)) :
    Reached source ts (pre ++ x) r rest where
  source_eq := by rw [h.source_eq, List.append_assoc]
  mark_le := h.mark_le.trans (by simp)
  tokens_eq := by
    obtain ⟨done, hts, hdone⟩ := h.tokens_eq
    refine ⟨done ++ us, by rw [hts, List.append_assoc], fun u hu => ?_⟩
    rcases List.mem_append.1 hu with hu | hu
    · rw [Position.advanceBy_append]
      exact (hdone u hu).trans (Position.le_advanceBy ..)
    · exact hus u hu

section Tokenize

variable {source : Text} {ts : List Token} (ht : tokenize source = .ok ts) {ds : List Literal}
  {pre x r : Text} {rest : List Token}
include ht

/-- On the line of a continuation there is no comment. -/
theorem line_ne_of_continuation (h : Reached source ts pre (x ++ r) rest)
    (hx : x = ['\\', '\n'] ∨ x = ['\\', '\r', '\n'])
    (hrest : Tiles (Position.origin.advanceBy (pre ++ x)) r rest) {w : Token} (hw : w ∈ ts)
    (hk : w.kind = .comment) : w.start.line ≠ (Position.origin.advanceBy pre).line := by
  intro hline
  obtain ⟨done, rfl, hdone⟩ := h.tokens_eq
  rcases List.mem_append.1 hw with hw' | hw'
  · obtain ⟨i, hi⟩ := List.getElem?_of_mem hw
    obtain ⟨a, b, hab, ha, hfits, -⟩ := exists_split_of_tokenize ht hi
    obtain ⟨y, hy, hlf, hends⟩ := hfits.of_comment hk
    have hend : Position.origin.advanceBy (a ++ w.text) = w.start.advanceBy w.text := by
      rw [Position.advanceBy_append, ha]
    obtain ⟨m, rfl, rfl⟩ := Position.exists_append_of_advanceBy_le
      (hab.symm.trans h.source_eq) (hend ▸ hdone w hw')
    -- between the comment and the continuation the line has ended
    have hm : '\n' ∈ m := by
      rcases hx with rfl | rfl
      all_goals exact hends.lineFeed_mem (by decide) (by decide)
    have hlt := Position.line_lt_advanceBy (w.start.advanceBy w.text) hm
    rw [← hend, ← Position.advanceBy_append, ← hline, hend,
      Position.line_advanceBy_of_notMem _ (by simp [hy, hlf])] at hlt
    exact lt_irrefl _ hlt
  · have hle := Position.line_le (hrest.le_start hw')
    have hlt := Position.line_lt_advanceBy (Position.origin.advanceBy pre) (t := x)
      (by rcases hx with rfl | rfl <;> decide)
    rw [Position.advanceBy_append, hline] at hle
    omega

/-- On the line of a comment, all stays or nothing behind its column. -/
theorem lineText_linesLeft_of_comment {u : Token} (hu : u ∈ ts) (hk : u.kind = .comment)
    (hverdict : ¬ ((Notes.ofTokens ts).withDocstrings ds).HasVerdict source true u.start.line) :
    lineText (linesLeft source ts ds) u.start.line = lineText (splitLines source) u.start.line ∨
      (lineText (linesLeft source ts ds) u.start.line).length ≤ u.start.column := by
  rw [lineText_linesLeft]
  rcases rewrittenText_of_not_hasVerdict hverdict (lineText (splitLines source) u.start.line)
    with hsame | hcut
  · exact Or.inl hsame
  · obtain ⟨w, hw, hkw, hline, hcut⟩ := hcut
    obtain rfl := eq_of_comment_of_comment ht hw hkw hu hk hline
    rw [hcut]
    exact Or.inr (length_rewriteLine_le rfl (getElem?_of_comment ht hu hk))

/-- A token within a standalone literal is a string. -/
theorem kind_of_liesIn {d : Literal} (hd : d ∈ standaloneStrings ts) {u : Token} (hu : u ∈ ts)
    (hcu : u.kind.isCode = true) (hin : u.LiesIn d) : u.kind = .string := by
  obtain ⟨v, hv, hkv, rfl⟩ := Literal.exists_token_of_mem_standaloneFrom hd
  obtain ⟨i, hi⟩ := List.getElem?_of_mem hu
  obtain ⟨j, hj⟩ := List.getElem?_of_mem hv
  have hcv : v.kind.isCode = true := by rw [hkv]; rfl
  obtain ⟨w, w', -, hw, hw', -, -, hstart, hstop⟩ :=
    (Literal.runs_ofToken ht hj hcv).exists_tokens ht
  obtain rfl : v = w := by simpa [hj] using hw
  obtain rfl : v = w' := by simpa [hj] using hw'
  obtain ⟨hin₁, hin₂⟩ := hin
  rw [hstart] at hin₁
  rw [hstop] at hin₂
  obtain ⟨hus, hcode⟩ := isCodeText_of_mem ht hu hcu
  have hlt := Position.lt_advanceBy u.start hcode.ne_nil
  rw [← hus] at hlt
  rcases Nat.lt_trichotomy i j with hij | rfl | hij
  · have hle := advanceBy_text_le_start ht hi hj hij
    rw [← hus] at hle
    exact absurd (hlt.trans_le (hle.trans hin₁)) (lt_irrefl _)
  · obtain rfl : u = v := Option.some_inj.1 (hi.symm.trans hj)
    exact hkv
  · have hle := advanceBy_text_le_start ht hj hi hij
    rw [← (isCodeText_of_mem ht hv hcv).1] at hle
    exact absurd (hlt.trans_le (hin₂.trans hle)) (lt_irrefl _)

section Sound

variable (hapart : ds.Pairwise Literal.Apart) (hclean : GoCleanly source ts ds)
include hapart hclean

/-- A literal that goes leaves nothing on a line but a byte order mark in front of the source. -/
theorem length_linesLeft_le {n : ℕ}
    (h : ((Notes.ofTokens ts).withDocstrings ds).HasVerdict source true n) :
    (lineText (linesLeft source ts ds) n).length ≤ firstColumn source n := by
  obtain ⟨d, hd, hn, hrem, ⟨i, j, hruns⟩, -⟩ :=
    exists_literal_of_hasVerdict ht hapart h fun e he _ => hclean.runs e he
  obtain ⟨note, e, hget, hkind, he, hrem'⟩ := h
  rw [lineText_linesLeft, rewrittenText, hget]
  simp only
  rw [rewriteLine_of_removable hkind he hrem']
  have hpos := (hruns.lines_le ht).1.trans (Literal.mem_lines.1 hn).1
  exact length_blanked_le hpos fun hlt => hclean.not_mark d hd hrem n hn hlt

/-- A piece on lines of literals that go is dropped. -/
theorem isDropped_of_hasVerdict (h : Reached source ts pre (x ++ r) rest)
    (hx : ∀ y z, x = y ++ z → ((Notes.ofTokens ts).withDocstrings ds).HasVerdict source true
      (Position.origin.advanceBy (pre ++ y)).line) :
    IsDropped (linesLeft source ts ds) (Position.origin.advanceBy pre) x := by
  intro y z hyz
  have hlength := length_linesLeft_le ht hapart hclean (hx y z hyz)
  rw [← Position.advanceBy_append]
  refine hlength.trans (firstColumn_le_column (h.mark_le.trans ?_))
  simp

/-- **A literal that goes does not end in front of a continuation**, because the backslash behind it
would make it stay. -/
theorem hasVerdict_succ_of_continuation (h : Reached source ts pre (x ++ r) rest)
    (hx : x = ['\\', '\n'] ∨ x = ['\\', '\r', '\n'])
    (hrest : Tiles (Position.origin.advanceBy (pre ++ x)) r rest)
    (hverdict : ((Notes.ofTokens ts).withDocstrings ds).HasVerdict source true
      (Position.origin.advanceBy pre).line) :
    ((Notes.ofTokens ts).withDocstrings ds).HasVerdict source true
      ((Position.origin.advanceBy pre).line + 1) := by
  obtain ⟨d, -, hn, hrem, ⟨i, j, hruns⟩, hall⟩ :=
    exists_literal_of_hasVerdict ht hapart hverdict fun e he _ => hclean.runs e he
  obtain ⟨hn₁, hn₂⟩ := Literal.mem_lines.1 hn
  refine hall _ (Literal.mem_lines.2 ⟨Nat.le_succ_of_le hn₁, ?_⟩) fun e he _ => hclean.runs e he
  obtain ⟨-, v, -, -, hv, -, hcv, -, hdv⟩ := hruns.exists_tokens ht
  obtain ⟨a, b, hab, ha, hfits, hb⟩ := exists_split_of_tokenize ht hv
  obtain ⟨hstop, hcode⟩ := hfits.stop_eq hcv
  have hend : Position.origin.advanceBy (a ++ v.text) = d.stop := by
    rw [Position.advanceBy_append, ha, hdv, hstop]
  by_contra hlast
  have hline : d.stop.line = (Position.origin.advanceBy pre).line := by omega
  obtain ⟨z, hz⟩ : ∃ z, x ++ r = '\\' :: z := by rcases hx with rfl | rfl <;> exact ⟨_, rfl⟩
  obtain ⟨done, hts, hdone⟩ := h.tokens_eq
  have hmem : v ∈ done ++ rest := hts ▸ List.mem_of_getElem? hv
  rcases List.mem_append.1 hmem with hmem | hmem
  · -- behind the literal, the rest of its line goes on to the backslash
    have hle : Position.origin.advanceBy (a ++ v.text) ≤ Position.origin.advanceBy pre := by
      rw [hend, hdv, hstop]
      exact hdone v hmem
    obtain ⟨m, rfl, rfl⟩ := Position.exists_append_of_advanceBy_le
      (hab.symm.trans h.source_eq) hle
    have hm : '\n' ∉ m := fun hm => by
      have hlt := Position.line_lt_advanceBy d.stop hm
      rw [← hend, ← Position.advanceBy_append, hend, hline] at hlt
      exact lt_irrefl _ hlt
    rw [hz] at hab hb
    have hdrop := drop_lineText hab fun hlast => absurd hlast (hcode.getLast?_ne a)
    rw [hend, firstLine_append hm (by simp), firstLine_cons (by decide) (by decide)] at hdrop
    have hsplit := List.takeWhile_append_dropWhile (p := isSpace) (l := m)
    have hspace : ∀ c ∈ m.takeWhile isSpace, isSpace c = true :=
      fun c hc => List.mem_takeWhile_imp hc
    have hhead := List.head?_dropWhile_not isSpace m
    generalize m.takeWhile isSpace = y at *
    cases hvisible : m.dropWhile isSpace with
    | nil =>
      rw [hvisible, List.append_nil] at hsplit
      rw [isRemovable_of_drop_eq hdrop (hsplit ▸ hspace) (by decide) (by decide)] at hrem
      exact Bool.noConfusion hrem
    | cons c m' =>
      rw [hvisible] at hsplit hhead
      rw [← hsplit, List.append_assoc, List.cons_append] at hdrop hb
      by_cases hsign : c = '#'
      · subst hsign
        have hlf : '\n' ∉ y := fun hy => hm (hsplit ▸ List.mem_append_left _ hy)
        obtain ⟨w, hw, hk, hwline⟩ := hb.exists_comment rfl hspace hlf
        refine line_ne_of_continuation ht h hx hrest (List.mem_of_mem_drop hw) hk ?_
        rw [hwline, ← hstop, ← hdv, hline]
      · rw [isRemovable_of_drop_eq hdrop hspace (by simpa using hhead) hsign] at hrem
        exact Bool.noConfusion hrem
  · have hle := Position.line_le (hrest.le_start hmem)
    have hlt := Position.line_lt_advanceBy (Position.origin.advanceBy pre) (t := x)
      (by rcases hx with rfl | rfl <;> decide)
    have hle' := Position.line_le (Position.le_advanceBy v.start v.text)
    rw [Position.advanceBy_append] at hle
    rw [← hstop, ← hdv] at hle'
    omega

/-- **A continuation stays or is dropped.** -/
theorem thinned_continuation (h : Reached source ts pre (x ++ r) rest)
    (hx : x = ['\\', '\n'] ∨ x = ['\\', '\r', '\n'])
    (hrest : Tiles (Position.origin.advanceBy (pre ++ x)) r rest) :
    thinned (splitLines source) (linesLeft source ts ds) (Position.origin.advanceBy pre) x = x ∨
      IsDropped (linesLeft source ts ds) (Position.origin.advanceBy pre) x := by
  by_cases hverdict : ((Notes.ofTokens ts).withDocstrings ds).HasVerdict source true
      (Position.origin.advanceBy pre).line
  · right
    refine isDropped_of_hasVerdict ht hapart hclean h fun y z hyz => ?_
    have hnext := hasVerdict_succ_of_continuation ht hapart hclean h hx hrest hverdict
    have hcount : List.count '\n' y ≤ 1 := by
      have hle := (hyz ▸ List.prefix_append y z : y <+: x).sublist.count_le '\n'
      rcases hx with rfl | rfl <;> exact hle
    rw [Position.advanceBy_append, Position.line_advanceBy]
    rcases Nat.le_one_iff_eq_zero_or_eq_one.1 hcount with hzero | hone
    · rwa [hzero]
    · rwa [hone]
  · left
    refine thinned_eq_self_of_lineText_eq ?_ fun y c z hyz => ?_
    · rw [lineText_linesLeft]
      refine (rewrittenText_of_not_hasVerdict hverdict _).resolve_right ?_
      rintro ⟨w, hw, hk, hline, -⟩
      exact line_ne_of_continuation ht h hx hrest hw hk hline
    · have hfront : y ⊆ x.dropLast := by
        rw [hyz, List.dropLast_append_of_ne_nil (List.cons_ne_nil c z)]
        exact List.subset_append_left ..
      rcases hx with rfl | rfl <;> exact fun hy => absurd (hfront hy) (by decide)

/-- **A comment stays or is dropped.** -/
theorem thinned_comment {u : Token} (h : Reached source ts pre (x ++ r) (u :: rest))
    (hx : '\n' ∉ x) (hu : u.kind = .comment) (hpre : u.start = Position.origin.advanceBy pre) :
    thinned (splitLines source) (linesLeft source ts ds) (Position.origin.advanceBy pre) x = x ∨
      IsDropped (linesLeft source ts ds) (Position.origin.advanceBy pre) x := by
  have hmem := h.mem
  by_cases hverdict : ((Notes.ofTokens ts).withDocstrings ds).HasVerdict source true
      (Position.origin.advanceBy pre).line
  · right
    refine isDropped_of_hasVerdict ht hapart hclean h fun y z hyz => ?_
    have hy : '\n' ∉ y := fun hy => hx (hyz ▸ List.mem_append_left _ hy)
    rwa [Position.advanceBy_append, Position.line_advanceBy_of_notMem _ hy]
  · rcases lineText_linesLeft_of_comment ht hmem hu (hpre ▸ hverdict) with hsame | hle
    · left
      refine thinned_eq_self_of_lineText_eq (hpre ▸ hsame) fun y c z hyz hy => ?_
      exact hx (hyz ▸ List.mem_append_left _ hy)
    · right
      rw [hpre] at hle
      exact isDropped_of_notMem hx hle

/-- **A token of code stays, or is dropped and was no bracket.** -/
theorem thinned_code {u : Token} (h : Reached source ts pre (u.text ++ r) (u :: rest))
    (hu : u.kind.isCode = true) (hpre : u.start = Position.origin.advanceBy pre) :
    thinned (splitLines source) (linesLeft source ts ds) (Position.origin.advanceBy pre) u.text =
        u.text ∨
      IsDropped (linesLeft source ts ds) (Position.origin.advanceBy pre) u.text ∧
        u.isBracket = false := by
  have hmem := h.mem
  obtain ⟨k, hk⟩ := List.getElem?_of_mem hmem
  by_cases hgoes : ∃ n, u.IsOn n ∧
      ((Notes.ofTokens ts).withDocstrings ds).HasVerdict source true n
  · right
    obtain ⟨n, hon, hverdict⟩ := hgoes
    obtain ⟨d, hd, hn, hrem, ⟨i, j, hruns⟩, hall⟩ :=
      exists_literal_of_hasVerdict ht hapart hverdict fun e he _ => hclean.runs e he
    have hin : u.LiesIn d := within_of_isRemovable ht hruns hk hu hn hon.1 hon.2 hrem
    refine ⟨isDropped_of_hasVerdict ht hapart hclean h fun y z hyz => ?_, ?_⟩
    · have hon' := line_advanceBy_take ht hmem hu y.length
      rw [hyz, List.take_left] at hon'
      rw [Position.advanceBy_append, ← hpre]
      exact hall _ (hin.mem_lines hon') fun e he _ => hclean.runs e he
    · rcases List.mem_append.1 hd with hd | hd
      · rw [Token.isBracket, kind_of_liesIn ht hd hmem hu hin]
        rfl
      · exact hclean.not_bracket d hd hrem u hmem hin
  · left
    refine thinned_eq_self fun y c z hyz => ?_
    have hchar : u.text[y.length]? = some c := by rw [hyz]; simp
    have htake : u.text.take y.length = y := by rw [hyz, List.take_left]
    have hstay : ∀ note x, ((Notes.ofTokens ts).withDocstrings ds).get?
        (u.start.advanceBy (u.text.take y.length)).line = some note →
        note.kind.isString = true → note.extent = some x →
        isRemovable (splitLines source) x = false := by
      intro note x hget hkind hx
      by_contra hrem
      rw [Bool.not_eq_false] at hrem
      exact hgoes ⟨_, line_advanceBy_take ht hmem hu y.length, note, x, hget, hkind, hx, hrem⟩
    obtain ⟨i, l, hline, hl, -, hleft⟩ := exists_rewrittenText_of_note ht hk hu hchar hstay
    rw [htake, hpre] at hline hleft
    have hold : lineText (splitLines source) (i + 1) = l.text := by
      rw [lineText, hl]
      rfl
    rw [Stays, hline, lineText_linesLeft, hold]
    rcases hleft with hsame | hstays
    · rw [hsame]
      exact lt_or_ge _ _
    · exact Or.inl (List.getElem?_eq_some_iff.1 hstays).1

end Sound

end Tokenize

/-! ## All pieces -/

/-- A token that is no bracket leaves the brackets as they are. -/
theorem depthAfter_of_not_isBracket {p : Position} {x : Text}
    (h : (Token.at .op x p).isBracket = false) (depth line : ℕ) :
    depthAfter depth line x = .ok depth := by
  fun_cases depthAfter depth line x <;> simp_all [Token.isBracket, Token.at]

/-- When the lines of the source become the lines `new`, each piece stays, or it is dropped and had
no effect on the layout. -/
def KeepsPieces (source : Text) (ts : List Token) (new : List Line) : Prop :=
  ∀ ⦃pre x r : Text⦄ ⦃rest : List Token⦄ ⦃l l' : Layout⦄ ⦃k : Piece⦄ ⦃u : Option Token⦄,
    Reached source ts pre (x ++ r) (u.toList ++ rest) → k.Fits x r →
    place l (Position.origin.advanceBy pre) x k = .ok (u, l') →
    Tiles (Position.origin.advanceBy (pre ++ x)) r rest →
    thinned (splitLines source) new (Position.origin.advanceBy pre) x = x ∨
      IsDropped new (Position.origin.advanceBy pre) x ∧ ∃ s, l' = { l with inStatement := s }

/-- When nothing is taken out, all stays. -/
theorem thinned_splitLines (source : Text) (p : Position) (x : Text) :
    thinned (splitLines source) (splitLines source) p x = x :=
  thinned_eq_self fun _ _ _ _ => lt_or_ge _ _

theorem keepsPieces_splitLines (source : Text) (ts : List Token) :
    KeepsPieces source ts (splitLines source) :=
  fun _ _ _ _ _ _ _ _ _ _ _ _ => Or.inl (thinned_splitLines ..)

/-- **When literals go cleanly, pieces are kept.** -/
theorem keepsPieces_linesLeft {source : Text} {ts : List Token} (ht : tokenize source = .ok ts)
    {ds : List Literal} (hapart : ds.Pairwise Literal.Apart) (hclean : GoCleanly source ts ds) :
    KeepsPieces source ts (linesLeft source ts ds) := by
  intro pre x r rest l l' k u h hk hplace hrest
  cases hk with
  | @space c _ hc =>
    obtain ⟨-, rfl⟩ : none = u ∧ l = l' := by simpa [place] using hplace
    by_cases hstays : Stays (splitLines source) (linesLeft source ts ds)
        (Position.origin.advanceBy pre)
    · left
      rw [thinned, if_pos hstays, thinned]
    · right
      have hcut : (lineText (linesLeft source ts ds) (Position.origin.advanceBy pre).line).length ≤
          (Position.origin.advanceBy pre).column :=
        not_lt.1 fun hlt => hstays (Or.inl hlt)
      have hlf : '\n' ∉ [c] := by
        intro hmem
        obtain rfl := List.mem_singleton.1 hmem
        exact absurd hc (by decide)
      exact ⟨isDropped_of_notMem hlf hcut, _, rfl⟩
  | continuation hx =>
    obtain ⟨rfl, rfl⟩ : none = u ∧ l = l' := by simpa [place] using hplace
    have hchoice := thinned_continuation ht hapart hclean h hx hrest
    exact hchoice.imp_right fun hdropped => ⟨hdropped, _, rfl⟩
  | lineBreak =>
    left
    exact thinned_lineFeed h.source_eq
  | comment hy hr =>
    obtain ⟨rfl, rfl⟩ : some _ = u ∧ l = l' := by simpa [place] using hplace
    have hchoice := thinned_comment ht hapart hclean h (by simp [hy]) rfl rfl
    exact hchoice.imp_right fun hdropped => ⟨hdropped, _, rfl⟩
  | code hk hx =>
    have hcode : ∀ k' : TokenKind, k'.isCode = true →
        Reached source ts pre (x ++ r) (Token.at k' x (Position.origin.advanceBy pre) :: rest) →
        thinned (splitLines source) (linesLeft source ts ds) (Position.origin.advanceBy pre) x = x ∨
          IsDropped (linesLeft source ts ds) (Position.origin.advanceBy pre) x ∧
            (Token.at k' x (Position.origin.advanceBy pre)).isBracket = false :=
      fun k' hk' h' => thinned_code ht hapart hclean (u := Token.at k' x _) h' hk' rfl
    rcases hk with rfl | rfl | rfl | rfl
    · obtain ⟨rfl, rfl⟩ : some _ = u ∧ _ = l' := by simpa [place] using hplace
      exact (hcode .string rfl h).imp_right fun hdropped => ⟨hdropped.1, _, rfl⟩
    · obtain ⟨rfl, rfl⟩ : some _ = u ∧ _ = l' := by simpa [place] using hplace
      exact (hcode .name rfl h).imp_right fun hdropped => ⟨hdropped.1, _, rfl⟩
    · obtain ⟨rfl, rfl⟩ : some _ = u ∧ _ = l' := by simpa [place] using hplace
      exact (hcode .number rfl h).imp_right fun hdropped => ⟨hdropped.1, _, rfl⟩
    · simp only [place] at hplace
      split at hplace
      · next depth hdepth =>
        obtain ⟨rfl, rfl⟩ : some _ = u ∧ _ = l' := by simpa using hplace
        refine (hcode .op rfl h).imp_right fun hdropped => ⟨hdropped.1, true, ?_⟩
        rw [depthAfter_of_not_isBracket hdropped.2] at hdepth
        obtain rfl := Except.ok.inj hdepth
        rfl
      · simp at hplace

end Marginalia
