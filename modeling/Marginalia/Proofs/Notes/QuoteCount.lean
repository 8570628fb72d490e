import Marginalia.Proofs.Rewrite.Comments
import Marginalia.Proofs.Token.Delimiter

/-!
# Counting quotes finds the comments

Without tokens, a number sign is taken for a comment when an even number of quotes stands before it
on its line. This count is blind to where a literal begins and ends: a quote in the body of a
literal, or a literal over several lines, puts it out of step. Where no literal of a source is of
that kind (`Token.IsPlain`), it finds the comments that the tokens have, and no others, each in its
column (`commentStart?_eq_some_iff_of_tokenize`).

A text is transparent to the count (`IsTransparent`) if no comment starts in it and the search
behind it begins anew. White space, code and plain literals are. So along the tokens of a source,
what stands on a line in front of the next of them stays transparent until a comment is reached
(`Tiles.findsComments`), and behind a comment there is nothing left of its line.
-/

namespace Marginalia

/-! ## Transparent texts -/

/-- The search for a comment passes over the text as if it were not there. -/
def IsTransparent (x : Text) : Prop :=
  ∀ y, commentStart? (x ++ y) = (commentStart? y).map (· + x.length)

/-- Characters that are no quotes leave the parity as it is. -/
theorem commentStartFrom?_append {even : Bool} {x : Text} (hquote : ∀ c ∈ x, isQuote c = false)
    (hsign : even = true → '#' ∉ x) (y : Text) :
    commentStartFrom? even (x ++ y) = (commentStartFrom? even y).map (· + x.length) := by
  induction x with
  | nil => simp
  | cons c x ih =>
    obtain ⟨hc, hx⟩ := List.forall_mem_cons.1 hquote
    have hno : ¬ (c = '#' ∧ even = true) := by
      rintro ⟨rfl, heven⟩
      exact hsign heven List.mem_cons_self
    rw [List.cons_append, commentStartFrom?, if_neg hno, hc,
      if_neg Bool.false_ne_true, ih hx fun heven hmem => hsign heven (List.mem_cons_of_mem c hmem),
      Option.map_map]
    rfl

/-- Where no comment starts in a text, none starts in the front of it. -/
theorem commentStartFrom?_eq_none_of_append {even : Bool} {x y : Text}
    (h : commentStartFrom? even (x ++ y) = none) : commentStartFrom? even x = none := by
  induction x generalizing even with
  | nil => rfl
  | cons c x ih =>
    rw [List.cons_append, commentStartFrom?] at h
    rw [commentStartFrom?]
    split at h
    · simp at h
    · next hno => rw [if_neg hno, ih (Option.map_eq_none_iff.1 h), Option.map_none]

theorem isTransparent_nil : IsTransparent [] := fun y => by simp

theorem IsTransparent.append {x y : Text} (hx : IsTransparent x) (hy : IsTransparent y) :
    IsTransparent (x ++ y) := by
  intro z
  rw [List.append_assoc, hx, hy, Option.map_map, List.length_append]
  exact congrArg (Option.map · _) (funext fun n => by simp only [Function.comp_apply]; omega)

theorem IsTransparent.eq_none {x y : Text} (hx : IsTransparent x) (hy : y <+: x) :
    commentStart? y = none := by
  obtain ⟨z, rfl⟩ := hy
  have hnone := hx []
  rw [List.append_nil] at hnone
  exact commentStartFrom?_eq_none_of_append hnone

/-- Between two delimiters the number of quotes is odd, and behind the second one it is even. -/
theorem isTransparent_delimited {q : Char} (hq : q = '"' ∨ q = '\'') {d body : Text}
    (hd : d = [q] ∨ d = [q, q, q]) (hbody : ∀ c ∈ body, isQuote c = false) :
    IsTransparent (d ++ body ++ d) := by
  have hquote : isQuote q = true := by rcases hq with rfl | rfl <;> rfl
  have hsign : q ≠ '#' := by rcases hq with rfl | rfl <;> decide
  have hbetween : ∀ y, commentStartFrom? false (body ++ y) =
      (commentStartFrom? false y).map (· + body.length) :=
    commentStartFrom?_append hbody (by simp)
  intro y
  rcases hd with rfl | rfl
  all_goals
    simp [commentStart?, commentStartFrom?, hquote, hsign, Function.comp_def, hbetween,
      Nat.add_comm, Nat.add_left_comm]

/-! ## Transparent tokens -/

/-- The characters that matter to the count on a line, and the one that ends the line. -/
def marks : Text := ['"', '\'', '#', '\n']

/-- Whether the text has none of the marks. -/
def isUnmarked (x : Text) : Bool :=
  x.all fun c => !marks.contains c

theorem isUnmarked_iff {x : Text} : isUnmarked x = true ↔ ∀ c ∈ x, c ∉ marks := by
  simp [isUnmarked]

theorem notMem_marks_of {p : Char → Bool} (h : marks.any p = false) {d : Char}
    (hd : p d = true) : d ∉ marks := fun hmem =>
  List.any_eq_false.1 h d hmem hd

theorem isTransparent_of_forall {x : Text} (hx : ∀ c ∈ x, c ∉ marks) :
    IsTransparent x ∧ '\n' ∉ x := by
  have hne : ∀ c ∈ x, c ≠ '"' ∧ c ≠ '\'' ∧ c ≠ '#' ∧ c ≠ '\n' := fun c hc => by
    simpa [marks] using hx c hc
  refine ⟨commentStartFrom?_append (fun c hc => ?_) fun _ hmem => (hne _ hmem).2.2.1 rfl,
    fun hmem => (hne _ hmem).2.2.2 rfl⟩
  simp [isQuote, hne c hc]

/-- Names, numbers and operators are free of marks. -/
theorem Piece.Spells.notMem_marks {k : Piece} {x : Text} (h : k.Spells x)
    (hk : k = .name ∨ k = .number ∨ k = .op) : ∀ c ∈ x, c ∉ marks := by
  rcases hk with rfl | rfl | rfl
  · exact fun c hc => notMem_marks_of (p := isNameContinue) (by decide +kernel) (h c hc)
  · exact fun c hc => notMem_marks_of (p := isNumberChar) (by decide) (h c hc)
  · have hall : operators.all isUnmarked = true := by decide
    exact isUnmarked_iff.1 (List.all_eq_true.1 hall x h)

/-- The string literal is on one line, and has no quotes but those of its delimiters. -/
structure Token.IsPlain (u : Token) : Prop where
  oneLine : u.stop.line = u.start.line
  unquoted : ∃ pre d body, IsDelimited u.text pre d body ∧ ∀ c ∈ body, isQuote c = false

/-- The prefix of a literal has letters only. -/
theorem IsDelimited.notMem_marks {x pre d body : Text} (h : IsDelimited x pre d body) :
    ∀ c ∈ pre, c ∉ marks := fun c hc =>
  h.letters.elim (fun hnil => absurd hc (by simp [hnil])) fun hletters =>
    notMem_marks_of (p := Char.isAlpha) (by decide) (isAlpha_of_mem_stringPrefix hletters hc)

theorem Token.IsPlain.isTransparent {u : Token} (h : u.IsPlain) : IsTransparent u.text := by
  obtain ⟨pre, d, body, hx, hbody⟩ := h.unquoted
  obtain ⟨q, hq, hd⟩ := hx.quotes
  rw [hx.text_eq, List.append_assoc, List.append_assoc, ← List.append_assoc d]
  exact (isTransparent_of_forall hx.notMem_marks).1.append (isTransparent_delimited hq hd hbody)

/-- All quotes of a literal are in its delimiters and its body. -/
theorem IsDelimited.length_filter_isQuote {x pre d body : Text} (h : IsDelimited x pre d body) :
    (x.filter isQuote).length = 2 * d.length + (body.filter isQuote).length := by
  obtain ⟨q, hq, hd⟩ := h.quotes
  have hpre : pre.filter isQuote = [] := List.filter_eq_nil_iff.2 fun c hc => by
    have := h.notMem_marks c hc
    simp only [marks, List.mem_cons, not_or] at this
    simp [isQuote, this]
  have hdelimiter : d.filter isQuote = d := List.filter_eq_self.2 fun c hc => by
    have hcq : c = q := by rcases hd with rfl | rfl <;> simpa using hc
    rcases hq with rfl | rfl <;> rw [hcq] <;> rfl
  rw [h.text_eq, List.filter_append, List.filter_append, List.filter_append, hpre, hdelimiter,
    List.nil_append, List.length_append, List.length_append]
  omega

/-- Whether a literal is plain can be seen from its lines and the number of its quotes. -/
theorem isPlain_iff_of_tokenize {source : Text} {ts : List Token} (h : tokenize source = .ok ts)
    {u : Token} (hu : u ∈ ts) (hk : u.kind = .string) :
    u.IsPlain ↔ u.stop.line = u.start.line ∧
      (u.text.filter isQuote).length = if u.isTripleQuoted then 6 else 2 := by
  have hcount : ∀ {pre d body : Text}, IsDelimited u.text pre d body →
      ((u.text.filter isQuote).length = (if u.isTripleQuoted then 6 else 2) ↔
        ∀ c ∈ body, isQuote c = false) := by
    intro pre d body hx
    have hlength : 2 * d.length = if u.isTripleQuoted then 6 else 2 := by
      obtain ⟨q, -, rfl | rfl⟩ := hx.quotes
      · rw [if_neg fun htriple => by simpa using (hx.isTripleQuoted_iff rfl hk).1 htriple]
        rfl
      · rw [if_pos ((hx.isTripleQuoted_iff rfl hk).2 rfl)]
        rfl
    rw [hx.length_filter_isQuote, hlength, Nat.add_eq_left, List.length_eq_zero_iff,
      List.filter_eq_nil_iff]
    simp only [Bool.not_eq_true]
  constructor
  · rintro ⟨hline, pre, d, body, hx, hbody⟩
    exact ⟨hline, (hcount hx).2 hbody⟩
  · rintro ⟨hline, hquotes⟩
    obtain ⟨pre, d, body, hx, -⟩ := exists_isDelimited_of_tokenize h hu hk
    exact ⟨hline, pre, d, body, hx, (hcount hx).1 hquotes⟩

/-- **Code is transparent** and on one line, if the literals among it are plain. -/
theorem isTransparent_of_mem {source : Text} {ts : List Token} (h : tokenize source = .ok ts)
    (hplain : ∀ u ∈ ts, u.kind = .string → u.IsPlain) {u : Token} (hu : u ∈ ts)
    (hc : u.kind.isCode = true) : IsTransparent u.text ∧ '\n' ∉ u.text := by
  obtain ⟨k, hkind, hspells⟩ := exists_spells_of_tokenize h hu hc
  cases k with
  | name | number | op => exact isTransparent_of_forall (hspells.notMem_marks (by simp))
  | string =>
    have hone := hplain u hu (Option.some.inj hkind).symm
    refine ⟨hone.isTransparent, fun hlf => ?_⟩
    have hlt := Position.line_lt_advanceBy u.start hlf
    rw [← (isCodeText_of_mem h hu hc).1, hone.oneLine] at hlt
    exact absurd hlt (lt_irrefl _)
  | space | continuation | lineBreak | comment => simp [Piece.codeKind?] at hkind

/-! ## Along the tokens -/

/-- Behind `a`, the count finds in the source the comments among the tokens; on the line of this
place it does if what stands there in front is transparent. -/
def FindsComments (source a : Text) (ts : List Token) : Prop :=
  ∀ n k, (Position.origin.advanceBy a).line < n ∨
      (Position.origin.advanceBy a).line = n ∧ IsTransparent (Literal.lastLine a) →
    (commentStart? (lineText (splitLines source) n) = some k ↔
      ∃ u ∈ ts, u.kind = .comment ∧ u.start = ⟨n, k⟩)

/-- The text of the line that ends behind `a` is a part of the last line of `a`. -/
theorem lineText_isPrefix_lastLine (a r : Text) :
    lineText (splitLines (a ++ '\n' :: r)) (Position.origin.advanceBy a).line <+:
      Literal.lastLine a := by
  by_cases hcr : a.getLast? = some '\r'
  · -- the carriage return belongs to the line break
    obtain ⟨b, rfl⟩ := List.getLast?_eq_some_iff.1 hcr
    have hline : (Position.origin.advanceBy (b ++ ['\r'])).line =
        (Position.origin.advanceBy b).line := by
      rw [Position.advanceBy_append, Position.line_advanceBy_of_notMem _ (by decide)]
    rw [hline, lineText_eq (List.append_assoc ..) (by simp), Literal.lastLine_append (by decide)]
    exact (List.prefix_append_right_inj _).2 List.nil_prefix
  · rw [lineText_eq rfl fun h => absurd h hcr, show firstLine ('\n' :: r) = [] from rfl,
      List.append_nil]

namespace FindsComments

variable {source a : Text} {ts : List Token}

/-- Behind the source nothing is found. -/
theorem of_end (a : Text) : FindsComments a a [] := by
  intro n k hn
  have hnone : commentStart? (lineText (splitLines a) n) = none := by
    rcases hn with hn | ⟨rfl, ha⟩
    · have hlength := length_splitLines_le a
      rw [Position.line_advanceBy] at hn
      rw [lineText_eq_nil (.inr (hlength.trans_lt hn))]
      rfl
    · have hline := lineText_eq (List.append_nil a).symm fun _ => by simp
      rw [hline, show firstLine [] = [] from rfl, List.append_nil]
      exact ha.eq_none (List.prefix_refl _)
  simp [hnone]

theorem cons {u : Token} (h : FindsComments source a ts) (hk : u.kind ≠ .comment) :
    FindsComments source a (u :: ts) := by
  intro n k hn
  rw [h n k hn]
  simp [hk]

/-- Transparent text in front that does not end its line. -/
theorem of_append {x : Text} (hx : IsTransparent x) (hlf : '\n' ∉ x)
    (h : FindsComments source (a ++ x) ts) : FindsComments source a ts := by
  intro n k hn
  refine h n k ?_
  rw [Position.advanceBy_append, Position.line_advanceBy_of_notMem _ hlf,
    Literal.lastLine_append hlf]
  exact hn.imp_right fun ⟨hline, ha⟩ => ⟨hline, ha.append hx⟩

/-- The end of a line. -/
theorem of_lineFeed {r : Text} (hsource : source = a ++ '\n' :: r)
    (hts : ∀ u ∈ ts, Position.origin.advanceBy (a ++ ['\n']) ≤ u.start)
    (h : FindsComments source (a ++ ['\n']) ts) : FindsComments source a ts := by
  intro n k hn
  have hlast : Literal.lastLine (a ++ ['\n']) = [] := Literal.lastLine_append_lineFeed a []
  have hline : (Position.origin.advanceBy (a ++ ['\n'])).line =
      (Position.origin.advanceBy a).line + 1 := by
    simp [Position.line_advanceBy, Nat.add_assoc]
  rcases hn with hn | ⟨rfl, ha⟩
  · refine h n k ?_
    rw [hline, hlast]
    rcases Nat.eq_or_lt_of_le hn with heq | hlt
    · exact .inr ⟨heq, isTransparent_nil⟩
    · exact .inl hlt
  · have hnone := ha.eq_none (hsource ▸ lineText_isPrefix_lastLine a r)
    rw [hnone]
    refine iff_of_false (by simp) ?_
    rintro ⟨u, hu, -, hstart⟩
    have hle := Position.line_le (hts u hu)
    rw [hline, hstart] at hle
    exact absurd hle (Nat.not_succ_le_self _)

/-- A comment goes on to the end of its line. -/
theorem of_comment {y r : Text} {u : Token} (hsource : source = a ++ '#' :: (y ++ r))
    (hlf : '\n' ∉ y) (hk : u.kind = .comment) (hu : u.start = Position.origin.advanceBy a)
    (hts : ∀ v ∈ ts, v.kind = .comment → (Position.origin.advanceBy a).line < v.start.line)
    (h : FindsComments source (a ++ '#' :: y) ts) : FindsComments source a (u :: ts) := by
  intro n k hn
  have hline : (Position.origin.advanceBy (a ++ '#' :: y)).line =
      (Position.origin.advanceBy a).line := by
    rw [Position.advanceBy_append, Position.line_advanceBy_of_notMem _ (by simp [hlf])]
  rcases hn with hn | ⟨rfl, ha⟩
  · rw [h n k (.inl (hline ▸ hn))]
    have hne : u.start ≠ ⟨n, k⟩ := by
      rw [hu]
      intro heq
      rw [heq] at hn
      exact lt_irrefl _ hn
    simp [hne]
  · have hfound : commentStart?
        (lineText (splitLines source) (Position.origin.advanceBy a).line) =
          some (Position.origin.advanceBy a).column := by
      rw [lineText_eq hsource (by simp), firstLine_cons (by decide) (by decide), ha,
        column_advanceBy_origin]
      simp [commentStart?, commentStartFrom?]
    rw [hfound, Option.some_inj]
    constructor
    · rintro rfl
      exact ⟨u, List.mem_cons_self, hk, hu⟩
    · rintro ⟨v, hv, hkv, hstart⟩
      rcases List.mem_cons.1 hv with rfl | hv
      · rw [← hu, hstart]
      · have := hts v hv hkv
        rw [hstart] at this
        exact absurd this (lt_irrefl _)

end FindsComments

/-- **The count goes along the tokens** of a source whose code is transparent. -/
theorem Tiles.findsComments {p : Position} {t : Text} {ts : List Token} (h : Tiles p t ts)
    (hcode : ∀ u ∈ ts, u.kind.isCode = true → IsTransparent u.text ∧ '\n' ∉ u.text)
    {source a : Text} (hsource : source = a ++ t) (hp : Position.origin.advanceBy a = p) :
    FindsComments source a ts := by
  have of_spaces : ∀ {x : Text}, (∀ c ∈ x, isInlineSpace c = true) → IsTransparent x ∧ '\n' ∉ x :=
    fun hx => isTransparent_of_forall fun c hc =>
      notMem_marks_of (p := isInlineSpace) (by decide) (hx c hc)
  induction h generalizing a with
  | nil =>
    rw [List.append_nil] at hsource
    exact hsource ▸ .of_end a
  | @gap p g r ts hg h ih =>
    have hrest := ih hcode (hsource.trans (List.append_assoc ..).symm)
      (by rw [Position.advanceBy_append, hp])
    cases hg with
    | @space c hc =>
      have hx := of_spaces (x := [c]) (List.forall_mem_singleton.2 hc)
      exact .of_append hx.1 hx.2 hrest
    | continuation hg =>
      obtain ⟨x, rfl, hx⟩ : ∃ x, g = x ++ ['\n'] ∧ ∀ c ∈ x, c ∉ marks := by
        rcases hg with rfl | rfl
        · exact ⟨['\\'], rfl, isUnmarked_iff.1 rfl⟩
        · exact ⟨['\\', '\r'], rfl, isUnmarked_iff.1 rfl⟩
      have hx' := isTransparent_of_forall hx
      rw [← List.append_assoc] at hrest
      refine .of_append hx'.1 hx'.2 (.of_lineFeed (r := r) ?_ (fun u hu => ?_) hrest)
      · simp [hsource]
      · rw [List.append_assoc, Position.advanceBy_append, hp]
        exact h.le_start hu
  | @token p u r ts hu hstart h ih =>
    have hrest := ih (fun v hv => hcode v (List.mem_cons_of_mem u hv))
      (hsource.trans (List.append_assoc ..).symm) (by rw [Position.advanceBy_append, hp])
    cases hu with
    | code hk =>
      have htext := hcode _ List.mem_cons_self hk
      refine .cons (.of_append htext.1 htext.2 hrest) ?_
      rintro rfl
      exact Bool.noConfusion hk
    | comment hlf hends =>
      refine .of_comment hsource hlf rfl (hstart.trans hp.symm) (fun v hv hkv => ?_) hrest
      have hlt := h.line_lt_of_endsLine_of_comment hends hv hkv
      rwa [Token.at, Position.line_advanceBy_of_notMem _ (by simp [hlf]), ← hp] at hlt
    | lineFeed hk =>
      refine .cons (.of_lineFeed hsource (fun v hv => ?_) hrest) ?_
      · rw [Position.advanceBy_append, hp]
        exact h.le_start hv
      · rintro rfl
        simp at hk
    | indent hx =>
      refine .cons (.of_append (of_spaces hx).1 (of_spaces hx).2 hrest) ?_
      simp [Token.at]
    | empty hk =>
      rw [List.append_nil] at hrest
      refine .cons hrest ?_
      rintro rfl
      simp at hk

/-! ## The count and the tokens -/

/-- **The count finds the comments of the tokens**, each on its line and in its column, if the
string literals are plain. Then verifying the quotes makes no difference to what is rewritten. -/
theorem commentStart?_eq_some_iff_of_tokenize {source : Text} {ts : List Token}
    (h : tokenize source = .ok ts) (hplain : ∀ u ∈ ts, u.kind = .string → u.IsPlain) :
    (∀ n k, commentStart? (lineText (splitLines source) n) = some k ↔
      ∃ u ∈ ts, u.kind = .comment ∧ u.start = ⟨n, k⟩) ∧
    rewrite source (Notes.ofTokens ts) true = rewrite source (Notes.ofTokens ts) false := by
  have hfinds : ∀ n k, commentStart? (lineText (splitLines source) n) = some k ↔
      ∃ u ∈ ts, u.kind = .comment ∧ u.start = ⟨n, k⟩ := by
    obtain ⟨m, t, hsource, hm, htiles⟩ := tiles_of_tokenize h
    have hmarks : isUnmarked m = true := by rcases hm with rfl | rfl <;> rfl
    obtain ⟨htransparent, hlf⟩ := isTransparent_of_forall (isUnmarked_iff.1 hmarks)
    have hfinds := htiles.findsComments (fun u hu => isTransparent_of_mem h hplain hu) hsource rfl
    intro n k
    cases n with
    | zero =>
      refine iff_of_false (by simp [lineText, commentStart?, commentStartFrom?]) ?_
      rintro ⟨u, hu, -, hstart⟩
      have hline := (standsAt_of_mem h hu).one_le_line
      rw [hstart] at hline
      exact absurd hline (Nat.not_succ_le_zero 0)
    | succ n =>
      refine hfinds (n + 1) k ?_
      rw [Position.line_advanceBy_of_notMem _ hlf, Literal.lastLine_of_notMem hlf]
      rcases n.eq_zero_or_pos with rfl | hn
      · exact .inr ⟨rfl, htransparent⟩
      · exact .inl (Nat.succ_lt_succ hn)
  have hfaithful : (Notes.ofTokens ts).IsFaithful source true := by
    refine ⟨fun n note hget hk => ?_, (isFaithful_ofTokens h).literal⟩
    obtain ⟨u, hu, hku, rfl, rfl⟩ := Notes.exists_comment hget hk
    obtain ⟨hsign, heven⟩ := commentStart?_eq_some ((hfinds _ _).2 ⟨u, hu, hku, rfl⟩)
    exact ⟨hsign, fun _ => heven⟩
  exact ⟨hfinds, hfaithful.rewrite_verify⟩

/-- A source with number signs in its literals, on two lines of one statement, and two comments. -/
def plainSource : Text := "\ufeffx = Rb'#' + \"\" \\\n '''#'''  # a'\r\n# b".toList

/-- The tokens of `plainSource`. -/
def plainTokens : List Token :=
  [.at .name "x".toList ⟨1, 1⟩, .at .op "=".toList ⟨1, 3⟩, .at .string "Rb'#'".toList ⟨1, 5⟩,
   .at .op "+".toList ⟨1, 11⟩, .at .string "\"\"".toList ⟨1, 13⟩,
   .at .string "'''#'''".toList ⟨2, 1⟩, .at .comment "# a'".toList ⟨2, 10⟩,
   ⟨.newline, ['\n'], ⟨2, 15⟩, ⟨2, 16⟩⟩, .at .comment "# b".toList ⟨3, 0⟩,
   .at .endMarker [] ⟨3, 3⟩]

theorem tokenize_plainSource : tokenize plainSource = .ok plainTokens := by decide +kernel

theorem isPlain_plainTokens : ∀ u ∈ plainTokens, u.kind = .string → u.IsPlain := by
  have hall : ∀ u ∈ plainTokens, u.kind = .string → u.stop.line = u.start.line ∧
      (u.text.filter isQuote).length = if u.isTripleQuoted then 6 else 2 := by
    decide
  exact fun u hu hk => (isPlain_iff_of_tokenize tokenize_plainSource hu hk).2 (hall u hu hk)

/-- The count finds both comments of `plainSource`, behind its literals. -/
theorem commentStart?_eq_some_iff_plainSource :
    (tokenize plainSource = .ok plainTokens ∧
      ∀ u ∈ plainTokens, u.kind = .string → u.IsPlain) ∧
    (∀ n k, commentStart? (lineText (splitLines plainSource) n) = some k ↔
      ∃ u ∈ plainTokens, u.kind = .comment ∧ u.start = ⟨n, k⟩) ∧
    rewrite plainSource (Notes.ofTokens plainTokens) true =
      rewrite plainSource (Notes.ofTokens plainTokens) false :=
  ⟨⟨tokenize_plainSource, isPlain_plainTokens⟩,
    commentStart?_eq_some_iff_of_tokenize tokenize_plainSource isPlain_plainTokens⟩

end Marginalia
