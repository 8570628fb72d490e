import Marginalia.Proofs.Literal
import Marginalia.Proofs.Token.Outline

/-!
# Strings that are statements

A triple-quoted string that is alone on its logical line is a statement without effect. Whether it
is taken for commentary is judged by the nearest tokens that bear meaning, and these belong to other
statements: one is the last token of the statement in front, the other the first token of the
statement behind. So such a string is found exactly when its neighbours do not look as if they went
on across the line (`mem_standaloneStrings_iff`): the statement in front does not end in a comma, an
equals sign or one of three keywords, and the statement behind does not start with a comma.

Brackets do not matter, although the detector asks for them. Logical lines end outside brackets, so
none is open at the end of a statement, and none can be closed at the start of one.
-/

namespace Marginalia

/-- Whether a token is alone on its logical line, between the tokens `before` (nearest first) and
`after`. -/
def isAlone (before after : List Token) : Bool :=
  (before.find? fun t => !t.kind.isAside).all (·.kind == .newline) &&
    (after.find? fun t => t.kind != .comment && t.kind != .lineBreak).any (·.kind == .newline)

/-- Whether the token looks as if the string in the next statement belonged to it. -/
def Token.bindsAcross (t : Token) : Bool :=
  t.isOp [','] || t.isOp ['='] || bindingKeywords.any t.isName

/-! ## The statements around -/

theorem Token.isSemantic_of_isAside {t : Token} (h : t.kind.isAside = true) :
    t.isSemantic = false := by
  cases hk : t.kind <;> simp [hk, isSemantic, TokenKind.isAside, TokenKind.isLayout] at h ⊢

theorem Token.isSemantic_of_newline {t : Token} (h : t.kind = .newline) : t.isSemantic = false := by
  simp [isSemantic, h, TokenKind.isLayout]

/-- What a search from the end finds cuts the list in two. -/
theorem exists_append_of_find?_reverse {α : Type} {f : α → Bool} {xs : List α} {a : α}
    (h : xs.reverse.find? f = some a) :
    ∃ x y, xs = x ++ a :: y ∧ f a = true ∧ ∀ b ∈ y, f b = false := by
  obtain ⟨ha, y, x, hxs, hy⟩ := List.find?_eq_some_iff_append.1 h
  refine ⟨x.reverse, y.reverse, ?_, ha, fun b hb => by simpa using hy b (List.mem_reverse.1 hb)⟩
  rw [← List.reverse_reverse xs, hxs, List.reverse_append, List.reverse_cons, List.append_assoc]
  rfl

/-- The statement in front ends behind each of its tokens. -/
theorem exists_newline_before {x y post : List Token} {v : Token}
    (h : isAlone (x ++ v :: y).reverse post = true) (hside : v.kind.isAside = false)
    (hv : v.kind ≠ .newline) : ∃ w n z, y = w ++ n :: z ∧ n.kind = .newline := by
  have hbefore := (Bool.and_eq_true_iff.1 h).1
  rw [List.reverse_append, List.reverse_cons, List.append_assoc, List.find?_append] at hbefore
  cases hfind : y.reverse.find? fun t => !t.kind.isAside with
  | none => simp [hfind, hside, hv] at hbefore
  | some n =>
    rw [hfind, Option.some_or, Option.all_some, beq_iff_eq] at hbefore
    obtain ⟨w, z, hy, -⟩ := exists_append_of_find?_reverse hfind
    exact ⟨w, n, z, hy, hbefore⟩

/-- The statement itself ends. -/
theorem exists_newline_after {before post : List Token} (h : isAlone before post = true) :
    ∃ x n y, post = x ++ n :: y ∧ n.kind = .newline ∧ ∀ w ∈ x, w.isSemantic = false := by
  obtain ⟨n, hfind, hn⟩ := (Option.any_eq_true ..).1 (Bool.and_eq_true_iff.1 h).2
  obtain ⟨-, x, y, hpost, hx⟩ := List.find?_eq_some_iff_append.1 hfind
  refine ⟨x, n, y, hpost, by simpa using hn, fun w hw => Token.isSemantic_of_isAside ?_⟩
  have hw' := hx w hw
  cases hk : w.kind <;> simp [hk, TokenKind.isAside] at hw' ⊢

/-! ## Brackets at the ends of a statement -/

theorem Token.bracketStep_of_isOp {t : Token} {c : Char} (h : t.isOp [c] = true) :
    t.bracketStep = if isOpening c then 1 else if isClosing c then -1 else 0 := by
  rw [isOp, Bool.and_eq_true, beq_iff_eq, beq_iff_eq] at h
  rw [bracketStep, h.1, h.2]

/-- Of what binds the string behind it, only an opening bracket opens a bracket. -/
theorem Token.bindsNext_eq {t : Token} (h : t.bracketStep ≤ 0) : t.bindsNext = t.bindsAcross := by
  have hopen : ∀ c, isOpening c = true → t.isOp [c] = false := by
    intro c hc
    by_contra hop
    rw [bracketStep_of_isOp (Bool.of_not_eq_false hop), if_pos hc] at h
    exact absurd h (by decide)
  simp [bindsNext, bindsAcross, bindingOperators, hopen '(' rfl, hopen '[' rfl, hopen '\x7b' rfl]

theorem Token.closesPrevious_eq {t : Token} (h : 0 ≤ t.bracketStep) :
    t.closesPrevious = t.isOp [','] := by
  have hclose : ∀ c, isClosing c = true → isOpening c = false → t.isOp [c] = false := by
    intro c hc hc'
    by_contra hop
    rw [bracketStep_of_isOp (Bool.of_not_eq_false hop), hc', hc] at h
    exact absurd h (by decide)
  simp [closesPrevious, trailingOperators, hclose ')' rfl rfl, hclose ']' rfl rfl,
    hclose '\x7d' rfl rfl]

theorem bracketDepth_eq_zero {us : List Token} (h : ∀ u ∈ us, u.isSemantic = false) :
    bracketDepth us = 0 := by
  induction us with
  | nil => rfl
  | cons u us ih =>
    obtain ⟨hu, hus⟩ := List.forall_mem_cons.1 h
    have hk : u.kind ≠ .op := by
      intro hk
      simp [Token.isSemantic, hk, TokenKind.isLayout] at hu
    rw [bracketDepth_cons, Token.bracketStep_of_ne hk, ih hus, add_zero]

section Outline

variable {ts pre post : List Token} {u : Token} (h : IsOutlined ts) (hts : ts = pre ++ u :: post)
  (halone : isAlone pre.reverse post = true)
include h hts halone

/-- The statement in front does not end in an opening bracket. -/
theorem bracketStep_le_of_isAlone {p : Token}
    (hp : pre.reverse.find? Token.isSemantic = some p) : p.bracketStep ≤ 0 := by
  obtain ⟨x, y, rfl, hsemantic, hy⟩ := exists_append_of_find?_reverse hp
  have hkind : p.kind.isAside = false ∧ p.kind ≠ .newline := by
    cases hk : p.kind <;>
      simp [hk, Token.isSemantic, TokenKind.isLayout, TokenKind.isAside] at hsemantic ⊢
  obtain ⟨w, n, z, rfl, hn⟩ := exists_newline_before halone hkind.1 hkind.2
  have hdepth := h.outside (x ++ p :: w) n (z ++ u :: post) (by simp [hts]) (.inl hn)
  have hfront := h.depth_nonneg x (by simp [hts])
  have hmiddle : bracketDepth w = 0 :=
    bracketDepth_eq_zero fun v hv => hy v (List.mem_append_left _ hv)
  rw [bracketDepth_append, bracketDepth_cons, hmiddle] at hdepth
  omega

/-- The statement behind does not start with a closing bracket. -/
theorem le_bracketStep_of_isAlone {q : Token} (hq : post.find? Token.isSemantic = some q) :
    0 ≤ q.bracketStep := by
  obtain ⟨x, n, y, rfl, hn, hx⟩ := exists_newline_after halone
  have hq' : y.find? Token.isSemantic = some q := by
    rwa [List.find?_append, List.find?_eq_none.2 fun w hw => by simp [hx w hw], Option.none_or,
      List.find?_cons, Token.isSemantic_of_newline hn] at hq
  obtain ⟨-, d, e, rfl, hd⟩ := List.find?_eq_some_iff_append.1 hq'
  have hdepth := h.outside (pre ++ u :: x) n (d ++ q :: e) (by simp [hts]) (.inl hn)
  have hfront := h.depth_nonneg ((pre ++ u :: x) ++ n :: (d ++ [q])) (by simp [hts])
  have hmiddle : bracketDepth d = 0 := bracketDepth_eq_zero fun v hv => by simpa using hd v hv
  have hstep : n.bracketStep = 0 := Token.bracketStep_of_ne (by simp [hn])
  rw [bracketDepth_append, hdepth, bracketDepth_cons, bracketDepth_append, hmiddle, hstep,
    bracketDepth_cons, bracketDepth_nil] at hfront
  omega

end Outline

/-! ## What is found -/

theorem Literal.covers_ofToken_iff {t : Token} {n : ℕ} :
    (ofToken t).covers n = true ↔ t.start.line ≤ n ∧ n ≤ max t.stop.line t.start.line := by
  rw [covers, Bool.and_eq_true, decide_eq_true_iff, decide_eq_true_iff]
  rfl

/-- A literal that may be commentary is found where it stands alone, unless an earlier one covers
its first line. -/
theorem mem_standaloneFrom_iff {u : Token} (hu : u.isPlainTripleQuoted = true)
    {before pre post : List Token} {found : List Literal}
    (hfound : ∀ d ∈ found, d.covers u.start.line = false)
    (hpre : ∀ v ∈ pre, v.kind = .string → (Literal.ofToken v).covers u.start.line = false)
    (hpost : ∀ v ∈ post, v.kind = .string → v.start ≠ u.start) :
    Literal.ofToken u ∈ standaloneFrom before found (pre ++ u :: post) ↔
      standsAloneBetween (pre.reverse ++ before) post = true := by
  induction pre generalizing before found with
  | nil =>
    have hfree : (found.any fun d => d.covers u.start.line) = false := by
      rw [List.any_eq_false]
      exact fun d hd => by simp [hfound d hd]
    rw [List.nil_append, standaloneFrom, hu, hfree, List.reverse_nil, List.nil_append]
    simp only [Bool.not_false, Bool.and_true, Bool.true_and]
    split
    · next hstands => simp [hstands]
    · next hstands =>
      refine iff_of_false (fun hmem => ?_) hstands
      obtain ⟨v, hv, hk, heq⟩ := Literal.exists_token_of_mem_standaloneFrom hmem
      exact hpost v hv hk (congrArg Literal.start heq).symm
  | cons v pre ih =>
    obtain ⟨hv, hpre'⟩ := List.forall_mem_cons.1 hpre
    rw [List.cons_append, standaloneFrom, List.reverse_cons, List.append_assoc,
      List.singleton_append]
    split
    · next hstands =>
      simp only [Bool.and_eq_true] at hstands
      have hcovers := hv (Literal.kind_of_isPlainTripleQuoted hstands.1.1)
      have hne : Literal.ofToken u ≠ Literal.ofToken v := by
        intro heq
        rw [← heq, ← Bool.not_eq_true, Literal.covers_ofToken_iff] at hcovers
        exact hcovers ⟨le_rfl, le_max_right ..⟩
      rw [List.mem_cons, or_iff_right hne]
      exact ih (List.forall_mem_cons.2 ⟨hcovers, hfound⟩) hpre'
    · exact ih hfound hpre'

theorem getElem?_length_of_eq_append {α : Type} {xs x y : List α} {a : α} (h : xs = x ++ a :: y) :
    xs[x.length]? = some a := by
  rw [h, List.getElem?_append_right le_rfl, Nat.sub_self]
  rfl

/-- What stands at an index cuts the list in two. -/
theorem exists_append_of_getElem? {α : Type} {xs : List α} {i : ℕ} {a : α} (h : xs[i]? = some a) :
    ∃ x y, xs = x ++ a :: y ∧ x.length = i := by
  obtain ⟨hlt, rfl⟩ := List.getElem?_eq_some_iff.1 h
  refine ⟨xs.take i, xs.drop (i + 1), ?_, List.length_take_of_le hlt.le⟩
  rw [List.cons_getElem_drop_succ, List.take_append_drop]

/-- The verdict on a token, by the two parts that it cuts the tokens into. -/
theorem isStandalone_append_cons (pre post : List Token) (u : Token) :
    isStandalone (pre ++ u :: post) pre.length = standsAloneBetween pre.reverse post := by
  have hindex : ¬ (pre ++ u :: post).length ≤ pre.length := by
    rw [List.length_append, List.length_cons]
    omega
  have hdrop : (pre ++ u :: post).drop (pre.length + 1) = post := by
    rw [List.drop_length_add_append]
    rfl
  rw [isStandalone, decide_eq_false hindex, Bool.false_or, List.take_left, hdrop]

section Tokenize

variable {source : Text} {ts pre post : List Token} {u : Token} (h : tokenize source = .ok ts)
  (hts : ts = pre ++ u :: post) (hc : u.kind.isCode = true)
include h hts hc

/-- No literal in front reaches the line of a statement. -/
theorem covers_eq_false_of_isAlone (halone : isAlone pre.reverse post = true) {v : Token}
    (hv : v ∈ pre) (hk : v.kind = .string) : (Literal.ofToken v).covers u.start.line = false := by
  obtain ⟨x, y, rfl⟩ := List.append_of_mem hv
  obtain ⟨w, n, z, rfl, hn⟩ := exists_newline_before halone (by rw [hk]; rfl) (by simp [hk])
  have hv' := getElem?_length_of_eq_append (hts.trans (List.append_assoc ..))
  have hn' : ts[(x ++ v :: w).length]? = some n :=
    getElem?_length_of_eq_append (y := z ++ u :: post) (by simp [hts])
  have hu' := getElem?_length_of_eq_append hts
  have hstop := (isCodeText_of_mem h (List.mem_of_getElem? hv') (by rw [hk]; rfl)).1
  have hstart := Position.line_le (Position.le_advanceBy v.start v.text)
  have hle := Position.line_le (advanceBy_text_le_start h hv' hn' (by simp))
  have hlt := line_lt_of_newline h hn' hn hu' hc (by simp)
  rw [← Bool.not_eq_true, Literal.covers_ofToken_iff, hstop]
  omega

/-- Later literals start elsewhere. -/
theorem start_ne_of_mem {v : Token} (hv : v ∈ post) : v.start ≠ u.start := by
  obtain ⟨x, y, rfl⟩ := List.append_of_mem hv
  have hu' := getElem?_length_of_eq_append hts
  have hv' : ts[(pre ++ u :: x).length]? = some v :=
    getElem?_length_of_eq_append (y := y) (by simp [hts])
  have hlt := Position.lt_advanceBy u.start
    (isCodeText_of_mem h (List.mem_of_getElem? hu') hc).2.ne_nil
  exact (hlt.trans_le (advanceBy_text_le_start h hu' hv' (by simp))).ne'

end Tokenize

/-- **A string that is a statement is found** exactly when the statement in front of it does not
end as if it went on to the string, and the statement behind does not start as if it came from
there. -/
theorem mem_standaloneStrings_iff {source : Text} {ts pre post : List Token} {u : Token}
    (h : tokenize source = .ok ts) (hts : ts = pre ++ u :: post)
    (hu : u.isPlainTripleQuoted = true) (halone : isAlone pre.reverse post = true) :
    Literal.ofToken u ∈ standaloneStrings ts ↔
      ∀ p, pre.reverse.find? Token.isSemantic = some p → p.bindsAcross = false ∧
        ∀ q, post.find? Token.isSemantic = some q → q.isOp [','] = false := by
  have houtlined := (outlines_of_tokenize h).isOutlined
  have hc : u.kind.isCode = true := by rw [Literal.kind_of_isPlainTripleQuoted hu]; rfl
  have hmem : Literal.ofToken u ∈ standaloneFrom [] [] (pre ++ u :: post) ↔
      standsAloneBetween (pre.reverse ++ []) post = true :=
    mem_standaloneFrom_iff hu (by simp)
      (fun v hv hk => covers_eq_false_of_isAlone h hts hc halone hv hk)
      (fun v hv _ => start_ne_of_mem h hts hc hv)
  rw [standaloneStrings, hts, hmem, List.append_nil, standsAloneBetween]
  cases hp : pre.reverse.find? Token.isSemantic with
  | none => simp
  | some p =>
    simp only [Token.bindsNext_eq (bracketStep_le_of_isAlone houtlined hts halone hp)]
    cases hq : post.find? Token.isSemantic with
    | none => simp
    | some q =>
      simp [Token.closesPrevious_eq (le_bracketStep_of_isAlone houtlined hts halone hq)]

/-- Two strings that are statements, one behind a tuple and one behind a block. -/
def twoStatements : Text := "x = 1,\n'''s'''\nif x:\n  y\n'''t'''\n".toList

/-- The tokens of the tuple. -/
def tupleTokens : List Token :=
  [.at .name ['x'] ⟨1, 0⟩, .at .op ['='] ⟨1, 2⟩, .at .number ['1'] ⟨1, 4⟩, .at .op [','] ⟨1, 5⟩,
   ⟨.newline, ['\n'], ⟨1, 6⟩, ⟨1, 7⟩⟩]

/-- The string behind the tuple. -/
def tupleString : Token := .at .string "'''s'''".toList ⟨2, 0⟩

/-- The tokens of the block. -/
def blockTokens : List Token :=
  [⟨.newline, ['\n'], ⟨2, 7⟩, ⟨2, 8⟩⟩, .at .name "if".toList ⟨3, 0⟩, .at .name ['x'] ⟨3, 3⟩,
   .at .op [':'] ⟨3, 4⟩, ⟨.newline, ['\n'], ⟨3, 5⟩, ⟨3, 6⟩⟩, .at .indent [' ', ' '] ⟨4, 0⟩,
   .at .name ['y'] ⟨4, 2⟩, ⟨.newline, ['\n'], ⟨4, 3⟩, ⟨4, 4⟩⟩, .at .dedent [] ⟨5, 0⟩]

/-- The string behind the block. -/
def blockString : Token := .at .string "'''t'''".toList ⟨5, 0⟩

/-- What stands behind the last string. -/
def lastTokens : List Token := [⟨.newline, ['\n'], ⟨5, 7⟩, ⟨5, 8⟩⟩, .at .endMarker [] ⟨6, 0⟩]

theorem tokenize_twoStatements : tokenize twoStatements =
    .ok ((tupleTokens ++ tupleString :: blockTokens) ++ blockString :: lastTokens) := by
  decide +kernel

/-- The string behind the tuple is missed: the comma at its end seems to go on to the string. -/
theorem not_mem_standaloneStrings_of_isAlone :
    ¬ ∀ (source : Text) (ts pre post : List Token) (u : Token), tokenize source = .ok ts →
      ts = pre ++ u :: post → u.isPlainTripleQuoted = true → isAlone pre.reverse post = true →
        Literal.ofToken u ∈ standaloneStrings ts := by
  intro h
  have hmem := h twoStatements _ tupleTokens (blockTokens ++ blockString :: lastTokens) tupleString
    tokenize_twoStatements (List.append_assoc ..) (by decide) (by decide)
  revert hmem
  decide +kernel

/-- The string behind the block is judged by `y` and by the end of the source, and found. -/
theorem mem_standaloneStrings_iff_blockString :
    (tokenize twoStatements =
        .ok ((tupleTokens ++ tupleString :: blockTokens) ++ blockString :: lastTokens) ∧
      blockString.isPlainTripleQuoted = true ∧
      isAlone (tupleTokens ++ tupleString :: blockTokens).reverse lastTokens = true) ∧
    (Literal.ofToken blockString ∈ standaloneStrings
        ((tupleTokens ++ tupleString :: blockTokens) ++ blockString :: lastTokens) ↔
      ∀ p, (tupleTokens ++ tupleString :: blockTokens).reverse.find? Token.isSemantic = some p →
        p.bindsAcross = false ∧
        ∀ q, lastTokens.find? Token.isSemantic = some q → q.isOp [','] = false) :=
  ⟨⟨tokenize_twoStatements, by decide, by decide⟩,
    mem_standaloneStrings_iff tokenize_twoStatements rfl (by decide) (by decide)⟩

end Marginalia
