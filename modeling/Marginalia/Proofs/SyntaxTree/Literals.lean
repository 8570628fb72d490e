import Marginalia.Proofs.SyntaxTree
import Marginalia.Proofs.Text.Offsets
import Marginalia.Proofs.Token.Delimiter

/-!
# String literals in syntax trees

Of string literals the grammar of the language says how they are spelled, and what may stand
between the literals of an expression (`SyntaxTree.SpellsLiterals`). Parts that stand one after the
other are spelled as one text, so such an expression is a row of literals with spacing between them
(`SyntaxTree.exists_row`), by induction on its parts. A statement that consists of it may have a
comma behind it (`SyntaxTree.exists_tail`).
-/

namespace Marginalia

/-! ## Rows of literals -/

/-- Whether a letter can stand in front of the quotes of a literal. -/
def isPrefixLetter (c : Char) : Bool :=
  ['b', 'f', 'r', 'u'].contains c.toLower

/-- The text is one string literal: letters, quotes, a body, and the same quotes. Without
replacement fields the first quotes in the body that are not escaped close it; what may stand in
replacement fields is up to the parser. -/
def IsLiteral (x : Text) : Prop :=
  ∃ pre d body, x = pre ++ d ++ body ++ d ∧ (∀ c ∈ pre, isPrefixLetter c = true) ∧
    (∃ q, (q = '"' ∨ q = '\'') ∧ (d = [q] ∨ d = [q, q, q])) ∧
    ('f' ∉ Text.toLower pre → ClosesFirst d body)

/-- Whether the letters at the front of a text make it an expression to be evaluated, or bytes. -/
def isEvaluated (x : Text) : Bool :=
  (x.takeWhile Char.isAlpha).any fun c => c.toLower == 'f' || c.toLower == 'b'

/-- Whether the character takes up room, or is not seen at all. -/
def isSpacingChar (c : Char) : Bool :=
  c.isWhitespace || ['\x0b', '\x0c', '\ufeff', '\u2060', '\u200b'].contains c

/-- The text is white space, comments with the line break behind them, and continued lines. -/
inductive IsSpacing : Text → Prop
  | nil : IsSpacing []
  | char {c : Char} {t : Text} (hc : isSpacingChar c = true) (h : IsSpacing t) : IsSpacing (c :: t)
  | comment {x t : Text} (hx : '\n' ∉ x) (h : IsSpacing ('\n' :: t)) :
      IsSpacing ('#' :: (x ++ '\n' :: t))
  | continuation {t : Text} (h : IsSpacing t) : IsSpacing ('\\' :: '\n' :: t)
  | carriageReturn {t : Text} (h : IsSpacing t) : IsSpacing ('\\' :: '\r' :: '\n' :: t)

/-- The text is the literals one after the other, with spacing between them. -/
inductive IsLiteralRow : List Text → Text → Prop
  | single {x : Text} (hx : IsLiteral x) : IsLiteralRow [x] x
  | cons {x gap t : Text} {xs : List Text} (hx : IsLiteral x) (hgap : IsSpacing gap)
      (h : IsLiteralRow xs t) : IsLiteralRow (x :: xs) (x ++ gap ++ t)

theorem IsSpacing.append {s t : Text} (hs : IsSpacing s) (ht : IsSpacing t) :
    IsSpacing (s ++ t) := by
  induction hs with
  | nil => exact ht
  | char hc _ ih => exact .char hc ih
  | comment hx _ ih =>
    rw [List.cons_append, List.append_assoc]
    exact .comment hx ih
  | continuation _ ih => exact .continuation ih
  | carriageReturn _ ih => exact .carriageReturn ih

theorem isAlpha_of_isPrefixLetter {c : Char} (h : isPrefixLetter c = true) : c.isAlpha = true := by
  refine isAlpha_of_toLower ?_
  simp only [isPrefixLetter, List.contains_iff_mem, List.mem_cons, List.not_mem_nil,
    or_false] at h
  rcases h with h | h | h | h <;> rw [h] <;> rfl

section IsLiteral

variable {x : Text} (h : IsLiteral x)
include h

/-- The letters in front of the quotes are at the front of all that starts with the literal. -/
theorem IsLiteral.isEvaluated_append (s : Text) : isEvaluated (x ++ s) = isEvaluated x := by
  obtain ⟨pre, d, body, rfl, hpre, ⟨q, hq, hd⟩, -⟩ := h
  have hquote : ¬ q.isAlpha = true := by rcases hq with rfl | rfl <;> decide
  have hletters : ∀ y, (pre ++ q :: y).takeWhile Char.isAlpha = pre := fun y => by
    rw [List.takeWhile_append_of_pos fun c hc => isAlpha_of_isPrefixLetter (hpre c hc),
      List.takeWhile_cons_of_neg hquote, List.append_nil]
  rcases hd with rfl | rfl <;> simp [isEvaluated, hletters]

/-- A literal starts with a letter of its prefix or with its quote. -/
theorem IsLiteral.exists_cons : ∃ c y, x = c :: y ∧
    (c = '"' ∨ c = '\'' ∨ isPrefixLetter c = true ∧ (c = 'f' → isEvaluated x = true)) := by
  obtain ⟨pre, d, body, rfl, hpre, ⟨q, hq, hd⟩, -⟩ := h
  cases pre with
  | nil =>
    obtain ⟨y, rfl⟩ : ∃ y, d = q :: y := by
      rcases hd with rfl | rfl
      · exact ⟨_, rfl⟩
      · exact ⟨_, rfl⟩
    exact ⟨q, _, rfl, hq.imp_right Or.inl⟩
  | cons c pre =>
    refine ⟨c, _, rfl, Or.inr (Or.inr ⟨hpre c List.mem_cons_self, ?_⟩)⟩
    rintro rfl
    simp [isEvaluated]

/-- A literal that starts with a quote ends at the next one. -/
theorem IsLiteral.eq_of_isPrefix {y r : Text} (hne : y ≠ []) (hquote : '\'' ∉ y)
    (hbackslash : '\\' ∉ y) (hx : x <+: '\'' :: (y ++ '\'' :: r)) : x = '\'' :: (y ++ ['\'']) := by
  obtain ⟨pre, d, body, rfl, hpre, ⟨q, -, hd⟩, hcloses⟩ := h
  rw [List.append_assoc, List.append_assoc] at hx
  obtain rfl : pre = [] := by
    cases pre with
    | nil => rfl
    | cons c pre =>
      obtain rfl := (List.cons_prefix_cons.1 hx).1
      exact absurd (hpre _ List.mem_cons_self) (by decide)
  rcases hd with rfl | rfl
  · obtain ⟨rfl, hrest⟩ := List.cons_prefix_cons.1 hx
    obtain rfl := (hcloses (by simp [Text.toLower])).eq_of_isPrefix hquote hbackslash hrest
    rfl
  · obtain ⟨rfl, hrest⟩ := List.cons_prefix_cons.1 hx
    obtain ⟨c, y, rfl⟩ := List.exists_cons_of_ne_nil hne
    obtain ⟨rfl, -⟩ := List.cons_prefix_cons.1 hrest
    simp at hquote

end IsLiteral

/-! ## Texts of nodes -/

/-- The text stands in the source from the first place to the second. -/
def Offset.Spells (source : Text) (x y : Offset) (t : Text) : Prop :=
  ((Utf8.encode source).take y.byte).drop x.byte = Utf8.encode t

instance (source : Text) (x y : Offset) (t : Text) : Decidable (x.Spells source y t) :=
  inferInstanceAs (Decidable (_ = _))

/-- What stands between two places goes on with what stands behind the second. -/
theorem Offset.Spells.append {source s t : Text} {x y z : Offset} (hs : Spells source x y s)
    (ht : Spells source y z t) (hxy : x.byte ≤ y.byte) (hyz : y.byte ≤ z.byte) :
    Spells source x z (s ++ t) := by
  obtain ⟨j, hj⟩ := Nat.exists_eq_add_of_le hxy
  obtain ⟨k, hk⟩ := Nat.exists_eq_add_of_le hyz
  rw [Spells, List.drop_take] at hs ht ⊢
  rw [hj, Nat.add_sub_cancel_left] at hs
  rw [hk, Nat.add_sub_cancel_left, hj, ← List.drop_drop] at ht
  rw [hk, hj, Nat.add_assoc, Nat.add_sub_cancel_left, List.take_add, hs, ht, Utf8.encode_append]

theorem SyntaxTree.text?_eq_some_iff {source x : Text} {t : SyntaxTree} :
    t.text? source = some x ↔ t.start.Spells source t.stop x := by
  rw [text?, Offset.Spells, ← Utf8.decode_eq_ok_iff]
  cases Utf8.decode _ <;> simp [Except.toOption]

/-! ## What the grammar says of literals -/

namespace SyntaxTree

/-- The second node stands behind the first, with spacing between them; a comment goes on to the end
of its line. -/
def IsFollowedBy (source : Text) (c d : SyntaxTree) : Prop :=
  c.stop.byte ≤ d.start.byte ∧ ∃ gap, IsSpacing gap ∧ c.stop.Spells source d.start gap ∧
    (c.kind = "comment".toList → gap.head? = some '\n')

/-- What the parts of an expression of string literals are spelled like. -/
inductive IsPart (source : Text) (c : SyntaxTree) : Prop
  | literal {x : Text} (hkind : c.kind = "string".toList) (hx : IsLiteral x)
      (htext : c.text? source = some x)
  | comment {x : Text} (hkind : c.kind = "comment".toList) (hx : '\n' ∉ x)
      (htext : c.text? source = some ('#' :: x))
  | continuation {x : Text} (hkind : c.kind = "line_continuation".toList)
      (hx : x = "\\\n".toList ∨ x = "\\\r\n".toList) (htext : c.text? source = some x)

/-- The kinds of these parts. -/
def partKinds : List Text :=
  ["string".toList, "comment".toList, "line_continuation".toList]

/-- The kinds of the nodes that are read part by part. -/
def composedKinds : List Text :=
  ["concatenated_string".toList, "expression_statement".toList]

/-- The node goes from its first part to its last, and there is only spacing between them. -/
structure IsComposed (source : Text) (n : SyntaxTree) : Prop where
  start : n.children.head?.map (·.start) = some n.start
  stop : n.children.getLast?.map (·.stop) = some n.stop
  gaps : n.children.IsChain (IsFollowedBy source)

/-- What the grammar of the language says of string literals and of expressions of them. -/
structure SpellsLiterals (source : Text) (t : SyntaxTree) : Prop where
  part : ∀ n ∈ t.nodes, n.kind ∈ partKinds → n.IsPart source
  comma : ∀ n ∈ t.nodes, n.kind = ",".toList → n.text? source = some [',']
  composed : ∀ n ∈ t.nodes, n.kind ∈ composedKinds → n.IsComposed source
  /-- Literals are concatenated with nothing but comments and continued lines between them. -/
  concatenation : ∀ n ∈ t.nodes, n.kind = "concatenated_string".toList →
    (∀ c ∈ n.children, c.kind ∈ partKinds) ∧
      n.children.head?.map (·.kind) = some "string".toList ∧
      n.children.getLast?.map (·.kind) = some "string".toList
  /-- Beside an expression of literals there is no more in a statement than a comma. -/
  statement : ∀ n ∈ t.nodes, n.kind = "expression_statement".toList →
    ∀ e, n.namedChildren = [e] → e.kind ∈ stringKinds →
      n.children = [e] ∨ ∃ c, c.kind = ",".toList ∧ n.children = [e, c]

/-- The literals of an expression of string literals only. -/
def literals (e : SyntaxTree) : List SyntaxTree :=
  if e.kind = "string".toList then [e] else e.children.filter (·.kind == "string".toList)

/-- The text of a part that is no literal, and of what follows it, is spacing. -/
theorem IsPart.isSpacing {source gap t : Text} {c : SyntaxTree} (h : c.IsPart source)
    (hkind : c.kind ≠ "string".toList) (hgap : IsSpacing gap)
    (hcomment : c.kind = "comment".toList → gap.head? = some '\n') (ht : IsSpacing t) :
    ∃ x, c.text? source = some x ∧ IsSpacing (x ++ gap ++ t) := by
  cases h with
  | literal h => exact absurd h hkind
  | @comment x h hx htext =>
    refine ⟨_, htext, ?_⟩
    obtain ⟨r, rfl⟩ := List.head?_eq_some_iff.1 (hcomment h)
    simpa using IsSpacing.comment hx (hgap.append ht)
  | @continuation x h hx htext =>
    refine ⟨_, htext, ?_⟩
    rw [List.append_assoc]
    rcases hx with rfl | rfl
    · exact .continuation (hgap.append ht)
    · exact .carriageReturn (hgap.append ht)

/-- **Parts one after the other are spelled as a row of literals**, with spacing in front of it if
they start with none. -/
theorem exists_row_of_parts {source : Text} {first last : SyntaxTree} {cs : List SyntaxTree}
    (hparts : ∀ c ∈ first :: cs, c.IsPart source)
    (hle : ∀ c ∈ first :: cs, c.start.byte ≤ c.stop.byte)
    (hgaps : (first :: cs).IsChain (IsFollowedBy source))
    (hlast : (first :: cs).getLast? = some last) (hkind : last.kind = "string".toList) :
    first.start.byte ≤ last.stop.byte ∧ ∃ lead xs row, IsSpacing lead ∧
      (first.kind = "string".toList → lead = []) ∧ IsLiteralRow xs row ∧
      ((first :: cs).filter (·.kind == "string".toList)).map (·.text? source) = xs.map some ∧
      first.start.Spells source last.stop (lead ++ row) := by
  induction cs generalizing first with
  | nil =>
    obtain rfl : first = last := by simpa using hlast
    have hpart := hparts first List.mem_cons_self
    cases hpart with
    | @literal x h hx htext =>
      refine ⟨hle first List.mem_cons_self, [], [x], x, .nil, fun _ => rfl, .single hx, ?_,
        text?_eq_some_iff.1 htext⟩
      simp [h, htext]
    | comment h | continuation h => exact absurd (h.symm.trans hkind) (by decide)
  | cons d cs ih =>
    obtain ⟨hfirst, hparts⟩ := List.forall_mem_cons.1 hparts
    obtain ⟨hlefirst, hle⟩ := List.forall_mem_cons.1 hle
    obtain ⟨⟨hbehind, gap, hgap, hspells, hcomment⟩, hgaps⟩ := List.isChain_cons_cons.1 hgaps
    obtain ⟨hledown, lead, xs, row, hlead, -, hrow, hxs, hrest⟩ :=
      ih hparts hle hgaps (by simpa using hlast)
    refine ⟨hlefirst.trans (hbehind.trans hledown), ?_⟩
    have htail := hspells.append hrest hbehind hledown
    by_cases hstring : first.kind = "string".toList
    · cases hfirst with
      | @literal x h hx htext =>
        refine ⟨[], x :: xs, x ++ (gap ++ lead) ++ row, .nil, fun _ => rfl,
          .cons hx (hgap.append hlead) hrow, ?_, ?_⟩
        · rw [List.filter_cons_of_pos (by simpa using h), List.map_cons, List.map_cons, hxs, htext]
        · have := (text?_eq_some_iff.1 htext).append htail hlefirst (hbehind.trans hledown)
          simpa using this
      | comment h | continuation h => exact absurd (h.symm.trans hstring) (by decide)
    · obtain ⟨x, htext, hspacing⟩ := hfirst.isSpacing hstring hgap hcomment hlead
      refine ⟨x ++ gap ++ lead, xs, row, hspacing, fun h => absurd h hstring, hrow, ?_, ?_⟩
      · rw [List.filter_cons_of_neg (by simpa using hstring), hxs]
      · have := (text?_eq_some_iff.1 htext).append htail hlefirst (hbehind.trans hledown)
        simpa using this

section Expression

variable {source : Text} {t : SyntaxTree} (ht : t.IsSound source) (h : t.SpellsLiterals source)
include ht h

/-- **An expression of string literals** is spelled as a row of its literals. -/
theorem exists_row {e : SyntaxTree} (he : e ∈ t.nodes) (hkind : e.kind ∈ stringKinds) :
    ∃ x xs row, e.literals.map (·.text? source) = (x :: xs).map some ∧
      IsLiteralRow (x :: xs) row ∧ e.text? source = some row := by
  by_cases hstring : e.kind = "string".toList
  · cases h.part e he (hstring ▸ List.mem_cons_self) with
    | @literal x _ hx htext =>
      exact ⟨x, [], x, by simp [literals, hstring, htext], .single hx, htext⟩
    | comment h | continuation h => exact absurd (h.symm.trans hstring) (by decide)
  have hconcatenated : e.kind = "concatenated_string".toList := by
    rw [stringKinds, List.mem_pair] at hkind
    exact hkind.resolve_left hstring
  obtain ⟨hparts, hfirst, hlast⟩ := h.concatenation e he hconcatenated
  have hcomposed := h.composed e he (hconcatenated ▸ List.mem_cons_self)
  have hchild : ∀ c ∈ e.children, c ∈ t.nodes := fun c hc => mem_nodes_child he hc
  cases hcs : e.children with
  | nil => simp [hcs] at hfirst
  | cons first cs =>
    obtain ⟨last, hget, hlast⟩ := Option.map_eq_some_iff.1 hlast
    have hstart : first.start = e.start := by simpa [hcs] using hcomposed.start
    have hstop : last.stop = e.stop := by simpa [hget] using hcomposed.stop
    rw [hcs] at hchild hparts hget
    obtain ⟨-, lead, xs, row, -, hlead, hrow, hxs, hspells⟩ := exists_row_of_parts
      (fun c hc => h.part c (hchild c hc) (hparts c hc)) (fun c hc => ht.le c (hchild c hc))
      (hcs ▸ hcomposed.gaps) hget hlast
    obtain rfl := hlead (by simpa [hcs] using hfirst)
    rw [hstart, hstop, List.nil_append] at hspells
    have hliterals : e.literals.map (·.text? source) = xs.map some := by
      rw [literals, if_neg hstring, hcs, hxs]
    cases hrow with
    | single hx => exact ⟨_, _, _, hliterals, .single hx, text?_eq_some_iff.2 hspells⟩
    | cons hx hgap hrow =>
      exact ⟨_, _, _, hliterals, .cons hx hgap hrow, text?_eq_some_iff.2 hspells⟩

/-- Behind the expression there may be a comma in a statement. -/
theorem exists_tail {s e : SyntaxTree} (hs : s ∈ t.nodes)
    (hkind : s.kind = "expression_statement".toList) (honly : s.namedChildren = [e])
    (he : e.kind ∈ stringKinds) {row : Text} (hrow : e.text? source = some row) :
    ∃ tail, s.text? source = some (row ++ tail) ∧
      (tail = [] ∨ ∃ gap, IsSpacing gap ∧ tail = gap ++ [',']) := by
  obtain ⟨hstart, hstop, hgaps⟩ :=
    h.composed s hs (hkind ▸ List.mem_cons_of_mem _ List.mem_cons_self)
  rw [text?_eq_some_iff] at hrow
  rcases h.statement s hs hkind e honly he with hcs | ⟨c, hc, hcs⟩
  · simp only [hcs, List.head?_cons, List.getLast?_singleton, Option.map_some,
      Option.some.injEq] at hstart hstop
    refine ⟨[], ?_, Or.inl rfl⟩
    rw [text?_eq_some_iff, ← hstart, ← hstop, List.append_nil]
    exact hrow
  · have hchild : ∀ n ∈ [e, c], n ∈ t.nodes := fun n hn => mem_nodes_child hs (hcs ▸ hn)
    simp only [hcs, List.head?_cons, List.getLast?_cons_cons, List.getLast?_singleton,
      Option.map_some, Option.some.injEq] at hstart hstop
    rw [hcs] at hgaps
    obtain ⟨hbehind, gap, hgap, hspells, -⟩ := (List.isChain_cons_cons.1 hgaps).1
    have hc' : c ∈ t.nodes := hchild c (by simp)
    have hcomma := text?_eq_some_iff.1 (h.comma c hc' hc)
    refine ⟨gap ++ [','], ?_, Or.inr ⟨gap, hgap, rfl⟩⟩
    rw [text?_eq_some_iff, ← hstart, ← hstop]
    exact hrow.append (hspells.append hcomma hbehind (ht.le c hc'))
      (ht.le e (hchild e (by simp))) (hbehind.trans (ht.le c hc'))

end Expression

end SyntaxTree

/-- The trees that a parser makes, if it finds no errors, have literals as the grammar of the
language has them. -/
def Parser.SpellsLiterals (parse : Parser) : Prop :=
  ∀ source root, parse source = .ok root → root.hasError = false → root.SpellsLiterals source

theorem Parser.spellsLiterals_ofTable {table : List (Text × SyntaxTree)}
    (h : ∀ entry ∈ table, entry.2.SpellsLiterals entry.1) : (ofTable table).SpellsLiterals :=
  fun _ _ hroot _ => forall_ofTable h hroot

end Marginalia
