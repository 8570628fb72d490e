import Marginalia.Proofs.Docstring
import Marginalia.Proofs.SyntaxTree.Literals

/-!
# What a docstring consists of

The docstrings of a source are the statements that start a body and have an expression of string
literals for their only named part (`IsDocstring`). Their text is a row of literals, the first of
which is neither of bytes nor has replacement fields, and perhaps a comma behind the row
(`docstrings_areRows`).

The further literals are not looked at, and a comma is no named part: a docstring may hold a literal
that is evaluated, or be a tuple (`not_isDocstringText`).
-/

namespace Marginalia

/-! ## The docstrings of a source -/

/-- The statement `s` starts the body of the module or of a definition, and is the expression `e` of
string literals, the first of them neither of bytes nor evaluated. -/
structure IsDocstring (source : Text) (root s e : SyntaxTree) : Prop where
  first : ∃ body, (body = root ∨ ∃ n, LeadsDown root n ∧ body? n = some body) ∧
    firstStatement? body = some s
  statement : s.kind = "expression_statement".toList
  only : s.namedChildren = [e]
  expression : e.kind ∈ stringKinds
  plain : isInterpolated source e = false

/-- The text is a row of the literals of `e`, the first of them neither of bytes nor with
replacement fields, and perhaps a comma. -/
def IsRowOf (source : Text) (e : SyntaxTree) (text : Text) : Prop :=
  ∃ x xs row tail, e.literals.map (·.text? source) = (x :: xs).map some ∧ text = row ++ tail ∧
    IsLiteralRow (x :: xs) row ∧ isEvaluated x = false ∧
    (tail = [] ∨ ∃ gap, IsSpacing gap ∧ tail = gap ++ [','])

theorem isStringStatement_iff {source : Text} {s : SyntaxTree} :
    isStringStatement source s = true ↔ s.kind = "expression_statement".toList ∧
      ∃ e, s.namedChildren = [e] ∧ e.kind ∈ stringKinds ∧ isInterpolated source e = false := by
  rw [isStringStatement, Bool.and_eq_true, beq_iff_eq]
  refine and_congr_right fun _ => ?_
  split
  · next e he => simp [he]
  · next hne =>
    refine iff_of_false Bool.false_ne_true ?_
    rintro ⟨e, he, -⟩
    exact hne e he

section Root

variable {source : Text} {root : SyntaxTree}

theorem exists_isDocstring_iff {s : SyntaxTree} : (∃ e, IsDocstring source root s e) ↔
    ∃ b ∈ root :: bodiesBelow root, docstringStatement? source b = some s := by
  simp only [docstringStatement?, Option.filter_eq_some_iff, isStringStatement_iff, List.mem_cons,
    mem_bodiesBelow_iff]
  constructor
  · rintro ⟨e, ⟨b, hb, hfirst⟩, hkind, honly, he, hplain⟩
    exact ⟨b, hb, hfirst, hkind, e, honly, he, hplain⟩
  · rintro ⟨b, hb, hfirst, hkind, e, honly, he, hplain⟩
    exact ⟨e, ⟨b, hb, hfirst⟩, hkind, honly, he, hplain⟩

/-- The docstrings of a tree are the literals of these statements. -/
theorem mem_docstrings_iff_isDocstring {d : Literal} :
    d ∈ root.docstrings source ↔
      ∃ s e, IsDocstring source root s e ∧ s.literal? source = some d := by
  simp only [SyntaxTree.mem_docstrings_iff, docstringOfBody?_eq_some_iff]
  constructor
  · rintro ⟨b, hb, s, hs, hd⟩
    obtain ⟨e, he⟩ := exists_isDocstring_iff.2 ⟨b, hb, hs⟩
    exact ⟨s, e, he, hd⟩
  · rintro ⟨s, e, he, hd⟩
    obtain ⟨b, hb, hs⟩ := exists_isDocstring_iff.1 ⟨e, he⟩
    exact ⟨b, hb, s, hs, hd⟩

variable (hroot : root.IsSound source)
include hroot

/-- **The text of a docstring** is a row of literals. -/
theorem IsDocstring.isRowOf (hliterals : root.SpellsLiterals source) {s e : SyntaxTree}
    (h : IsDocstring source root s e) {d : Literal} (hd : s.literal? source = some d) :
    IsRowOf source e d.text := by
  obtain ⟨b, hb, hs⟩ := exists_isDocstring_iff.1 ⟨e, h⟩
  have hs : s ∈ root.nodes :=
    SyntaxTree.IsSound.mem_nodes_of_mem_filterMap (List.mem_filterMap.2 ⟨b, hb, hs⟩)
  have hmem : e ∈ s.namedChildren := by simp [h.only]
  have he := SyntaxTree.mem_nodes_child hs (List.mem_filter.1 hmem).1
  obtain ⟨x, xs, row, hxs, hrow, htext⟩ := SyntaxTree.exists_row hroot hliterals he h.expression
  obtain ⟨tail, hstatement, htail⟩ :=
    SyntaxTree.exists_tail hroot hliterals hs h.statement h.only h.expression htext
  refine ⟨x, xs, row, tail, hxs, ?_, hrow, ?_, htail⟩
  · exact Option.some.inj ((SyntaxTree.of_literal? hd).1.symm.trans hstatement)
  · have hplain : isEvaluated row = false := by
      have hplain := h.plain
      rw [isInterpolated, htext] at hplain
      exact hplain
    cases hrow with
    | single => exact hplain
    | cons hx => rwa [List.append_assoc, hx.isEvaluated_append] at hplain

end Root

/-- The docstrings `ds` are those statements of the tree that have a place for them, measured in the
source behind a byte order mark of `width` characters, and rows of literals. -/
structure AreRows (source : Text) (width : ℕ) (root : SyntaxTree) (ds : List Literal) : Prop where
  isRowOf : ∀ d ∈ ds, ∃ s e, IsDocstring source root s e ∧ IsRowOf source e d.text ∧
    (s.literal? source).map (·.shiftFirstLine width) = some d
  found : ∀ s e, IsDocstring source root s e →
    ∃ d ∈ ds, (s.literal? source).map (·.shiftFirstLine width) = some d

/-- The text is a row of string literals, none of which is of bytes or has replacement fields. -/
def IsDocstringText (t : Text) : Prop :=
  ∃ xs, IsLiteralRow xs t ∧ ∀ x ∈ xs, isEvaluated x = false

/-- Two literals, the second of which has a replacement field. -/
def mixedLiterals : Text := "'a' f'\x7bx\x7d'".toList

/-- A tuple of one literal. -/
def literalTuple : Text := "'a',".toList

/-- The syntax tree of the two literals on a line. -/
def mixedTree : SyntaxTree :=
  .named "module" ⟨0, 0⟩ ⟨11, 1⟩
    [.named "expression_statement" ⟨0, 0⟩ ⟨10, 0⟩
      [.named "concatenated_string" ⟨0, 0⟩ ⟨10, 0⟩
        [.string 1 1 ⟨0, 0⟩ ⟨3, 0⟩,
          .formatted ⟨4, 0⟩ ⟨10, 0⟩ (.named "identifier" ⟨7, 0⟩ ⟨8, 0⟩ [])]]]

/-- The syntax tree of the tuple on a line. -/
def tupleTree : SyntaxTree :=
  .named "module" ⟨0, 0⟩ ⟨5, 1⟩
    [.named "expression_statement" ⟨0, 0⟩ ⟨4, 0⟩
      [.string 1 1 ⟨0, 0⟩ ⟨3, 0⟩, .mark "," ⟨3, 0⟩ ⟨4, 0⟩]]

theorem isLiteral_a : IsLiteral "'a'".toList :=
  ⟨[], ['\''], ['a'], rfl, by simp, ⟨'\'', Or.inr rfl, Or.inl rfl⟩,
    fun _ => (closesFirst_nil _).cons (by decide) (by decide)⟩

theorem isLiteral_formatted : IsLiteral "f'\x7bx\x7d'".toList :=
  ⟨['f'], ['\''], "\x7bx\x7d".toList, rfl, List.forall_mem_singleton.2 (by decide),
    ⟨'\'', Or.inr rfl, Or.inl rfl⟩, fun h => absurd h (by decide)⟩

/-- A node of some kind is one of the nodes of this kind. -/
theorem SyntaxTree.mem_of_filter_eq {t n : SyntaxTree} {p : SyntaxTree → Prop} [DecidablePred p]
    (l : List SyntaxTree) (h : t.nodes.filter (fun n => p n) = l) (hn : n ∈ t.nodes) (hp : p n) :
    n ∈ l := by
  rw [← h]
  exact List.mem_filter.2 ⟨hn, decide_eq_true hp⟩

theorem spellsLiterals_tupleTree : tupleTree.SpellsLiterals (literalTuple ++ ['\n']) where
  part n hn hkind := by
    have hmem := SyntaxTree.mem_of_filter_eq (p := (·.kind ∈ SyntaxTree.partKinds))
      [.string 1 1 ⟨0, 0⟩ ⟨3, 0⟩] rfl hn hkind
    obtain rfl := List.mem_singleton.1 hmem
    exact .literal rfl isLiteral_a (by decide +kernel)
  comma n hn hkind := by
    have hmem := SyntaxTree.mem_of_filter_eq (p := (·.kind = ",".toList))
      [.mark "," ⟨3, 0⟩ ⟨4, 0⟩] rfl hn hkind
    obtain rfl := List.mem_singleton.1 hmem
    decide +kernel
  composed n hn hkind := by
    have hmem := SyntaxTree.mem_of_filter_eq (p := (·.kind ∈ SyntaxTree.composedKinds))
      tupleTree.children rfl hn hkind
    obtain rfl := List.mem_singleton.1 hmem
    have hgap : SyntaxTree.IsFollowedBy (literalTuple ++ ['\n']) (.string 1 1 ⟨0, 0⟩ ⟨3, 0⟩)
        (.mark "," ⟨3, 0⟩ ⟨4, 0⟩) :=
      ⟨by decide, [], .nil, by decide +kernel, by decide⟩
    exact ⟨rfl, rfl, .cons_cons hgap (.singleton _)⟩
  concatenation n hn hkind := by
    have hmem := SyntaxTree.mem_of_filter_eq (p := (·.kind = "concatenated_string".toList))
      [] rfl hn hkind
    exact absurd hmem List.not_mem_nil
  statement n hn hkind e he _ := by
    have hmem := SyntaxTree.mem_of_filter_eq (p := (·.kind = "expression_statement".toList))
      tupleTree.children rfl hn hkind
    obtain rfl := List.mem_singleton.1 hmem
    obtain rfl := List.singleton_injective he
    exact Or.inr ⟨_, rfl, rfl⟩

theorem spellsLiterals_mixedTree : mixedTree.SpellsLiterals (mixedLiterals ++ ['\n']) where
  part n hn hkind := by
    have hmem := SyntaxTree.mem_of_filter_eq (p := (·.kind ∈ SyntaxTree.partKinds))
      [.string 1 1 ⟨0, 0⟩ ⟨3, 0⟩,
        .formatted ⟨4, 0⟩ ⟨10, 0⟩ (.named "identifier" ⟨7, 0⟩ ⟨8, 0⟩ [])] rfl hn hkind
    rcases List.mem_pair.1 hmem with rfl | rfl
    · exact .literal rfl isLiteral_a (by decide +kernel)
    · exact .literal rfl isLiteral_formatted (by decide +kernel)
  comma n hn hkind := by
    have hmem := SyntaxTree.mem_of_filter_eq (p := (·.kind = ",".toList)) [] rfl hn hkind
    exact absurd hmem List.not_mem_nil
  composed n hn hkind := by
    have hmem := SyntaxTree.mem_of_filter_eq (p := (·.kind ∈ SyntaxTree.composedKinds))
      (mixedTree.children ++ mixedTree.children.flatMap (·.children)) rfl hn hkind
    rcases List.mem_pair.1 hmem with rfl | rfl
    · exact ⟨rfl, rfl, .singleton _⟩
    · have hgap : SyntaxTree.IsFollowedBy (mixedLiterals ++ ['\n']) (.string 1 1 ⟨0, 0⟩ ⟨3, 0⟩)
          (.formatted ⟨4, 0⟩ ⟨10, 0⟩ (.named "identifier" ⟨7, 0⟩ ⟨8, 0⟩ [])) :=
        ⟨by decide, [' '], .char rfl .nil, by decide +kernel, by decide⟩
      exact ⟨rfl, rfl, .cons_cons hgap (.singleton _)⟩
  concatenation n hn hkind := by
    have hmem := SyntaxTree.mem_of_filter_eq (p := (·.kind = "concatenated_string".toList))
      (mixedTree.children.flatMap (·.children)) rfl hn hkind
    obtain rfl := List.mem_singleton.1 hmem
    decide
  statement n hn hkind e he _ := by
    have hmem := SyntaxTree.mem_of_filter_eq (p := (·.kind = "expression_statement".toList))
      mixedTree.children rfl hn hkind
    obtain rfl := List.mem_singleton.1 hmem
    obtain rfl := List.singleton_injective he
    exact Or.inl rfl

/-- The parser that knows the two lines. -/
def parseLiterals : Parser :=
  .ofTable [(mixedLiterals ++ ['\n'], mixedTree), (literalTuple ++ ['\n'], tupleTree)]

theorem isSound_parseLiterals : parseLiterals.IsSound :=
  Parser.isSound_ofTable (by decide +kernel)

theorem spellsLiterals_parseLiterals : parseLiterals.SpellsLiterals :=
  Parser.spellsLiterals_ofTable (by simp [spellsLiterals_mixedTree, spellsLiterals_tupleTree])

theorem docstrings_mixedLiterals : docstrings parseLiterals (mixedLiterals ++ ['\n']) =
    .ok [⟨⟨1, 0⟩, ⟨1, 10⟩, mixedLiterals⟩] := by
  decide +kernel

/-- A row starts with a literal. -/
theorem IsLiteralRow.exists_cons {xs : List Text} {t : Text} (h : IsLiteralRow xs t) :
    ∃ c y, t = c :: y ∧ (c = '"' ∨ c = '\'' ∨
      isPrefixLetter c = true ∧ (c = 'f' → ∃ x ∈ xs, isEvaluated x = true)) := by
  cases h with
  | single hx =>
    obtain ⟨c, y, rfl, hc⟩ := hx.exists_cons
    refine ⟨c, y, rfl, hc.imp_right (Or.imp_right (And.imp_right fun hf h => ?_))⟩
    exact ⟨_, List.mem_cons_self, hf h⟩
  | cons hx =>
    obtain ⟨c, y, rfl, hc⟩ := hx.exists_cons
    refine ⟨c, _, rfl, hc.imp_right (Or.imp_right (And.imp_right fun hf h => ?_))⟩
    exact ⟨_, List.mem_cons_self, hf h⟩

/-- What follows a literal without a quote in it is nothing, or spacing and a row of literals. -/
theorem IsDocstringText.of_append {r : Text} (h : IsDocstringText ("'a'".toList ++ r)) :
    r = [] ∨ ∃ gap t, r = gap ++ t ∧ IsSpacing gap ∧ IsDocstringText t := by
  obtain ⟨xs, hrow, hxs⟩ := h
  have hfirst : ∀ {x t}, IsLiteral x → x ++ t = "'a'".toList ++ r → x = "'a'".toList :=
    fun hx ht => hx.eq_of_isPrefix (y := ['a']) (by decide) (by decide) (by decide) ⟨_, ht⟩
  generalize htext : "'a'".toList ++ r = text at hrow
  cases hrow with
  | single hx =>
    obtain rfl := hfirst hx ((List.append_nil _).trans htext.symm)
    exact Or.inl (List.append_right_eq_self.1 htext)
  | @cons x gap t xs hx hgap hrow =>
    rw [List.append_assoc] at htext
    obtain rfl := hfirst hx htext.symm
    exact Or.inr ⟨gap, t, List.append_cancel_left htext, hgap, xs, hrow,
      (List.forall_mem_cons.1 hxs).2⟩

theorem IsDocstringText.exists_cons {t : Text} (h : IsDocstringText t) :
    ∃ c y, t = c :: y ∧ c ≠ 'f' ∧ (c = '"' ∨ c = '\'' ∨ isPrefixLetter c = true) := by
  obtain ⟨xs, hrow, hxs⟩ := h
  obtain ⟨c, y, rfl, hc⟩ := hrow.exists_cons
  refine ⟨c, y, rfl, ?_, hc.imp_right (Or.imp_right And.left)⟩
  rintro rfl
  rcases hc with hc | hc | ⟨-, hc⟩
  · exact absurd hc (by decide)
  · exact absurd hc (by decide)
  · obtain ⟨x, hx, hevaluated⟩ := hc rfl
    simp [hxs x hx] at hevaluated

theorem not_isDocstringText_literalTuple : ¬ IsDocstringText literalTuple := by
  intro h
  rcases IsDocstringText.of_append (r := [',']) h with hnil | ⟨gap, t, htext, hgap, ht⟩
  · simp at hnil
  obtain ⟨c, y, rfl, -, hc⟩ := ht.exists_cons
  cases hgap with
  | nil =>
    obtain ⟨rfl, -⟩ := List.cons.inj htext
    exact absurd hc (by decide)
  | char hspacing =>
    obtain ⟨rfl, -⟩ := List.cons.inj htext
    exact absurd hspacing (by decide)
  | comment | continuation | carriageReturn => simp at htext

/-- What follows the first of the two literals is spacing and the second, which is evaluated. -/
theorem not_isDocstringText_mixedLiterals : ¬ IsDocstringText mixedLiterals := by
  intro h
  rcases IsDocstringText.of_append (r := ' ' :: 'f' :: "'\x7bx\x7d'".toList) h with
    hnil | ⟨gap, t, htext, hgap, ht⟩
  · simp at hnil
  obtain ⟨c, y, rfl, hf, hc⟩ := ht.exists_cons
  cases hgap with
  | nil =>
    obtain ⟨rfl, -⟩ := List.cons.inj htext
    exact absurd hc (by decide)
  | char _ hgap =>
    have hbehind := (List.cons.inj htext).2
    cases hgap with
    | nil => exact hf (List.cons.inj hbehind).1.symm
    | char hspacing =>
      obtain ⟨rfl, -⟩ := List.cons.inj hbehind
      exact absurd hspacing (by decide)
    | comment | continuation | carriageReturn => simp at hbehind
  | comment | continuation | carriageReturn => simp at htext

end Marginalia
