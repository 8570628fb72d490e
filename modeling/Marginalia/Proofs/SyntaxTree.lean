import Mathlib.Data.List.Pairwise
import Mathlib.Data.Nat.Basic
import Mathlib.Logic.Relation
import Mathlib.Order.Basic
import Mathlib.Tactic.SplitIfs
import Marginalia.Docstring

/-!
# Syntax trees of a source

What parsers document of their trees (`SyntaxTree.IsSound`): a node stands between two places of the
source, with its children in it, one after the other; and in the grammar of the language no
definition is part of an expression. A parser is sound when the trees without errors are, that it
makes of a source (`Parser.IsSound`).

The search for docstrings goes from named node to named node, and comes to the bodies of all
definitions that they lead to (`mem_bodiesBelow_iff`). In a sound tree the statements that it picks
out do not overlap (`SyntaxTree.IsSound.pairwise_apart`): the statement at the front of a body ends
before all definitions within the body, for these are in the statements behind it.
-/

namespace Marginalia

namespace SyntaxTree

/-- What holds of a node if it holds of those directly below it, holds of every node. -/
theorem induction {motive : SyntaxTree → Prop}
    (node : ∀ t : SyntaxTree, (∀ c ∈ t.children, motive c) → motive t) (t : SyntaxTree) :
    motive t :=
  SyntaxTree.rec (motive_1 := motive) (motive_2 := fun cs => ∀ c ∈ cs, motive c)
    (fun _ _ _ _ _ _ _ ih => node _ ih) (by simp)
    (fun _ _ hc hcs => List.forall_mem_cons.2 ⟨hc, hcs⟩) t

/-! ## Nodes -/

mutual

/-- The node and all that are below it. -/
def nodes : SyntaxTree → List SyntaxTree
  | ⟨kind, isNamed, isMissing, field, start, stop, children⟩ =>
    ⟨kind, isNamed, isMissing, field, start, stop, children⟩ :: nodesIn children

/-- The nodes and all that are below them. -/
def nodesIn : List SyntaxTree → List SyntaxTree
  | [] => []
  | t :: ts => t.nodes ++ nodesIn ts

end

theorem nodesIn_eq (ts : List SyntaxTree) : nodesIn ts = ts.flatMap nodes := by
  induction ts with
  | nil => rfl
  | cons t ts ih => rw [nodesIn, ih, List.flatMap_cons]

theorem nodes_eq (t : SyntaxTree) : t.nodes = t :: t.children.flatMap nodes := by
  cases t
  rw [nodes, nodesIn_eq]

theorem mem_nodes_self (t : SyntaxTree) : t ∈ t.nodes := by
  rw [nodes_eq]
  exact List.mem_cons_self

theorem mem_nodes_of_mem_children {t c n : SyntaxTree} (hc : c ∈ t.children) (hn : n ∈ c.nodes) :
    n ∈ t.nodes := by
  rw [nodes_eq]
  exact List.mem_cons_of_mem _ (List.mem_flatMap.2 ⟨c, hc, hn⟩)

theorem mem_nodes_trans {t m n : SyntaxTree} (hm : m ∈ t.nodes) (hn : n ∈ m.nodes) :
    n ∈ t.nodes := by
  induction t using induction with
  | node t ih =>
    rw [nodes_eq] at hm
    rcases List.mem_cons.1 hm with rfl | hm
    · exact hn
    · obtain ⟨c, hc, hm⟩ := List.mem_flatMap.1 hm
      exact mem_nodes_of_mem_children hc (ih c hc hm)

theorem mem_nodes_child {t n c : SyntaxTree} (hn : n ∈ t.nodes) (hc : c ∈ n.children) :
    c ∈ t.nodes :=
  mem_nodes_trans hn (mem_nodes_of_mem_children hc c.mem_nodes_self)

theorem mem_children_of_childOfField? {t b : SyntaxTree} {name : Text}
    (h : t.childOfField? name = some b) : b ∈ t.children :=
  List.mem_of_find?_eq_some h

end SyntaxTree

open SyntaxTree

/-! ## The bodies of definitions -/

/-- The body of a definition. -/
def body? (t : SyntaxTree) : Option SyntaxTree :=
  if definitionKinds.contains t.kind then t.childOfField? "body".toList else none

theorem body?_eq_some_iff {t b : SyntaxTree} :
    body? t = some b ↔ t.kind ∈ definitionKinds ∧ t.childOfField? "body".toList = some b := by
  rw [body?]
  split_ifs with h
  · simp [List.contains_iff_mem.1 h]
  · simp [mt List.contains_iff_mem.2 h]

/-- The bodies of the definitions at a node or below, if it has a name. -/
def bodiesAt (t : SyntaxTree) : List SyntaxTree :=
  if t.isNamed then (body? t).toList ++ bodiesBelow t else []

theorem bodiesIn_eq (ts : List SyntaxTree) : bodiesIn ts = ts.flatMap bodiesAt := by
  induction ts with
  | nil => rfl
  | cons t ts ih =>
    rw [bodiesIn, ih, List.flatMap_cons]
    rfl

theorem bodiesBelow_eq (t : SyntaxTree) : bodiesBelow t = t.children.flatMap bodiesAt := by
  cases t
  rw [bodiesBelow, bodiesIn_eq]

/-- Named nodes lead down from the first node to the second. -/
abbrev LeadsDown : SyntaxTree → SyntaxTree → Prop :=
  Relation.TransGen fun t c => c ∈ t.namedChildren

theorem mem_nodes_of_leadsDown {t n : SyntaxTree} (h : LeadsDown t n) : n ∈ t.nodes := by
  induction h with
  | single hc => exact mem_nodes_child t.mem_nodes_self (List.mem_filter.1 hc).1
  | tail _ hc ih => exact mem_nodes_child ih (List.mem_filter.1 hc).1

/-- **The search comes to every definition** that named nodes lead to. -/
theorem mem_bodiesBelow_iff {t b : SyntaxTree} :
    b ∈ bodiesBelow t ↔ ∃ n, LeadsDown t n ∧ body? n = some b := by
  induction t using SyntaxTree.induction with
  | node t ih =>
    rw [bodiesBelow_eq, List.mem_flatMap]
    constructor
    · rintro ⟨c, hc, hb⟩
      rw [bodiesAt] at hb
      split_ifs at hb with hnamed
      · have hc' : c ∈ t.namedChildren := List.mem_filter.2 ⟨hc, hnamed⟩
        rcases List.mem_append.1 hb with hb | hb
        · exact ⟨c, .single hc', Option.mem_toList.1 hb⟩
        · obtain ⟨n, hdown, hn⟩ := (ih c hc).1 hb
          exact ⟨n, .head hc' hdown, hn⟩
      · exact absurd hb List.not_mem_nil
    · rintro ⟨n, hdown, hn⟩
      obtain ⟨c, hc', hdown⟩ := Relation.TransGen.head'_iff.1 hdown
      obtain ⟨hc, hnamed⟩ := List.mem_filter.1 hc'
      refine ⟨c, hc, ?_⟩
      rw [bodiesAt, if_pos hnamed, List.mem_append]
      rcases Relation.reflTransGen_iff_eq_or_transGen.1 hdown with rfl | hdown
      · exact Or.inl (Option.mem_toList.2 hn)
      · exact Or.inr ((ih c hc).2 ⟨n, hdown, hn⟩)

/-- A docstring is a statement of the body, and an expression. -/
theorem of_docstringStatement? {source : Text} {body s : SyntaxTree}
    (h : docstringStatement? source body = some s) :
    s ∈ body.children ∧ s.kind = "expression_statement".toList := by
  obtain ⟨hfirst, hstatement⟩ := Option.filter_eq_some_iff.1 h
  have hmem := List.mem_of_find?_eq_some hfirst
  rw [isStringStatement, Bool.and_eq_true, beq_iff_eq] at hstatement
  exact ⟨(List.mem_filter.1 hmem).1, hstatement.1⟩

/-! ## Sound trees -/

/-- The place is one between characters of the source, with the line feeds in front of it counted.
-/
def Offset.IsIn (source : Text) (x : Offset) : Prop :=
  (Utf8.takeBytes? x.byte source).map (List.count '\n') = some x.row

instance (source : Text) (x : Offset) : Decidable (x.IsIn source) :=
  inferInstanceAs (Decidable (_ = _))

namespace SyntaxTree

/-- What parsers document of the trees that they make. -/
structure IsSound (source : Text) (t : SyntaxTree) : Prop where
  /-- A node begins and ends at places of the source. -/
  isIn : ∀ n ∈ t.nodes, n.start.IsIn source ∧ n.stop.IsIn source
  le : ∀ n ∈ t.nodes, n.start.byte ≤ n.stop.byte
  /-- The children of a node stand in it. -/
  within : ∀ n ∈ t.nodes, ∀ c ∈ n.children,
    n.start.byte ≤ c.start.byte ∧ c.stop.byte ≤ n.stop.byte
  /-- They stand one after the other. -/
  inOrder : ∀ n ∈ t.nodes, n.children.Pairwise (·.stop.byte ≤ ·.start.byte)
  /-- No definition is part of an expression. -/
  expression : ∀ n ∈ t.nodes, n.kind = "expression_statement".toList →
    ∀ m ∈ n.nodes, m.kind ∉ definitionKinds
  /-- The body of a definition is a block, and no definition itself. -/
  body : ∀ n ∈ t.nodes, ∀ b ∈ body? n, b.kind = "block".toList

instance (source : Text) (t : SyntaxTree) : Decidable (t.IsSound source) :=
  decidable_of_iff
    ((∀ n ∈ t.nodes, n.start.IsIn source ∧ n.stop.IsIn source) ∧
      (∀ n ∈ t.nodes, n.start.byte ≤ n.stop.byte) ∧
      (∀ n ∈ t.nodes, ∀ c ∈ n.children, n.start.byte ≤ c.start.byte ∧ c.stop.byte ≤ n.stop.byte) ∧
      (∀ n ∈ t.nodes, n.children.Pairwise (·.stop.byte ≤ ·.start.byte)) ∧
      (∀ n ∈ t.nodes, n.kind = "expression_statement".toList →
        ∀ m ∈ n.nodes, m.kind ∉ definitionKinds) ∧
      ∀ n ∈ t.nodes, ∀ b ∈ body? n, b.kind = "block".toList)
    ⟨fun ⟨h₁, h₂, h₃, h₄, h₅, h₆⟩ => ⟨h₁, h₂, h₃, h₄, h₅, h₆⟩,
      fun ⟨h₁, h₂, h₃, h₄, h₅, h₆⟩ => ⟨h₁, h₂, h₃, h₄, h₅, h₆⟩⟩

/-- The nodes do not overlap. -/
def Apart (m n : SyntaxTree) : Prop := m.stop.byte ≤ n.start.byte ∨ n.stop.byte ≤ m.start.byte

instance : Std.Symm Apart := ⟨fun _ _ h => h.symm⟩

namespace IsSound

variable {source : Text} {t : SyntaxTree} (h : t.IsSound source)
include h

theorem of_mem {n : SyntaxTree} (hn : n ∈ t.nodes) : n.IsSound source where
  isIn m hm := h.isIn m (mem_nodes_trans hn hm)
  le m hm := h.le m (mem_nodes_trans hn hm)
  within m hm := h.within m (mem_nodes_trans hn hm)
  inOrder m hm := h.inOrder m (mem_nodes_trans hn hm)
  expression m hm := h.expression m (mem_nodes_trans hn hm)
  body m hm := h.body m (mem_nodes_trans hn hm)

theorem of_mem_children {c : SyntaxTree} (hc : c ∈ t.children) : c.IsSound source :=
  h.of_mem (mem_nodes_child t.mem_nodes_self hc)

/-- What is below a node stands in it. -/
theorem within_of_mem {n : SyntaxTree} (hn : n ∈ t.nodes) :
    t.start.byte ≤ n.start.byte ∧ n.stop.byte ≤ t.stop.byte := by
  induction t using SyntaxTree.induction with
  | node t ih =>
    rw [nodes_eq] at hn
    rcases List.mem_cons.1 hn with rfl | hn
    · exact ⟨le_rfl, le_rfl⟩
    · obtain ⟨c, hc, hn⟩ := List.mem_flatMap.1 hn
      obtain ⟨hstart, hstop⟩ := h.within t t.mem_nodes_self c hc
      obtain ⟨hstart', hstop'⟩ := ih c hc (h.of_mem_children hc) hn
      exact ⟨hstart.trans hstart', hstop'.trans hstop⟩

/-- What is at or below one child does not overlap with what is at or below another. -/
theorem apart_of_ne {c d m n : SyntaxTree} (hc : c ∈ t.children) (hd : d ∈ t.children)
    (hne : c ≠ d) (hm : m ∈ c.nodes) (hn : n ∈ d.nodes) : Apart m n := by
  have hordered : t.children.Pairwise Apart := (h.inOrder t t.mem_nodes_self).imp Or.inl
  have hchildren : Apart c d := hordered.forall hc hd hne
  obtain ⟨hm₁, hm₂⟩ := (h.of_mem_children hc).within_of_mem hm
  obtain ⟨hn₁, hn₂⟩ := (h.of_mem_children hd).within_of_mem hn
  rcases hchildren with hle | hle
  · exact Or.inl (hm₂.trans (hle.trans hn₁))
  · exact Or.inr (hn₂.trans (hle.trans hm₁))

omit h in
/-- The statements of docstrings below a node are picked out through its children. -/
theorem filterMap_bodiesBelow (t : SyntaxTree) :
    (bodiesBelow t).filterMap (docstringStatement? source) =
      t.children.flatMap fun c => (bodiesAt c).filterMap (docstringStatement? source) := by
  rw [bodiesBelow_eq, List.filterMap_flatMap]

omit h in
theorem mem_nodes_of_mem_bodiesBelow {b s : SyntaxTree} (hb : b ∈ bodiesBelow t)
    (hs : docstringStatement? source b = some s) : s ∈ t.nodes := by
  obtain ⟨n, hdown, hn⟩ := mem_bodiesBelow_iff.1 hb
  have hbody := mem_children_of_childOfField? (body?_eq_some_iff.1 hn).2
  exact mem_nodes_child (mem_nodes_child (mem_nodes_of_leadsDown hdown) hbody)
    (of_docstringStatement? hs).1

omit h in
theorem mem_nodes_of_mem_bodiesAt {b s : SyntaxTree} (hb : b ∈ bodiesAt t)
    (hs : docstringStatement? source b = some s) : s ∈ t.nodes := by
  rw [bodiesAt] at hb
  split_ifs at hb
  · rcases List.mem_append.1 hb with hb | hb
    · have hbody := mem_children_of_childOfField?
        (body?_eq_some_iff.1 (Option.mem_toList.1 hb)).2
      exact mem_nodes_child (mem_nodes_child t.mem_nodes_self hbody) (of_docstringStatement? hs).1
    · exact mem_nodes_of_mem_bodiesBelow hb hs
  · exact absurd hb List.not_mem_nil

/-- An expression has no definitions in it. -/
theorem bodiesAt_eq_nil (ht : t.kind = "expression_statement".toList) : bodiesAt t = [] := by
  have hnone := h.expression t t.mem_nodes_self ht
  refine List.eq_nil_iff_forall_not_mem.2 fun b hb => ?_
  rw [bodiesAt] at hb
  split_ifs at hb
  · rcases List.mem_append.1 hb with hb | hb
    · exact hnone t t.mem_nodes_self (body?_eq_some_iff.1 (Option.mem_toList.1 hb)).1
    · obtain ⟨n, hdown, hn⟩ := mem_bodiesBelow_iff.1 hb
      exact hnone n (mem_nodes_of_leadsDown hdown) (body?_eq_some_iff.1 hn).1
  · exact absurd hb List.not_mem_nil

/-- **The docstring of a body ends before the definitions in the body begin.** -/
theorem apart_of_mem_bodiesBelow {b s s' : SyntaxTree} (hs : docstringStatement? source t = some s)
    (hb : b ∈ bodiesBelow t) (hs' : docstringStatement? source b = some s') : Apart s s' := by
  obtain ⟨hmem, hkind⟩ := of_docstringStatement? hs
  rw [bodiesBelow_eq] at hb
  obtain ⟨c, hc, hb⟩ := List.mem_flatMap.1 hb
  have hne : s ≠ c := by
    rintro rfl
    rw [(h.of_mem_children hc).bodiesAt_eq_nil hkind] at hb
    exact absurd hb List.not_mem_nil
  exact h.apart_of_ne hmem hc hne s.mem_nodes_self (mem_nodes_of_mem_bodiesAt hb hs')

/-- So does that of the body of the node itself. -/
theorem apart_of_body? {b b' s s' : SyntaxTree} (hb : body? t = some b)
    (hs : docstringStatement? source b = some s) (hb' : b' ∈ bodiesBelow t)
    (hs' : docstringStatement? source b' = some s') : Apart s s' := by
  have hchild := mem_children_of_childOfField? (body?_eq_some_iff.1 hb).2
  have hkind := h.body t t.mem_nodes_self b hb
  rw [bodiesBelow_eq] at hb'
  obtain ⟨c, hc, hb'⟩ := List.mem_flatMap.1 hb'
  by_cases heq : b = c
  · subst heq
    refine (h.of_mem_children hc).apart_of_mem_bodiesBelow hs ?_ hs'
    have hnot : body? b = none := by
      rw [body?, hkind, if_neg (by decide)]
    rw [bodiesAt, hnot] at hb'
    split_ifs at hb'
    · simpa using hb'
    · exact absurd hb' List.not_mem_nil
  · have hmem := mem_nodes_child b.mem_nodes_self (of_docstringStatement? hs).1
    exact h.apart_of_ne hchild hc heq hmem (mem_nodes_of_mem_bodiesAt hb' hs')

theorem pairwise_apart_bodiesBelow :
    ((bodiesBelow t).filterMap (docstringStatement? source)).Pairwise Apart := by
  induction t using SyntaxTree.induction with
  | node t ih =>
    rw [filterMap_bodiesBelow]
    refine List.pairwise_flatMap.2 ⟨fun c hc => ?_, ?_⟩
    · have hsound := h.of_mem_children hc
      rw [bodiesAt]
      split_ifs
      · rw [List.filterMap_append]
        refine List.pairwise_append.2 ⟨?_, ih c hc hsound, ?_⟩
        · cases body? c with
          | none => exact List.Pairwise.nil
          | some b =>
            rw [Option.toList_some, List.filterMap_cons]
            cases docstringStatement? source b <;> simp
        · rintro s hs s' hs'
          obtain ⟨b, hb, hs⟩ := List.mem_filterMap.1 hs
          obtain ⟨b', hb', hs'⟩ := List.mem_filterMap.1 hs'
          exact hsound.apart_of_body? (Option.mem_toList.1 hb) hs hb' hs'
      · exact List.Pairwise.nil
    · refine (h.inOrder t t.mem_nodes_self).imp_of_mem fun {c d} hc hd hle s hs s' hs' => ?_
      obtain ⟨b, hb, hs⟩ := List.mem_filterMap.1 hs
      obtain ⟨b', hb', hs'⟩ := List.mem_filterMap.1 hs'
      have hstop := ((h.of_mem_children hc).within_of_mem (mem_nodes_of_mem_bodiesAt hb hs)).2
      have hstart := ((h.of_mem_children hd).within_of_mem (mem_nodes_of_mem_bodiesAt hb' hs')).1
      exact Or.inl (hstop.trans (hle.trans hstart))

/-- **The statements that are docstrings do not overlap.** -/
theorem pairwise_apart :
    ((t :: bodiesBelow t).filterMap (docstringStatement? source)).Pairwise Apart := by
  rw [List.filterMap_cons]
  cases hs : docstringStatement? source t with
  | none => exact h.pairwise_apart_bodiesBelow
  | some s =>
    refine List.pairwise_cons.2 ⟨fun s' hs' => ?_, h.pairwise_apart_bodiesBelow⟩
    obtain ⟨b, hb, hs'⟩ := List.mem_filterMap.1 hs'
    exact h.apart_of_mem_bodiesBelow hs hb hs'

omit h in
theorem mem_nodes_of_mem_filterMap {s : SyntaxTree}
    (hs : s ∈ (t :: bodiesBelow t).filterMap (docstringStatement? source)) : s ∈ t.nodes := by
  obtain ⟨b, hb, hb'⟩ := List.mem_filterMap.1 hs
  rcases List.mem_cons.1 hb with rfl | hb
  · exact mem_nodes_child b.mem_nodes_self (of_docstringStatement? hb').1
  · exact mem_nodes_of_mem_bodiesBelow hb hb'

end IsSound

end SyntaxTree

/-- The trees that a parser makes, if it finds no errors, are as parsers document them. -/
def Parser.IsSound (parse : Parser) : Prop :=
  ∀ source root, parse source = .ok root → root.hasError = false → root.IsSound source

/-! ## Particular trees -/

namespace SyntaxTree

/-- A node that the grammar has a name for. -/
def named (kind : String) (start stop : Offset) (children : List SyntaxTree) : SyntaxTree where
  kind := kind.toList
  isNamed := true
  isMissing := false
  field := none
  start
  stop
  children

/-- A node for a word or a mark of the grammar itself. -/
def mark (text : String) (start stop : Offset) : SyntaxTree :=
  { named text start stop [] with isNamed := false }

/-- The node as a part of its parent. -/
def as (name : String) (t : SyntaxTree) : SyntaxTree :=
  { t with field := some name.toList }

/-- A string literal with `front` bytes up to its opening quotes and these, and `quotes` bytes of
closing ones. -/
def string (front quotes : ℕ) (start stop : Offset) : SyntaxTree :=
  named "string" start stop
    [named "string_start" start ⟨start.byte + front, start.row⟩ [],
      named "string_content" ⟨start.byte + front, start.row⟩ ⟨stop.byte - quotes, stop.row⟩ [],
      named "string_end" ⟨stop.byte - quotes, stop.row⟩ stop []]

/-- A string literal between single quotes that has a replacement field and nothing else. -/
def formatted (start stop : Offset) (expression : SyntaxTree) : SyntaxTree :=
  named "string" start stop
    [named "string_start" start ⟨start.byte + 2, start.row⟩ [],
      named "interpolation" ⟨start.byte + 2, start.row⟩ ⟨stop.byte - 1, stop.row⟩
        [mark "\x7b" ⟨start.byte + 2, start.row⟩ ⟨start.byte + 3, start.row⟩,
          as "expression" expression,
          mark "\x7d" ⟨stop.byte - 2, stop.row⟩ ⟨stop.byte - 1, stop.row⟩],
      named "string_end" ⟨stop.byte - 1, stop.row⟩ stop []]

/-- A statement that is a string literal without prefix. -/
def stringStatement (quotes : ℕ) (start stop : Offset) : SyntaxTree :=
  named "expression_statement" start stop [string quotes quotes start stop]

/-- A function with a name of one letter and no parameters, whose header starts at `byte`; its body
stands from `start` up to `stop`. -/
def function (byte row : ℕ) (start stop : Offset) (statements : List SyntaxTree) : SyntaxTree :=
  named "function_definition" ⟨byte, row⟩ stop
    [mark "def" ⟨byte, row⟩ ⟨byte + 3, row⟩,
      as "name" (named "identifier" ⟨byte + 4, row⟩ ⟨byte + 5, row⟩ []),
      as "parameters" (named "parameters" ⟨byte + 5, row⟩ ⟨byte + 7, row⟩
        [mark "(" ⟨byte + 5, row⟩ ⟨byte + 6, row⟩, mark ")" ⟨byte + 6, row⟩ ⟨byte + 7, row⟩]),
      mark ":" ⟨byte + 7, row⟩ ⟨byte + 8, row⟩, as "body" (named "block" start stop statements)]

end SyntaxTree

/-- The parser that makes trees of some sources only. -/
def Parser.ofTable (table : List (Text × SyntaxTree)) : Parser := fun source =>
  match table.find? (·.1 == source) with
  | some entry => .ok entry.2
  | none => .error .noTree

/-- What holds of the trees in a table holds of those that the parser makes. -/
theorem Parser.forall_ofTable {table : List (Text × SyntaxTree)} {P : Text → SyntaxTree → Prop}
    (h : ∀ entry ∈ table, P entry.1 entry.2) {source : Text} {root : SyntaxTree}
    (hroot : ofTable table source = .ok root) : P source root := by
  rw [ofTable] at hroot
  split at hroot
  · next entry hentry =>
    obtain rfl := Except.ok.inj hroot
    have hsource : entry.1 = source := by simpa using List.find?_some hentry
    exact hsource ▸ h entry (List.mem_of_find?_eq_some hentry)
  · simp at hroot

theorem Parser.isSound_ofTable {table : List (Text × SyntaxTree)}
    (h : ∀ entry ∈ table, entry.2.IsSound entry.1) : (ofTable table).IsSound :=
  fun _ _ hroot _ => forall_ofTable (P := fun source t => t.IsSound source) h hroot

end Marginalia
