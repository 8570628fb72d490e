import Marginalia.Text.Utf8

/-!
# Syntax trees

The tree that a parser makes of a source, as far as commentary is concerned: of each node its kind,
its place and what is below it. Which tree a source has is up to the parser. So whatever looks for
docstrings takes a `Parser`, and what is proved of it holds for all of them, or for those whose
trees are as parsers document them.
-/

namespace Marginalia

/-- A place in a source as a parser tells it. -/
structure Offset where
  /-- The number of bytes in front of it. -/
  byte : Nat
  /-- The number of line feeds in front of it. -/
  row : Nat
  deriving DecidableEq, Repr

/-- A node of a syntax tree, with everything below it. -/
structure SyntaxTree where
  /-- The rule of the grammar that the node stands for. -/
  kind : Text
  /-- Whether the grammar has a name for the node, as it has none for punctuation. -/
  isNamed : Bool
  /-- Whether the parser has supplied the node, for the source lacks it. -/
  isMissing : Bool
  /-- The part that the node plays in its parent, if the grammar tells. -/
  field : Option Text
  start : Offset
  stop : Offset
  children : List SyntaxTree
  deriving Repr

namespace SyntaxTree

/-- The kind of a node for what the grammar cannot read. -/
def errorKind : Text := "ERROR".toList

mutual

/-- Whether the source breaks the grammar somewhere in the node. -/
def hasError : SyntaxTree → Bool
  | ⟨kind, _, isMissing, _, _, _, children⟩ => kind == errorKind || isMissing || anyError children

/-- Whether the source breaks the grammar somewhere in the nodes. -/
def anyError : List SyntaxTree → Bool
  | [] => false
  | t :: ts => t.hasError || anyError ts

end

mutual

/-- The line on which the first node starts that breaks the grammar. -/
def firstErrorLine? : SyntaxTree → Option Nat
  | ⟨kind, _, isMissing, _, start, _, children⟩ =>
    if kind == errorKind || isMissing then some (start.row + 1) else firstErrorLineIn? children

/-- The same for the first of the nodes with such a line. -/
def firstErrorLineIn? : List SyntaxTree → Option Nat
  | [] => none
  | t :: ts =>
    if t.hasError then t.firstErrorLine?.or (firstErrorLineIn? ts) else firstErrorLineIn? ts

end

/-- The nodes directly below that the grammar has a name for. -/
def namedChildren (t : SyntaxTree) : List SyntaxTree :=
  t.children.filter (·.isNamed)

/-- The first node directly below that plays the part `name`. -/
def childOfField? (name : Text) (t : SyntaxTree) : Option SyntaxTree :=
  t.children.find? (·.field == some name)

/-- The part of the source that the node stands for; `none` if its bytes are those of no text. -/
def text? (source : Text) (t : SyntaxTree) : Option Text :=
  (Utf8.decode (((Utf8.encode source).take t.stop.byte).drop t.start.byte)).toOption

end SyntaxTree

/-- Why a source has no syntax tree to go by. -/
inductive SyntaxError
  /-- The parser cannot load its grammar. -/
  | noGrammar (reason : Text)
  /-- The parser has given up. -/
  | noTree
  /-- The source breaks the grammar. -/
  | invalid (line : Nat)
  deriving DecidableEq, Repr

/-- The error in words. -/
def SyntaxError.message : SyntaxError → Text
  | noGrammar reason => "failed to load Python grammar: ".toList ++ reason
  | noTree => "parser produced no syntax tree".toList
  | invalid line => "invalid syntax near line ".toList ++ Text.ofNat line

/-- A parser: it makes a tree of every source, also of one that breaks the grammar, unless it fails
altogether. -/
abbrev Parser := Text → Except SyntaxError SyntaxTree

end Marginalia
