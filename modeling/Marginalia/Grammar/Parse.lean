import Marginalia.Grammar.Block
import Marginalia.SyntaxTree

/-!
# A parser

`parse` reads a source by the grammar and makes as much of its syntax tree as the search for
docstrings looks at: the statement at the front of the source, and of each definition the one at the
front of its body, all of them directly below the root. The program uses it where no other parser is
given. What is proved of docstrings does not rest on it, but holds of any parser whose trees are as
they should be.
-/

namespace Marginalia.Grammar

/-- The place of the character of index `n`. -/
def offsetAt (source : Text) (n : Nat) : Offset :=
  ⟨Utf8.size (source.take n), (source.take n).countP (· == '\n')⟩

/-- A node for the characters from index `start` up to index `stop`. -/
def nodeAt (source : Text) (kind : String) (start stop : Nat) (children : List SyntaxTree) :
    SyntaxTree where
  kind := kind.toList
  isNamed := true
  isMissing := false
  field := none
  start := offsetAt source start
  stop := offsetAt source stop
  children

/-- Whether a string literal starts here. -/
def Lexeme.startsLiteral (x : Lexeme) : Bool :=
  x.kind == .string || x.kind == .literalStart

/-- A statement of string literals only, and perhaps a comma. -/
def stringStatementRule : Rule Category :=
  .all [.phrase .strings, .optional (.op ","), statementEnd]

/-- The lexemes in front of what is left of them. -/
def takenFrom (xs rest : List Lexeme) : List Lexeme :=
  xs.take (xs.length - rest.length)

/-- The node of the first statement of a body. -/
def statementNode? (source : Text) (body : List Lexeme) : Option SyntaxTree := do
  let first ← body.head?
  match stringStatementRule.take? body with
  | none => return nodeAt source "statement" first.start first.stop []
  | some rest =>
    let strings := takenFrom body (← (Rule.phrase .strings).take? body)
    let kind := if strings.countP (·.startsLiteral) = 1 then "string" else "concatenated_string"
    let expr := nodeAt source kind first.start (← strings.getLast?).stop []
    let last ← (takenFrom body rest).getLast?
    return nodeAt source "expression_statement" first.start last.stop [expr]

/-- The node of a body: its first statement, within a definition if it is not that of the whole
source. -/
def bodyNode? (source : Text) (body : Body) : Option SyntaxTree := do
  let statement ← statementNode? source body.lexemes
  if body.isSource then return statement
  else
    let block : SyntaxTree :=
      { statement with kind := "block".toList, field := "body".toList, children := [statement] }
    return { block with kind := "function_definition".toList, field := none, children := [block] }

/-- The syntax tree of a source that is in the language. -/
def parse : Parser := fun source =>
  match (logicalLines source).bind bodies? with
  | none => .error .noTree
  | some bodies =>
    .ok (nodeAt source "module" 0 source.length (bodies.filterMap (bodyNode? source)))

end Marginalia.Grammar
