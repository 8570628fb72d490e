import Marginalia.Literal
import Marginalia.SyntaxTree
import Marginalia.Token.Scan

/-!
# Docstrings

The literals that document a module, a class or a function: the first statement of its body, when
that is an expression of string literals only. A literal with replacement fields or of bytes is no
docstring; only the first of several is looked at.

`docstrings` goes through the syntax tree that a parser makes of a source, and measures what it
finds in the source, because the tree counts bytes and rows.
-/

namespace Marginalia

/-- The nodes that have a body with a place for a docstring. -/
def definitionKinds : List Text := ["function_definition".toList, "class_definition".toList]

/-- The nodes for expressions of string literals only. -/
def stringKinds : List Text := ["string".toList, "concatenated_string".toList]

/-- Whether the letters in front of the first literal make it an expression to be evaluated, or
bytes. -/
def isInterpolated (source : Text) (t : SyntaxTree) : Bool :=
  (((t.text? source).getD []).takeWhile Char.isAlpha).any fun c =>
    c.toLower == 'f' || c.toLower == 'b'

/-- The column of the byte at offset `x`, counted in characters from the last line feed. -/
def columnAt (source : Text) (x : Nat) : Nat :=
  (Literal.lastLine ((Utf8.takeBytes? x source).getD [])).length

/-- The statement at the front of a body. -/
def firstStatement? (body : SyntaxTree) : Option SyntaxTree :=
  body.namedChildren.find? (·.kind != "comment".toList)

/-- Whether a statement is an expression of string literals only, the first of them plain text. -/
def isStringStatement (source : Text) (t : SyntaxTree) : Bool :=
  t.kind == "expression_statement".toList &&
    match t.namedChildren with
    | [expr] => stringKinds.contains expr.kind && !isInterpolated source expr
    | _ => false

/-- The literal that a node stands for, with its place in the source. -/
def SyntaxTree.literal? (source : Text) (t : SyntaxTree) : Option Literal :=
  (t.text? source).map
    (Literal.ofText ⟨t.start.row + 1, columnAt source t.start.byte⟩ (t.stop.row + 1))

/-- The statement at the front of a body, if it is an expression of string literals only. -/
def docstringStatement? (source : Text) (body : SyntaxTree) : Option SyntaxTree :=
  (firstStatement? body).filter (isStringStatement source)

/-- The docstring at the front of a body. -/
def docstringOfBody? (source : Text) (body : SyntaxTree) : Option Literal :=
  (docstringStatement? source body).bind (·.literal? source)

mutual

/-- The bodies of the definitions below a node, each in front of those within. -/
def bodiesBelow : SyntaxTree → List SyntaxTree
  | ⟨_, _, _, _, _, _, children⟩ => bodiesIn children

/-- The bodies of the definitions among the nodes and below. -/
def bodiesIn : List SyntaxTree → List SyntaxTree
  | [] => []
  | t :: ts =>
    (if t.isNamed then
      (if definitionKinds.contains t.kind then t.childOfField? "body".toList else none).toList ++
        bodiesBelow t
    else []) ++ bodiesIn ts

end

/-- A docstring put in front of those that start on the same line or below. -/
def insertByLine (d : Literal) : List Literal → List Literal
  | [] => [d]
  | e :: es => if d.start.line ≤ e.start.line then d :: e :: es else e :: insertByLine d es

/-- The docstrings by the lines on which they start. -/
def sortByLine (ds : List Literal) : List Literal :=
  ds.foldr insertByLine []

/-- The docstrings that a syntax tree shows in a source: that of the module, whose body is the whole
tree, and those of the definitions. -/
def SyntaxTree.docstrings (source : Text) (t : SyntaxTree) : List Literal :=
  sortByLine ((t :: bodiesBelow t).filterMap (docstringOfBody? source))

/-- The docstrings of a source, in its order, if it has a syntax tree without errors. -/
def docstrings (parse : Parser) (source : Text) : Except SyntaxError (List Literal) := do
  let (text, width) := splitByteOrderMark source
  let root ← parse text
  if root.hasError then .error (.invalid (root.firstErrorLine?.getD 1))
  else .ok ((root.docstrings text).map (·.shiftFirstLine width))

end Marginalia
