import Marginalia.Position

/-!
# Tokens

The lexical units of a source: names, numbers, operators, string literals and comments, and the
layout tokens that carry the line and block structure.
-/

namespace Marginalia

/-- What a token is. -/
inductive TokenKind
  /-- A number sign and the rest of its line. -/
  | comment
  /-- A string literal, prefix and quotes included. -/
  | string
  /-- A name or a keyword. -/
  | name
  | number
  /-- An operator or a delimiter. -/
  | op
  /-- The end of a logical line. -/
  | newline
  /-- A line break that ends no logical line. -/
  | lineBreak
  | indent
  | dedent
  | endMarker
  deriving DecidableEq, Repr

/-- Whether tokens of this kind only shape the layout of a source. -/
def TokenKind.isLayout : TokenKind → Bool
  | .newline | .lineBreak | .indent | .dedent => true
  | _ => false

/-- A token: its characters, where it starts, and the position just past it. -/
structure Token where
  kind : TokenKind
  text : Text
  start : Position
  stop : Position
  deriving DecidableEq, Repr

namespace Token

/-- Whether the token is the operator `text`. -/
def isOp (t : Token) (text : Text) : Bool :=
  t.kind == .op && t.text == text

/-- Whether the token is the name `text`. -/
def isName (t : Token) (text : Text) : Bool :=
  t.kind == .name && t.text == text

/-- Whether the token bears meaning: neither layout nor comment. -/
def isSemantic (t : Token) : Bool :=
  !t.kind.isLayout && t.kind != .comment

/-- The letters in front of the quotes of a string literal, in lower case. -/
def stringPrefix (t : Token) : Text :=
  Text.toLower (t.text.takeWhile Char.isAlpha)

/-- Whether the token is a string literal between triple quotes. -/
def isTripleQuoted (t : Token) : Bool :=
  let body := t.text.dropWhile Char.isAlpha
  t.kind == .string &&
    (['"', '"', '"'].isPrefixOf body || ['\'', '\'', '\''].isPrefixOf body) && 6 ≤ body.length

/-- The extent of the token. -/
def extent (t : Token) : Extent :=
  ⟨t.start, t.stop⟩

end Token

end Marginalia
