import Marginalia.Literal

/-!
# String literals that stand alone

A triple-quoted literal that no expression makes use of is commentary. Whether it stands alone
is judged by its two neighbours only: the nearest tokens before and after it that are neither
layout nor comments. Before it must not stand what binds a value (an opening bracket, a comma,
an equals sign, or one of three keywords), and after it not what closes a list.
-/

namespace Marginalia

/-- The operators after which a string is an argument, an element or an assigned value. -/
def bindingOperators : List Text := [['('], ['['], ['\x7b'], [','], ['=']]

/-- The keywords after which a string is part of a signature or a returned value. -/
def bindingKeywords : List Text := ["def".toList, "class".toList, "return".toList]

/-- The operators before which a string is the tail of a call or a collection. -/
def trailingOperators : List Text := [[')'], [']'], ['\x7d'], [',']]

namespace Token

/-- Whether the token makes the string after it part of an expression. -/
def bindsNext (t : Token) : Bool :=
  bindingOperators.any t.isOp || bindingKeywords.any t.isName

/-- Whether the token makes the string before it part of an expression. -/
def closesPrevious (t : Token) : Bool :=
  trailingOperators.any t.isOp

/-- Whether the token may be commentary: a triple-quoted literal that evaluates no embedded
expression. -/
def isPlainTripleQuoted (t : Token) : Bool :=
  t.isTripleQuoted && !t.stringPrefix.contains 'f'

end Token

/-- Whether a string stands alone between the tokens `before` (nearest first) and `after`. The
first thing in a source stands alone whatever follows it. -/
def standsAloneBetween (before after : List Token) : Bool :=
  match before.find? Token.isSemantic with
  | none => true
  | some p => !p.bindsNext && !(after.find? Token.isSemantic).any Token.closesPrevious

/-- Whether the string at index `i` stands alone. -/
def isStandalone (tokens : List Token) (i : Nat) : Bool :=
  tokens.length ≤ i || standsAloneBetween (tokens.take i).reverse (tokens.drop (i + 1))

/-- The standalone literals among `tokens`, which follow after the tokens `before` (nearest
first) and the literals `found`. A literal that starts on a line of an earlier one is left
out. -/
def standaloneFrom (before : List Token) (found : List Literal) : List Token → List Literal
  | [] => []
  | t :: after =>
    if t.isPlainTripleQuoted && !found.any (·.covers t.start.line) &&
        standsAloneBetween before after then
      let s := Literal.ofToken t
      s :: standaloneFrom (t :: before) (s :: found) after
    else standaloneFrom (t :: before) found after

/-- The standalone literals of a token sequence, in its order. -/
def standaloneStrings (tokens : List Token) : List Literal :=
  standaloneFrom [] [] tokens

end Marginalia
