import Marginalia.Text.Letter
import Marginalia.Token

/-!
# The piece at the front of a text

Lexical analysis looks at the front of the text and asks what stands there: white space, a line
break, a comment, or a lexeme of some kind. `Piece.read c r` answers for the text `c :: r`,
with the number of characters of `r` that belong to the piece; so every piece takes at least
one character, and what remains is `r` without that many characters.

The functions named for a class of lexemes measure it: `nameLength`, `numberLength`,
`shortBody?` and `longBody?` (a string literal after its opening quotes), `operatorLength?`.
-/

namespace Marginalia

/-! ## Lexical classes -/

/-- Whether a name may start with this character. -/
def isNameStart (c : Char) : Bool :=
  c == '_' || isLetter c

/-- Whether a name may go on with this character. -/
def isNameContinue (c : Char) : Bool :=
  c == '_' || isLetterOrNumeral c

/-- The letters that may stand in front of a quote, in lower case. -/
def stringPrefixes : List Text :=
  [['r'], ['u'], ['b'], ['f'], ['b', 'r'], ['r', 'b'], ['f', 'r'], ['r', 'f']]

/-- The operators of three characters. -/
def threeCharOperators : List Text :=
  ["**=".toList, "//=".toList, ">>=".toList, "<<=".toList, "...".toList]

/-- The operators of two characters. -/
def twoCharOperators : List Text :=
  ["**".toList, "//".toList, ">>".toList, "<<".toList, "<=".toList, ">=".toList, "==".toList,
   "!=".toList, "->".toList, "+=".toList, "-=".toList, "*=".toList, "/=".toList, "%=".toList,
   "&=".toList, "|=".toList, "^=".toList, "@=".toList, ":=".toList]

/-- The operators of one character. -/
def oneCharOperators : Text :=
  ['+', '-', '*', '/', '%', '@', '&', '|', '^', '~', '<', '>', '(', ')', '[', ']', '\x7b', '\x7d',
   ',', ':', ';', '.', '=', '!']

/-- Whether a character opens a bracket. -/
def isOpening (c : Char) : Bool :=
  c == '(' || c == '[' || c == '\x7b'

/-- Whether a character closes a bracket. -/
def isClosing (c : Char) : Bool :=
  c == ')' || c == ']' || c == '\x7d'

/-- Whether a character is white space within a line. -/
def isInlineSpace (c : Char) : Bool :=
  c == ' ' || c == '\t' || c == '\x0c' || c == '\r'

/-! ## Lengths -/

/-- How many characters continue a name. -/
def nameLength (t : Text) : Nat :=
  (t.takeWhile isNameContinue).length

/-- Whether a number is written in base 16, 8 or 2, where no exponent has a sign. -/
def isRadixNumber : Text → Bool
  | '0' :: x :: _ => ['x', 'X', 'o', 'O', 'b', 'B'].contains x
  | _ => false

/-- How many characters belong to a number, when `prev` stands before them. A sign belongs to
it after the letter of an exponent, unless the number has a radix. -/
def numberLength (radix : Bool) (prev : Char) : Text → Nat
  | [] => 0
  | c :: r =>
    if c.isAlphanum || c == '_' || c == '.' ||
        ((c == '+' || c == '-') && (prev == 'e' || prev == 'E') && !radix) then
      numberLength radix c r + 1
    else 0

/-- The length of the rest of a string literal after its single opening quote `q`, closing quote
included; `none` when the line ends first. A backslash takes the next character with it, and
the whole of a line break. -/
def shortBody? (q : Char) : Text → Option Nat
  | [] => none
  | ['\\'] => none
  | '\\' :: '\r' :: '\n' :: r => (shortBody? q r).map (· + 3)
  | '\\' :: _ :: r => (shortBody? q r).map (· + 2)
  | c :: r =>
    if c = '\n' then none
    else if c = q then some 1
    else (shortBody? q r).map (· + 1)

/-- The length of the rest of a string literal after its three opening quotes `q`, closing
quotes included; `none` when the text ends first. -/
def longBody? (q : Char) : Text → Option Nat
  | [] => none
  | ['\\'] => none
  | '\\' :: '\r' :: '\n' :: r => (longBody? q r).map (· + 3)
  | '\\' :: _ :: r => (longBody? q r).map (· + 2)
  | c :: r =>
    if c = q ∧ [q, q].isPrefixOf r then some 3
    else (longBody? q r).map (· + 1)

/-- The length of what follows the opening quote `q` of a string literal. -/
def stringLength? (q : Char) (r : Text) : Option Nat :=
  if [q, q].isPrefixOf r then (longBody? q (r.drop 2)).map (· + 2) else shortBody? q r

/-- The number of characters of the longest operator at the front of the text. -/
def operatorLength? (t : Text) : Option Nat :=
  if threeCharOperators.contains (t.take 3) then some 3
  else if twoCharOperators.contains (t.take 2) then some 2
  else if (t.head?.map oneCharOperators.contains).getD false then some 1
  else none

/-! ## Pieces -/

/-- What stands at the front of a text. -/
inductive Piece
  /-- A character of white space. -/
  | space
  /-- A backslash and the line break after it. -/
  | continuation
  | lineBreak
  | comment
  | string
  | name
  | number
  | op
  deriving DecidableEq, Repr

/-- Why no piece stands at the front of a text. -/
inductive PieceError
  | unterminatedString
  | unexpectedCharacter (found : Char)
  deriving DecidableEq, Repr

namespace Piece

/-- The string literal whose opening quote follows after `skip` characters of `r`. -/
def readString (q : Char) (skip : Nat) (r : Text) : Except PieceError (Piece × Nat) :=
  match stringLength? q (r.drop skip) with
  | some n => .ok (.string, skip + n)
  | none => .error .unterminatedString

/-- The name that starts with `c`, or the string literal that `c` is the first prefix letter
of. -/
def readName (c : Char) (r : Text) : Except PieceError (Piece × Nat) :=
  let n := nameLength r
  match r.drop n with
  | q :: _ =>
    if (q = '"' ∨ q = '\'') ∧ stringPrefixes.contains (Text.toLower (c :: r.take n)) then
      readString q (n + 1) r
    else .ok (.name, n)
  | [] => .ok (.name, n)

/-- The line break that a backslash takes with it. -/
def readContinuation (r : Text) : Except PieceError (Piece × Nat) :=
  match r with
  | '\n' :: _ => .ok (.continuation, 1)
  | '\r' :: '\n' :: _ => .ok (.continuation, 2)
  | _ => .error (.unexpectedCharacter '\\')

/-- The operator that starts with `c`. -/
def readOperator (c : Char) (r : Text) : Except PieceError (Piece × Nat) :=
  match operatorLength? (c :: r) with
  | some n => .ok (.op, n - 1)
  | none => .error (.unexpectedCharacter c)

/-- The piece at the front of `c :: r`, and how many characters of `r` belong to it. -/
def read (c : Char) (r : Text) : Except PieceError (Piece × Nat) :=
  if isInlineSpace c then .ok (.space, 0)
  else if c = '\n' then .ok (.lineBreak, 0)
  else if c = '#' then .ok (.comment, (r.takeWhile (· ≠ '\n')).length)
  else if c = '\\' then readContinuation r
  else if c = '"' ∨ c = '\'' then readString c 0 r
  else if c.isDigit ∨ (c = '.' ∧ (r.head?.map Char.isDigit).getD false) then
    .ok (.number, numberLength (isRadixNumber (c :: r)) c r)
  else if isNameStart c then readName c r
  else readOperator c r

end Piece

end Marginalia
