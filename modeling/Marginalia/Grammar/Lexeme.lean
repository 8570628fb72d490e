import Marginalia.Text.Identifier
import Marginalia.Token.Piece

/-!
# Lexemes

The words that the grammar is about. They differ from tokens in what they are for: a lexeme is
only as exact as the grammar needs it, but a string literal with replacement fields is opened
up, so that the expressions in its fields can be read like any others.

`Lexeme.read` tells what stands at the front of a text. What it may be depends on where the text
stands: among code, in brackets, in a replacement field, in the format after a field's colon, or
in the characters of a literal. A stack of `Mode`s keeps track of that.
-/

namespace Marginalia.Grammar

/-- What a lexeme is. -/
inductive LexemeKind
  /-- An identifier or a keyword. -/
  | name
  | number
  /-- A string literal without replacement fields. -/
  | string
  /-- An operator or a delimiter. -/
  | op
  /-- The prefix and the opening quotes of a string literal with replacement fields. -/
  | literalStart
  /-- The closing quotes of such a literal. -/
  | literalEnd
  | fieldStart
  | fieldEnd
  /-- The exclamation mark and the letter that convert a field. -/
  | conversion
  /-- The colon in front of a field's format. -/
  | formatStart
  deriving DecidableEq, Repr

/-- A lexeme: its characters, and the offset of the first and the one past the last. -/
structure Lexeme where
  kind : LexemeKind
  text : Text
  start : Nat
  stop : Nat
  deriving DecidableEq, Repr

/-- Where a text stands. -/
inductive Mode
  /-- Within brackets that `close` closes. -/
  | bracket (close : Char)
  /-- Within a replacement field. -/
  | field
  /-- Within the format of a field. -/
  | format
  /-- Among the characters of a literal with replacement fields. -/
  | literal (quote : Char) (triple raw : Bool)
  deriving DecidableEq, Repr

/-! ## Numerals -/

/-- How many characters of the text are decimal digits, single underscores allowed after each
group; `afterDigit` tells whether a digit stands before. -/
def decimalLength (afterDigit : Bool) : Text → Nat
  | [] => 0
  | c :: r =>
    if c.isDigit then decimalLength true r + 1
    else if c = '_' ∧ afterDigit then decimalLength false r + 1
    else 0

/-- How many characters of the text are digits that `p` accepts, single underscores allowed in
front of each group. -/
def radixLength (p : Char → Bool) : Text → Nat
  | [] => 0
  | '_' :: c :: r => if p c then radixLength p r + 2 else 0
  | c :: r => if p c then radixLength p r + 1 else 0

/-- The length of an exponent at the front of the text, 0 if there is none. -/
def exponentLength : Text → Nat
  | e :: s :: r =>
    if e = 'e' ∨ e = 'E' then
      if s = '+' ∨ s = '-' then
        match decimalLength false r with
        | 0 => 0
        | n + 1 => n + 3
      else
        match decimalLength false (s :: r) with
        | 0 => 0
        | n + 1 => n + 2
    else 0
  | _ => 0

/-- The length of a one-letter suffix out of `letters`. -/
def suffixLength (letters : Text) : Text → Nat
  | c :: _ => if letters.contains c then 1 else 0
  | [] => 0

/-- The length of a numeral in base 10: an integer, or a fraction with a point or an exponent. -/
def decimalNumeralLength (t : Text) : Nat :=
  let n := decimalLength false t
  let rest := t.drop n
  let (pointed, m) :=
    match rest with
    | '.' :: r => (true, 1 + decimalLength false r)
    | _ => (false, 0)
  let e := exponentLength (rest.drop m)
  if pointed || 0 < e then n + m + e + suffixLength ['j', 'J'] (rest.drop (m + e))
  else n + suffixLength ['l', 'L', 'j', 'J'] rest

/-- The characters that the digits of a base other than 10 are taken from, by its letter. -/
def radixDigits? (letter : Char) : Option (Char → Bool) :=
  if letter = 'x' ∨ letter = 'X' then
    some fun c => c.isDigit || (['a', 'b', 'c', 'd', 'e', 'f'] : Text).contains c.toLower
  else if letter = 'o' ∨ letter = 'O' then some fun c => '0' ≤ c && c ≤ '7'
  else if letter = 'b' ∨ letter = 'B' then some fun c => c == '0' || c == '1'
  else none

/-- The length of the numeral at the front of the text. -/
def numeralLength (t : Text) : Nat :=
  match t with
  | '0' :: letter :: r =>
    match radixDigits? letter with
    | some p =>
      match radixLength p r with
      | 0 => 1
      | n => 2 + n + suffixLength ['l', 'L'] (r.drop n)
    | none => decimalNumeralLength t
  | _ => decimalNumeralLength t

/-! ## String literals -/

/-- Whether a letter may stand in front of a quote. -/
def isPrefixLetter (c : Char) : Bool :=
  (['f', 'r', 'b', 'u'] : Text).contains c.toLower

/-- Whether a character may open a string literal. -/
def isLiteralQuote (c : Char) : Bool :=
  c == '"' || c == '\'' || c == '`'

/-- Whether a text begins with a string literal: quotes after any number of prefix letters. -/
def startsLiteral (t : Text) : Bool :=
  (t.dropWhile isPrefixLetter).head?.any isLiteralQuote

/-- Whether two more characters `q` follow, so that a quote opens a triple-quoted literal. -/
def opensTriple (q : Char) (r : Text) : Bool :=
  q != '`' && [q, q].isPrefixOf r

/-! ## What stands at the front of a text -/

/-- What stands at the front of a text `c :: r`. Each length counts characters of `r`. -/
inductive Front
  /-- White space within a line, or a comment. -/
  | skip (length : Nat)
  /-- A line break. -/
  | lineBreak
  /-- Characters of no width. What follows them is read without regard to lines. -/
  | invisible (length : Nat)
  /-- Characters of a literal or of a format. -/
  | content (length : Nat)
  /-- A lexeme, after which the text stands in `modes`. -/
  | lexeme (kind : LexemeKind) (length : Nat) (modes : List Mode)
  deriving Repr

/-- Whether a character between lexemes has no width. -/
def isInvisible (c : Char) : Bool :=
  c == '\x0b' || c == '\u200b' || c == '\u2060' || c == '\ufeff'

/-- The string literal whose opening quote `q` follows after `skip` prefix letters `letters`. -/
def readLiteral (modes : List Mode) (letters : Text) (q : Char) (skip : Nat) (r : Text) :
    Option Front :=
  let letters := Text.toLower letters
  if letters.contains 'f' then
    let triple := opensTriple q r
    some (.lexeme .literalStart (skip + if triple then 2 else 0)
      (.literal q triple (letters.contains 'r') :: modes))
  else
    let length? := if q = '`' then shortBody? q r else stringLength? q r
    length?.map fun n => .lexeme .string (skip + n) modes

/-- The name or the prefixed string literal that starts with `c`. -/
def readWord (modes : List Mode) (c : Char) (r : Text) : Option Front :=
  let n := (r.takeWhile isIdentifierContinue).length
  let word := c :: r.take n
  match r.drop n with
  | q :: rest =>
    if isLiteralQuote q && word.all isPrefixLetter then readLiteral modes word q (n + 1) rest
    else some (.lexeme .name n modes)
  | [] => some (.lexeme .name n modes)

/-- The operator or delimiter that starts with `c`. -/
def readDelimiter (modes : List Mode) (c : Char) (r : Text) : Option Front :=
  if c = '(' then some (.lexeme .op 0 (.bracket ')' :: modes))
  else if c = '[' then some (.lexeme .op 0 (.bracket ']' :: modes))
  else if c = '\x7b' then some (.lexeme .op 0 (.bracket '\x7d' :: modes))
  else if isClosing c then
    match modes with
    | .bracket close :: ms => if c = close then some (.lexeme .op 0 ms) else none
    | _ => none
  else if c = '<' ∧ r.head? = some '>' then some (.lexeme .op 1 modes)
  else (operatorLength? (c :: r)).map fun n => .lexeme .op (n - 1) modes

/-- What may stand among code. -/
def readCode (modes : List Mode) (c : Char) (r : Text) : Option Front :=
  if isInlineSpace c then some (.skip 0)
  else if c = '\n' then some .lineBreak
  else if c = '#' then some (.skip (r.takeWhile (· ≠ '\n')).length)
  else if c = '\\' then
    match r with
    | '\n' :: _ => some (.skip 1)
    | '\r' :: '\n' :: _ => some (.skip 2)
    | [] => some (.skip 0)
    | _ => none
  else if isInvisible c then
    let n := (r.takeWhile fun c => isInlineSpace c || c == '\n' || isInvisible c).length
    if startsLiteral (r.drop n) then none else some (.invisible n)
  else if isLiteralQuote c then readLiteral modes [] c 0 r
  else if c.isDigit ∨ (c = '.' ∧ r.head?.any Char.isDigit) then
    some (.lexeme .number (numeralLength (c :: r) - 1) modes)
  else if isIdentifierStart c then readWord modes c r
  else readDelimiter modes c r

/-- What may stand in a replacement field, outside the brackets in it. -/
def readField (modes : List Mode) (c : Char) (r : Text) : Option Front :=
  if c = '\x7d' then some (.lexeme .fieldEnd 0 modes)
  else if c = ':' then some (.lexeme .formatStart 0 (.format :: modes))
  else if c = '!' ∧ r.head?.any Char.isLower then some (.lexeme .conversion 1 (.field :: modes))
  else readCode (.field :: modes) c r

/-- What may stand in the format of a field. -/
def readFormat (modes : List Mode) (c : Char) : Option Front :=
  if c = '\x7d' then some (.lexeme .fieldEnd 0 modes)
  else if c = '\x7b' then some (.lexeme .fieldStart 0 (.field :: .format :: modes))
  else some (.content 0)

/-- How many characters of `r` an escape in a literal takes, after its backslash. -/
def escapeLength (raw : Bool) (r : Text) : Nat :=
  match r with
  | '\r' :: '\n' :: _ => 2
  | 'N' :: '\x7b' :: s =>
    if raw then 1
    else if '\x7d' ∈ s then (s.takeWhile (· ≠ '\x7d')).length + 3 else 1
  | '\x7b' :: _ | '\x7d' :: _ => 0
  | _ :: _ => 1
  | [] => 0

/-- What may stand among the characters of a literal with replacement fields. -/
def readContent (quote : Char) (triple raw : Bool) (modes : List Mode) (c : Char) (r : Text) :
    Option Front :=
  let stay := .literal quote triple raw :: modes
  if c = quote then
    if !triple then some (.lexeme .literalEnd 0 modes)
    else if [quote, quote].isPrefixOf r then some (.lexeme .literalEnd 2 modes)
    else some (.content 0)
  else if c = '\\' then some (.content (escapeLength raw r))
  else if c = '\n' ∧ !triple then none
  else if c = '\x7b' then
    if r.head? = some '\x7b' then some (.content 1)
    else some (.lexeme .fieldStart 0 (.field :: stay))
  else if c = '\x7d' then
    if r.head? = some '\x7d' then some (.content 1) else none
  else some (.content 0)

/-- What stands at the front of `c :: r`, which stands in `modes`; `none` if nothing may. -/
def Front.read (modes : List Mode) (c : Char) (r : Text) : Option Front :=
  match modes with
  | .literal quote triple raw :: ms => readContent quote triple raw ms c r
  | .format :: ms => readFormat ms c
  | .field :: ms => readField ms c r
  | _ => readCode modes c r

end Marginalia.Grammar
