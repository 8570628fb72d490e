import Marginalia.Text.Basic

/-!
# JSON texts

Values and how they are written: one member or element a line, indented by two spaces a level.
Empty arrays and objects stay on the line.
-/

namespace Marginalia

/-- A value. -/
inductive JsonValue
  /-- A natural number. -/
  | number (n : Nat)
  /-- A number given in hundredths. -/
  | hundredths (n : Nat)
  | string (t : Text)
  | array (elements : List JsonValue)
  | object (members : List (Text × JsonValue))

namespace JsonValue

/-- The hexadecimal digits of a control character, as many as a `\u` needs. -/
def unicodeDigits (c : Char) : Text :=
  let ds := Nat.toDigits 16 c.toNat
  List.replicate (4 - ds.length) '0' ++ ds

/-- A character in a string: quotes, backslashes and control characters are escaped. -/
def escapeChar (c : Char) : Text :=
  match c with
  | '"' => ['\\', '"']
  | '\\' => ['\\', '\\']
  | '\n' => ['\\', 'n']
  | '\r' => ['\\', 'r']
  | '\t' => ['\\', 't']
  | '\x08' => ['\\', 'b']
  | '\x0c' => ['\\', 'f']
  | c => if c.toNat < 32 then '\\' :: 'u' :: unicodeDigits c else [c]

/-- A string in quotes. -/
def quote (t : Text) : Text :=
  '"' :: t.flatMap escapeChar ++ ['"']

/-- A number of hundredths as a decimal: two places, but no zero at the end behind the first. -/
def decimal (n : Nat) : Text :=
  let places := if n % 10 = 0 then Text.ofNat (n / 10 % 10)
    else [Nat.digitChar (n / 10 % 10), Nat.digitChar (n % 10)]
  Text.ofNat (n / 100) ++ '.' :: places

/-- A new line on a level. -/
def newLine (level : Nat) : Text :=
  '\n' :: List.replicate (2 * level) ' '

/-- Items in brackets, each on a line of the next level. -/
def enclose (level : Nat) (opening closing : Char) (items : List Text) : Text :=
  match items with
  | [] => [opening, closing]
  | items =>
    opening :: newLine (level + 1) ++ Text.joinWith (',' :: newLine (level + 1)) items ++
      newLine level ++ [closing]

mutual

/-- The text of a value on a level. -/
def writeAt (level : Nat) : JsonValue → Text
  | number n => Text.ofNat n
  | .hundredths n => decimal n
  | string t => quote t
  | array es => enclose level '[' ']' (writeElements (level + 1) es)
  | object ms => enclose level '\x7b' '\x7d' (writeMembers (level + 1) ms)

/-- The texts of the elements of an array. -/
def writeElements (level : Nat) : List JsonValue → List Text
  | [] => []
  | e :: es => writeAt level e :: writeElements level es

/-- The texts of the members of an object. -/
def writeMembers (level : Nat) : List (Text × JsonValue) → List Text
  | [] => []
  | (key, e) :: ms => (quote key ++ ": ".toList ++ writeAt level e) :: writeMembers level ms

end

/-- The text of a value. -/
def write (j : JsonValue) : Text :=
  writeAt 0 j

end JsonValue

end Marginalia
