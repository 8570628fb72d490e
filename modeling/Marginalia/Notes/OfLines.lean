import Marginalia.Notes
import Marginalia.Text.Blank
import Marginalia.Text.Line

/-!
# Notes from lines

A rough reading of a source that has no token sequence, physical line by physical line.

* A number sign starts a comment when an even number of quote characters stands before it on
  its line.
* A line that starts with triple quotes opens a standalone literal when no earlier line with
  code on it ends in an operator, an opening bracket or a comma. The literal ends with the next
  occurrence of its quotes, or with the source.
* A line that leaves triple quotes open in its code starts a string of code, which lasts until a
  line with these quotes on it.

Escapes and strings over several lines mislead the count of quotes; that is accepted.
-/

namespace Marginalia

/-! ## Quotes on a line -/

/-- Whether a character opens or closes a string literal. -/
def isQuote (c : Char) : Bool :=
  c == '"' || c == '\''

/-- Whether a text has an even number of quote characters. -/
def hasEvenQuotes (t : Text) : Bool :=
  (t.filter isQuote).length % 2 == 0

/-- The number of characters before the first number sign that comes after an even number of
quotes, when `even` tells whether the number so far is even. -/
def commentStartFrom? (even : Bool) : Text → Option Nat
  | [] => none
  | c :: r =>
    if c = '#' ∧ even then some 0
    else (commentStartFrom? (if isQuote c then !even else even) r).map (· + 1)

/-- The column at which the comment on a line starts. -/
def commentStart? (line : Text) : Option Nat :=
  commentStartFrom? true line

/-- The line without its comment and without white space at the end. -/
def codePart (line : Text) : Text :=
  match commentStart? line with
  | some n => Text.trimEnd isSpace (line.take n)
  | none => Text.trimEnd isSpace line

/-- The two ways to quote a literal over several lines. -/
def tripleQuotes : List Text := [['"', '"', '"'], ['\'', '\'', '\'']]

/-- The characters after which the next line goes on with an expression. -/
def continuationEndings : Text :=
  ['=', '(', '[', '\x7b', ',', '+', '-', '*', '/', '%', '|', '&', '^', '<', '>', '\\']

/-- The triple quotes that a line of code leaves open. -/
def openQuotes? (code : Text) : Option Text :=
  tripleQuotes.find? fun q => Text.count q code % 2 == 1

/-! ## Literals over several lines -/

/-- Whether a literal may stand alone after the lines `before` (nearest first). -/
def mayStandAlone (before : List Text) : Bool :=
  match (before.map codePart).find? (!·.isEmpty) with
  | none => true
  | some code => !(code.getLast?.map continuationEndings.contains).getD false

/-- Where the quotes occur next in `lines`: how many lines further down, and the column just past
them. -/
def closingLine? (quotes : Text) : List Text → Option (Nat × Nat)
  | [] => none
  | l :: ls =>
    match Text.find? quotes l with
    | some n => some (0, n + quotes.length)
    | none => (closingLine? quotes ls).map fun (k, column) => (k + 1, column)

/-- Where a literal ends whose opening quotes end at column `bodyAt` of the line `line`, with
`after` below it: how many lines further down, and the column just past its closing quotes or
past the end of the source. -/
def closing (quotes line : Text) (bodyAt : Nat) (after : List Text) : Nat × Nat :=
  match Text.find? quotes (line.drop bodyAt) with
  | some n => (0, bodyAt + n + quotes.length)
  | none =>
    match closingLine? quotes after with
    | some (k, column) => (k + 1, column)
    | none => (after.length, (after.getLast?.getD line).length)

/-- The notes of a standalone literal: on its first line `n` from `column` on, and on each of the
lines `below` from their beginning. -/
def blockNotes (n column : Nat) (first : Text) (below : List Text) (extent : Extent) :
    List (Nat × Note) :=
  (n, ⟨Text.trimEnd isSpace first, .standaloneString, column, some extent⟩) ::
    below.mapIdx fun i l =>
      (n + 1 + i, ⟨Text.trimEnd isSpace l, .standaloneString, 0, some extent⟩)

/-- The comment on line `n`, if there is one. -/
def commentNote? (n : Nat) (line : Text) : Option (Nat × Note) :=
  (commentStart? line).map fun column =>
    (n, ⟨Text.trimEnd isSpace (line.drop column), .comment, column, none⟩)

/-- The standalone literal that opens on a line: its quotes and its column. -/
def openingBlock? (before : List Text) (line : Text) : Option (Text × Nat) :=
  let trimmed := line.dropWhile isBlankChar
  match tripleQuotes.find? (·.isPrefixOf trimmed) with
  | some quotes =>
    if mayStandAlone before then some (quotes, line.length - trimmed.length) else none
  | none => none

/-- The notes on `lines`, the first of which is line `n`, after the lines `before` (nearest
first), when the quotes `inCode` of a string of code are open. -/
def lineNotes (before : List Text) (inCode : Option Text) (n : Nat) :
    List Text → List (Nat × Note)
  | [] => []
  | line :: after =>
    match inCode with
    | some quotes =>
      lineNotes (line :: before) (if Text.hasInfix line quotes then none else some quotes) (n + 1)
        after
    | none =>
      match openingBlock? before line with
      | some (quotes, column) =>
        let (k, stopColumn) := closing quotes line (column + quotes.length) after
        let extent : Extent := ⟨⟨n, column⟩, ⟨n + k, stopColumn⟩⟩
        blockNotes n column (line.drop column) (after.take k) extent ++
          lineNotes ((after.take k).reverse ++ line :: before) none (n + k + 1) (after.drop k)
      | none =>
        (commentNote? n line).toList ++
          lineNotes (line :: before) (openQuotes? (codePart line)) (n + 1) after
termination_by lines => lines.length

/-- The notes that the physical lines of a source give. -/
def Notes.ofLines (source : Text) : Notes :=
  Notes.empty.insertAll (lineNotes [] none 1 ((splitLines source).map Line.text))

end Marginalia
