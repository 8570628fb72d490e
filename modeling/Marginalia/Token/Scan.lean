import Marginalia.LexicalError
import Marginalia.Token.Piece

/-!
# The tokens of a source

`tokenize` cuts a source into tokens with exact positions. It goes through the text piece by
piece (`Piece.read`) and keeps a `Layout`: the columns at which open blocks start, the bracket
depth, and whether a logical line has begun. The layout decides whether a line break ends a
logical line, and where blocks open and close.

* A line break outside brackets ends the logical line if one has begun.
* Only the first line of a logical line is measured for its indentation, and blank lines and
  lines with nothing but a comment are not measured.
* A byte order mark in front of the source is skipped, but takes up column 0 of line 1.
-/

namespace Marginalia

/-- What the tokens so far say about the lines and blocks of the source. -/
structure Layout where
  /-- The columns at which the open blocks start, the innermost first. -/
  indents : List Nat
  /-- The number of open brackets. -/
  depth : Nat
  /-- Whether the current logical line has a token. -/
  inStatement : Bool
  /-- Whether a physical line that may start a logical line begins here. -/
  atLineStart : Bool
  deriving DecidableEq, Repr

namespace Layout

/-- The layout in front of a source. -/
def initial : Layout := ⟨[], 0, false, true⟩

/-- The column of the innermost open block. -/
def indent (l : Layout) : Nat := l.indents.headD 0

end Layout

/-! ## Indentation -/

/-- The column after `c`, when the white space before it reaches to column `width`: a tab goes
on to the next multiple of 8, a form feed returns to 0, a carriage return does not count. -/
def indentStep (width : Nat) (c : Char) : Nat :=
  if c = '\t' then (width / 8 + 1) * 8
  else if c = '\x0c' then 0
  else if c = '\r' then width
  else width + 1

/-- The column that the white space in front of a line reaches to. -/
def indentWidth (t : Text) : Nat :=
  t.foldl indentStep 0

/-- The blocks that stay open when a line starts at column `width`. -/
def keptIndents (width : Nat) (indents : List Nat) : List Nat :=
  indents.dropWhile (width < ·)

/-- Whether the text leaves its line without a token: the end of the text, a line break or a
comment. -/
def isLineIdle : Text → Bool
  | [] => true
  | c :: _ => c == '\n' || c == '#'

/-- The tokens that open or close blocks when a line starts with the white space `ws` at `start`
and goes on with `rest`, and the blocks that are then open. -/
def openLine (indents : List Nat) (start : Position) (ws rest : Text) :
    Except LexicalError (List Token × List Nat) :=
  let width := indentWidth ws
  let stop := start.advanceBy ws
  if isLineIdle rest then .ok ([], indents)
  else if indents.headD 0 < width then .ok ([⟨.indent, ws, start, stop⟩], width :: indents)
  else
    let kept := keptIndents width indents
    if width = kept.headD 0 then
      .ok (List.replicate (indents.length - kept.length) ⟨.dedent, [], stop, stop⟩, kept)
    else .error (.inconsistentDedent stop.line)

/-! ## Pieces with positions -/

/-- A token of the given kind with the characters `text` at `start`. -/
def Token.at (kind : TokenKind) (text : Text) (start : Position) : Token :=
  ⟨kind, text, start, start.advanceBy text⟩

/-- The bracket depth after the operator `text`; only a bracket changes it. -/
def depthAfter (depth : Nat) (line : Nat) (text : Text) : Except LexicalError Nat :=
  match text with
  | [c] =>
    if isOpening c then .ok (depth + 1)
    else if isClosing c then
      match depth with
      | 0 => .error (.unbalancedBracket line c)
      | d + 1 => .ok d
    else .ok depth
  | _ => .ok depth

/-- The token of a piece with the characters `text` at `start`, if it has one, and the layout
after it. -/
def place (l : Layout) (start : Position) (text : Text) :
    Piece → Except LexicalError (Option Token × Layout)
  | .space | .continuation => .ok (none, l)
  | .lineBreak =>
    let kind := if l.depth = 0 ∧ l.inStatement then .newline else .lineBreak
    let token : Token := ⟨kind, text, start, ⟨start.line, start.column + 1⟩⟩
    .ok (some token,
      if l.depth = 0 then { l with inStatement := false, atLineStart := true } else l)
  | .comment => .ok (some (Token.at .comment (Text.trimEnd (· == '\r') text) start), l)
  | .string => .ok (some (Token.at .string text start), { l with inStatement := true })
  | .name => .ok (some (Token.at .name text start), { l with inStatement := true })
  | .number => .ok (some (Token.at .number text start), { l with inStatement := true })
  | .op =>
    match depthAfter l.depth start.line text with
    | .ok depth => .ok (some (Token.at .op text start), { l with inStatement := true, depth })
    | .error e => .error e

/-- The lexical error that a missing piece at `p` amounts to. -/
def PieceError.at (p : Position) : PieceError → LexicalError
  | .unterminatedString => .unterminatedString p.line
  | .unexpectedCharacter c => .unexpectedCharacter p.line c

/-! ## The whole source -/

/-- The tokens that the end of the source at `p` calls for. -/
def finish (l : Layout) (p : Position) : Except LexicalError (List Token) :=
  if 0 < l.depth then .error (.unclosedBracket p.line)
  else
    .ok ((if l.inStatement then [⟨.newline, [], p, p⟩] else []) ++
      List.replicate l.indents.length ⟨.dedent, [], p, p⟩ ++ [⟨.endMarker, [], p, p⟩])

/-- The tokens of the text, which stands at `p` after tokens that left the layout `l`. -/
def scan (l : Layout) (p : Position) (t : Text) : Except LexicalError (List Token) :=
  if _h : l.atLineStart = true then
    let ws := t.takeWhile isInlineSpace
    let rest := t.dropWhile isInlineSpace
    match openLine l.indents p ws rest with
    | .error e => .error e
    | .ok (tokens, indents) =>
      (scan { l with indents, atLineStart := false } (p.advanceBy ws) rest).map (tokens ++ ·)
  else
    match t with
    | [] => finish l p
    | c :: r =>
      match Piece.read c r with
      | .error e => .error (e.at p)
      | .ok (piece, n) =>
        let text := c :: r.take n
        match place l p text piece with
        | .error e => .error e
        | .ok (token, l') =>
          (scan l' (p.advanceBy text) (r.drop n)).map (token.toList ++ ·)
termination_by 2 * t.length + l.atLineStart.toNat
decreasing_by
  · have := (List.dropWhile_suffix (l := t) isInlineSpace).length_le
    simp only [_h, Bool.toNat_false, Bool.toNat_true]
    omega
  · have := Bool.toNat_le l'.atLineStart
    simp only [List.length_drop, List.length_cons]
    omega

/-- A source without the byte order mark in front of it, and the number of columns the mark
takes up. -/
def splitByteOrderMark : Text → Text × Nat
  | '\ufeff' :: r => (r, 1)
  | t => (t, 0)

/-- The tokens of a source, the last of which is an end marker. -/
def tokenize (source : Text) : Except LexicalError (List Token) :=
  let (t, width) := splitByteOrderMark source
  scan .initial ⟨1, width⟩ t

end Marginalia
