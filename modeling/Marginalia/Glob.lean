import Marginalia.Filter

/-!
# Glob patterns

A pattern is a sequence of tokens, and accepts a text when the tokens, one after the other, can
use it up. `*` takes any characters, slashes and leading points included. `**`, which must be a
whole component of the pattern, takes any number of components with their slashes, or all that is
left. `Glob.parse` refuses a pattern with the place and the reason.
-/

namespace Marginalia

/-- Characters named in brackets. -/
inductive CharSpan
  /-- One character. -/
  | single (c : Char)
  /-- The characters from the first to the last. -/
  | range (first last : Char)
  deriving DecidableEq, Repr

namespace CharSpan

/-- Whether a character is named. -/
def covers (c : Char) : CharSpan → Bool
  | single d => c = d
  | range first last => decide (first ≤ c) && decide (c ≤ last)

/-- The spans that the text between brackets names. -/
def parseAll : Text → List CharSpan
  | a :: '-' :: b :: r => range a b :: parseAll r
  | a :: r => single a :: parseAll r
  | [] => []

end CharSpan

/-- A part of a pattern. -/
inductive GlobToken
  /-- The character itself. -/
  | char (c : Char)
  /-- Any one character. -/
  | anyChar
  /-- One of the characters. -/
  | oneOf (spans : List CharSpan)
  /-- Any character but these. -/
  | noneOf (spans : List CharSpan)
  /-- Any characters. -/
  | sequence
  /-- Any number of components, each with its slash, or all that is left. -/
  | components
  deriving DecidableEq, Repr

/-- Why a text is no pattern. -/
inductive GlobFault
  /-- Three or more stars in a row. -/
  | starRun
  /-- Two stars with something else in their component. -/
  | partialComponent
  /-- A bracket that is not closed, or closed with nothing in it. -/
  | brackets
  deriving DecidableEq, Repr

/-- Where a text stops to be a pattern, and why. -/
structure GlobError where
  position : Nat
  fault : GlobFault
  deriving DecidableEq, Repr

/-- The fault in words. -/
def GlobFault.message : GlobFault → Text
  | starRun => "wildcards are either regular `*` or recursive `**`".toList
  | partialComponent => "recursive wildcards must form a single path component".toList
  | brackets => "invalid range pattern".toList

/-- The error in words. -/
def GlobError.message (e : GlobError) : Text :=
  "Pattern syntax error near position ".toList ++ Text.ofNat e.position ++ ": ".toList ++
    e.fault.message

/-- A pattern. -/
structure Glob where
  tokens : List GlobToken
  deriving DecidableEq, Repr

namespace Glob

/-! ## Reading a pattern -/

/-- What stands in brackets that open before the text, and how many characters it has with the
closing bracket. A closing bracket as the first character is one of the characters. -/
def closeBracket : Text → Option (Text × Nat)
  | [] => none
  | a :: r =>
    let more := r.takeWhile (· ≠ ']')
    if more.length < r.length then some (a :: more, more.length + 2) else none

/-- The token that starts with the character `c`, and how many of the characters after it belong
to it. The character stands at `position`, after the character `before`. -/
def readToken (position : Nat) (before : Option Char) (c : Char) (r : Text) :
    Except GlobError (GlobToken × Nat) :=
  match c, r with
  | '?', _ => .ok (.anyChar, 0)
  | '*', '*' :: '*' :: _ => .error ⟨position + 2, .starRun⟩
  | '*', '*' :: r =>
    if before = none ∨ before = some '/' then
      match r with
      | [] => .ok (.components, 1)
      | '/' :: _ => .ok (.components, 2)
      | _ :: _ => .error ⟨position + 2, .partialComponent⟩
    else .error ⟨position - 1, .partialComponent⟩
  | '*', _ => .ok (.sequence, 0)
  | '[', '!' :: r =>
    match closeBracket r with
    | some (inner, n) => .ok (.noneOf (CharSpan.parseAll inner), n + 1)
    | none => .error ⟨position, .brackets⟩
  | '[', r =>
    match closeBracket r with
    | some (inner, n) => .ok (.oneOf (CharSpan.parseAll inner), n)
    | none => .error ⟨position, .brackets⟩
  | c, _ => .ok (.char c, 0)

/-- The tokens of a text that stands at `position`, after the character `before`. The first
`skip` characters belong to a token already read. -/
def readTokens (position : Nat) (before : Option Char) (skip : Nat) :
    Text → Except GlobError (List GlobToken)
  | [] => .ok []
  | c :: r =>
    match skip with
    | k + 1 => readTokens (position + 1) (some c) k r
    | 0 =>
      match readToken position before c r with
      | .error e => .error e
      | .ok (token, n) => (readTokens (position + 1) (some c) n r).map (token :: ·)

/-- The pattern that a text spells. -/
def parse (t : Text) : Except GlobError Glob :=
  (readTokens 0 none 0 t).map Glob.mk

/-! ## Matching -/

/-- All ends of a text, from the text itself to the empty one. -/
def ends : Text → List Text
  | [] => [[]]
  | c :: r => (c :: r) :: ends r

/-- The ends of a text that follow a slash. -/
def endsAfterSlash : Text → List Text
  | [] => []
  | c :: r => if c = '/' then r :: endsAfterSlash r else endsAfterSlash r

/-- What is left of a text after one character that satisfies `p`. -/
def afterOne (p : Char → Bool) : Text → List Text
  | [] => []
  | c :: r => if p c then [r] else []

end Glob

/-- All that a token can leave of a text. -/
def GlobToken.rests (t : Text) : GlobToken → List Text
  | char c => Glob.afterOne (· = c) t
  | anyChar => Glob.afterOne (fun _ => true) t
  | oneOf spans => Glob.afterOne (fun c => spans.any (·.covers c)) t
  | noneOf spans => Glob.afterOne (fun c => !spans.any (·.covers c)) t
  | sequence => Glob.ends t
  | components => t :: Glob.endsAfterSlash t ++ [[]]

namespace Glob

/-- All that tokens can leave of the given texts, each listed once. -/
def restsAfter : List GlobToken → List Text → List Text
  | [], ts => ts
  | token :: tokens, ts => restsAfter tokens (ts.flatMap token.rests).eraseDups

/-- Whether the pattern uses up the whole text. -/
def accepts (g : Glob) (t : Text) : Bool :=
  (restsAfter g.tokens [t]).any List.isEmpty

/-- The spelling of patterns that the program uses. -/
def patterns : PatternSyntax := fun t =>
  (parse t).map accepts |>.mapError GlobError.message

end Glob

end Marginalia
