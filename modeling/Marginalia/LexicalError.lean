import Marginalia.Text.Basic
import Marginalia.Text.Quoted

/-!
# Lexical errors

The reasons why a source has no token sequence. Each names the line where the offence stands,
and `LexicalError.message` is the only place where a reason is put into words.
-/

namespace Marginalia

/-- Why a source cannot be cut into tokens. -/
inductive LexicalError
  /-- The literal that starts on `line` is not closed. -/
  | unterminatedString (line : Nat)
  /-- The line returns to a column at which no open block starts. -/
  | inconsistentDedent (line : Nat)
  /-- No token starts with `found`. -/
  | unexpectedCharacter (line : Nat) (found : Char)
  /-- The bracket `found` closes nothing. -/
  | unbalancedBracket (line : Nat) (found : Char)
  /-- The source ends, at `line`, inside brackets. -/
  | unclosedBracket (line : Nat)
  deriving DecidableEq, Repr

namespace LexicalError

/-- The line of the offence. -/
def line : LexicalError → Nat
  | unterminatedString l | inconsistentDedent l | unexpectedCharacter l _
  | unbalancedBracket l _ | unclosedBracket l => l

/-- What is wrong, without the line. -/
def reason : LexicalError → Text
  | unterminatedString _ => "unterminated string literal".toList
  | inconsistentDedent _ => "unindent does not match any outer indentation level".toList
  | unexpectedCharacter _ c => "unexpected character ".toList ++ quotedChar c
  | unbalancedBracket _ c => "unmatched closing bracket ".toList ++ quotedChar c
  | unclosedBracket _ => "end of file inside a bracketed statement".toList

/-- The message of the error: its line and its reason. -/
def message (e : LexicalError) : Text :=
  "line ".toList ++ Text.ofNat e.line ++ ": ".toList ++ e.reason

end LexicalError

end Marginalia
