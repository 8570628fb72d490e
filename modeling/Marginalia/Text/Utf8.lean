import Marginalia.Text.Basic

/-!
# UTF-8

Texts as bytes. `decode` accepts exactly the well-formed sequences (no overlong forms, no
surrogates, nothing above U+10FFFF) and otherwise says where the first ill-formed sequence
starts and how long it is. `takeBytes?` cuts a text at a byte offset.
-/

namespace Marginalia

/-- A sequence of bytes. -/
abbrev Bytes := List UInt8

/-- Why bytes are not UTF-8. -/
inductive Utf8Error
  /-- The `length` bytes from `index` on begin no character. -/
  | invalid (length index : Nat)
  /-- The bytes end within the character that starts at `index`. -/
  | incomplete (index : Nat)
  deriving DecidableEq, Repr

/-- The error in words. -/
def Utf8Error.message : Utf8Error → Text
  | invalid length index =>
    "invalid utf-8 sequence of ".toList ++ Text.ofNat length ++ " bytes from index ".toList ++
      Text.ofNat index
  | incomplete index => "incomplete utf-8 byte sequence from index ".toList ++ Text.ofNat index

namespace Utf8

/-- The bytes of a text. -/
def encode (t : Text) : Bytes :=
  t.flatMap String.utf8EncodeChar

/-- Whether a byte may only continue a character. -/
def isContinuation (b : UInt8) : Bool :=
  0x80 ≤ b && b ≤ 0xBF

/-- Whether `b` may follow after the first byte `a` of a character of three or four bytes. -/
def isSecond (a b : UInt8) : Bool :=
  if a = 0xE0 then 0xA0 ≤ b && b ≤ 0xBF
  else if a = 0xED then 0x80 ≤ b && b ≤ 0x9F
  else if a = 0xF0 then 0x90 ≤ b && b ≤ 0xBF
  else if a = 0xF4 then 0x80 ≤ b && b ≤ 0x8F
  else isContinuation b

/-- The number whose digits in base 64 are the low bits of the bytes, after `high`. -/
def joinBits (high : Nat) (bytes : List UInt8) : Nat :=
  bytes.foldl (fun n b => n * 64 + b.toNat % 64) high

/-- The text of the bytes, the first of which has the given index. -/
def decodeFrom (index : Nat) : Bytes → Except Utf8Error Text
  | [] => .ok []
  | a :: r =>
    if a < 0x80 then (decodeFrom (index + 1) r).map (Char.ofNat a.toNat :: ·)
    else if 0xC2 ≤ a ∧ a ≤ 0xDF then
      match r with
      | [] => .error (.incomplete index)
      | b :: r =>
        if isContinuation b then
          (decodeFrom (index + 2) r).map (Char.ofNat (joinBits (a.toNat % 32) [b]) :: ·)
        else .error (.invalid 1 index)
    else if 0xE0 ≤ a ∧ a ≤ 0xEF then
      match r with
      | [] => .error (.incomplete index)
      | [b] => .error (if isSecond a b then .incomplete index else .invalid 1 index)
      | b :: c :: r =>
        if !isSecond a b then .error (.invalid 1 index)
        else if isContinuation c then
          (decodeFrom (index + 3) r).map (Char.ofNat (joinBits (a.toNat % 16) [b, c]) :: ·)
        else .error (.invalid 2 index)
    else if 0xF0 ≤ a ∧ a ≤ 0xF4 then
      match r with
      | [] => .error (.incomplete index)
      | [b] => .error (if isSecond a b then .incomplete index else .invalid 1 index)
      | [b, c] =>
        .error
          (if !isSecond a b then .invalid 1 index
          else if isContinuation c then .incomplete index
          else .invalid 2 index)
      | b :: c :: d :: r =>
        if !isSecond a b then .error (.invalid 1 index)
        else if !isContinuation c then .error (.invalid 2 index)
        else if isContinuation d then
          (decodeFrom (index + 4) r).map (Char.ofNat (joinBits (a.toNat % 8) [b, c, d]) :: ·)
        else .error (.invalid 3 index)
    else .error (.invalid 1 index)

/-- The text of the bytes. -/
def decode (bytes : Bytes) : Except Utf8Error Text :=
  decodeFrom 0 bytes

/-- The number of bytes of a text. -/
def size (t : Text) : Nat :=
  t.foldr (fun c n => c.utf8Size + n) 0

/-- The text before byte offset `n`; `none` when that is past the end or inside a character. -/
def takeBytes? : Nat → Text → Option Text
  | 0, _ => some []
  | _ + 1, [] => none
  | n + 1, c :: r =>
    if c.utf8Size ≤ n + 1 then (takeBytes? (n + 1 - c.utf8Size) r).map (c :: ·) else none

end Utf8

end Marginalia
