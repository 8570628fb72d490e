/-!
# Texts

A text is a list of characters; lengths and columns count characters. This module holds the
cuts and searches that the rest of the library is written with: trimming at the end, splitting
at a character, and finding a delimiter.
-/

namespace Marginalia

/-- A text, as the list of its characters. -/
abbrev Text := List Char

namespace Text

/-- The text without the longest run of `p`-characters at its end. -/
def trimEnd (p : Char → Bool) : Text → Text
  | [] => []
  | c :: r =>
    match trimEnd p r with
    | [] => if p c then [] else [c]
    | t => c :: t

/-- The text without its `p`-characters at both ends. -/
def trim (p : Char → Bool) (t : Text) : Text :=
  trimEnd p (t.dropWhile p)

/-- The pieces between the occurrences of `sep`; there is always one more piece than there are
occurrences. -/
def splitAt (sep : Char) : Text → List Text
  | [] => [[]]
  | c :: r =>
    if c = sep then [] :: splitAt sep r
    else
      match splitAt sep r with
      | [] => [[c]]
      | p :: ps => (c :: p) :: ps

/-- The pieces of `parts` with `sep` between them. -/
def joinWith (sep : Text) : List Text → Text
  | [] => []
  | [p] => p
  | p :: q :: ps => p ++ sep ++ joinWith sep (q :: ps)

theorem splitAt_ne_nil (sep : Char) (t : Text) : splitAt sep t ≠ [] := by
  cases t with
  | nil => simp [splitAt]
  | cons c r =>
    rw [splitAt]
    split
    · simp
    · split <;> simp

theorem joinWith_cons (sep p : Text) {ps : List Text} (h : ps ≠ []) :
    joinWith sep (p :: ps) = p ++ sep ++ joinWith sep ps := by
  cases ps with
  | nil => exact absurd rfl h
  | cons q qs => rfl

/-- The pieces of a text give the text back. -/
theorem joinWith_splitAt (sep : Char) (t : Text) : joinWith [sep] (splitAt sep t) = t := by
  induction t with
  | nil => rfl
  | cons c r ih =>
    have hne := splitAt_ne_nil sep r
    rw [splitAt]
    split
    · next h => rw [joinWith_cons _ _ hne, ih, h]; rfl
    · cases hs : splitAt sep r with
      | nil => exact absurd hs hne
      | cons p ps =>
        rw [hs] at ih
        cases ps with
        | nil => simpa [joinWith] using ih
        | cons q qs => simpa [joinWith] using ih

/-- The number of characters before the first occurrence of `needle`. -/
def find? (needle : Text) : Text → Option Nat
  | [] => if needle.isEmpty then some 0 else none
  | c :: r => if needle.isPrefixOf (c :: r) then some 0 else (find? needle r).map (· + 1)

/-- Whether `needle` occurs in the text. -/
def hasInfix (t needle : Text) : Bool :=
  (find? needle t).isSome

/-- The number of disjoint occurrences of `needle`, counted from the left. After an occurrence
the next `skip` characters belong to it. -/
def countFrom (needle : Text) (skip : Nat) : Text → Nat
  | [] => 0
  | c :: r =>
    match skip with
    | k + 1 => countFrom needle k r
    | 0 =>
      if needle.isPrefixOf (c :: r) then countFrom needle (needle.length - 1) r + 1
      else countFrom needle 0 r

/-- The number of disjoint occurrences of `needle`, counted from the left. -/
def count (needle t : Text) : Nat :=
  countFrom needle 0 t

/-- Whether a text comes before another by the code points of their characters, or is the same. -/
def le : Text → Text → Bool
  | [], _ => true
  | _ :: _, [] => false
  | c :: r, d :: s => if c = d then le r s else c.toNat < d.toNat

/-- The text with every ASCII letter in lower case. -/
def toLower (t : Text) : Text :=
  t.map Char.toLower

/-- The decimal digits of a number. -/
def ofNat (n : Nat) : Text :=
  Nat.toDigits 10 n

/-- The text, followed by as many spaces as it lacks to `width` characters. -/
def padRight (width : Nat) (t : Text) : Text :=
  t ++ List.replicate (width - t.length) ' '

end Text

end Marginalia
