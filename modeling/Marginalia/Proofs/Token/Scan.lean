import Marginalia.Proofs.Position
import Marginalia.Token.Scan

/-!
# The tokens of a text in another place

What the scanner finds in a text depends on the text alone: when the text stands elsewhere, the
same tokens stand elsewhere with it, and an error is found on another line. `Position.IsMove`
says which maps of positions carry a text from one place to another, and `scan_move` carries the
result of the scanner along. The first line of a text may move sideways as well
(`Position.shiftFirstLine`), the others can only move down.
-/

namespace Marginalia

/-! ## Maps of positions -/

/-- The map carries every text to its new place, `n` lines further down. -/
structure Position.IsMove (f : Position → Position) (n : ℕ) : Prop where
  line_eq : ∀ p, (f p).line = p.line + n
  advance_eq : ∀ p c, 1 ≤ p.line → f (p.advance c) = (f p).advance c

namespace Position

theorem one_le_line_advance {p : Position} (hp : 1 ≤ p.line) (c : Char) :
    1 ≤ (p.advance c).line := by
  rw [advance]
  split
  · exact Nat.le_succ_of_le hp
  · exact hp

theorem one_le_line_advanceBy {p : Position} (hp : 1 ≤ p.line) (t : Text) :
    1 ≤ (p.advanceBy t).line :=
  hp.trans (line_le (le_advanceBy p t))

/-- The position, `width` columns further to the right if it is on line 1. -/
def shiftFirstLine (width : ℕ) (p : Position) : Position :=
  if p.line = 1 then ⟨1, p.column + width⟩ else p

theorem isMove_shiftFirstLine (width : ℕ) : IsMove (shiftFirstLine width) 0 where
  line_eq p := by
    rw [shiftFirstLine]
    split
    · next h => exact h.symm
    · rfl
  advance_eq p c hp := by
    simp only [advance, shiftFirstLine]
    by_cases hc : c = '\n'
    · simp only [hc, if_true]
      rw [if_neg (by omega)]
      split
      · next h => rw [h]
      · rfl
    · simp only [hc, if_false]
      split
      · rw [Nat.add_right_comm]
      · rfl

theorem line_column_shiftFirstLine (width : ℕ) (p : Position) :
    ⟨p.line, (p.shiftFirstLine width).column⟩ = p.shiftFirstLine width := by
  rw [shiftFirstLine]
  split
  · next h => rw [h]
  · rfl

namespace IsMove

variable {f : Position → Position} {n : ℕ} (hf : IsMove f n) {p : Position} (hp : 1 ≤ p.line)
include hf hp

theorem advanceBy_eq (t : Text) : f (p.advanceBy t) = (f p).advanceBy t := by
  induction t generalizing p with
  | nil => rfl
  | cons c t ih =>
    rw [advanceBy_cons, advanceBy_cons, ih (one_le_line_advance hp c), hf.advance_eq p c hp]

/-- Within a line, columns move as one. -/
theorem column_add (k : ℕ) : f ⟨p.line, p.column + k⟩ = ⟨p.line + n, (f p).column + k⟩ := by
  induction k with
  | zero =>
    rw [← hf.line_eq p]
    rfl
  | succ k ih =>
    have h := hf.advance_eq ⟨p.line, p.column + k⟩ ' ' hp
    rw [ih] at h
    exact h

/-- Below the first line, columns stay. -/
theorem below (k : ℕ) : f ⟨p.line + 1, k⟩ = ⟨p.line + 1 + n, k⟩ := by
  have h := hf.advance_eq p '\n' hp
  have hk := hf.column_add (p := ⟨p.line + 1, 0⟩) (Nat.le_add_left ..) k
  rw [show p.advance '\n' = ⟨p.line + 1, 0⟩ from rfl] at h
  rw [h] at hk
  simpa [advance] using hk

end IsMove

end Position

/-- The token in the place that `f` carries it to. -/
def Token.move (f : Position → Position) (t : Token) : Token :=
  { t with start := f t.start, stop := f t.stop }

/-- The error, `n` lines further down. -/
def LexicalError.moveDown (n : ℕ) : LexicalError → LexicalError
  | unterminatedString l => unterminatedString (l + n)
  | inconsistentDedent l => inconsistentDedent (l + n)
  | unexpectedCharacter l c => unexpectedCharacter (l + n) c
  | unbalancedBracket l c => unbalancedBracket (l + n) c
  | unclosedBracket l => unclosedBracket (l + n)

theorem LexicalError.moveDown_zero (e : LexicalError) : e.moveDown 0 = e := by
  cases e <;> rfl

/-! ## One step of the scanner -/

section Step

variable {l : Layout} {p : Position}

theorem scan_lineStart {t : Text} (hl : l.atLineStart = true) :
    scan l p t =
      (openLine l.indents p (t.takeWhile isInlineSpace) (t.dropWhile isInlineSpace)).bind
        fun (us, indents) =>
          (scan { l with indents, atLineStart := false } (p.advanceBy (t.takeWhile isInlineSpace))
            (t.dropWhile isInlineSpace)).map (us ++ ·) := by
  rw [scan.eq_def, dif_pos hl]
  simp only
  cases openLine l.indents p (t.takeWhile isInlineSpace) (t.dropWhile isInlineSpace) <;> rfl

theorem scan_nil (hl : l.atLineStart = false) : scan l p [] = finish l p := by
  rw [scan.eq_def, dif_neg (by simp [hl])]

theorem scan_cons {c : Char} {r : Text} (hl : l.atLineStart = false) :
    scan l p (c :: r) =
      ((Piece.read c r).mapError (·.at p)).bind fun (k, n) =>
        (place l p (c :: r.take n) k).bind fun (u, l') =>
          (scan l' (p.advanceBy (c :: r.take n)) (r.drop n)).map (u.toList ++ ·) := by
  rw [scan.eq_def, dif_neg (by simp [hl])]
  simp only
  cases Piece.read c r with
  | error e => rfl
  | ok kn =>
    simp only [Except.mapError, Except.bind]
    cases place l p (c :: r.take kn.2) kn.1 <;> rfl

end Step

/-! ## The scanner in another place -/

section Scan

variable {f : Position → Position} {n : ℕ} (hf : Position.IsMove f n) {p : Position}
  (hp : 1 ≤ p.line)
include hf hp

theorem Token.at_move (k : TokenKind) (x : Text) :
    Token.at k x (f p) = (Token.at k x p).move f := by
  rw [Token.at, ← hf.advanceBy_eq hp]
  rfl

theorem openLine_move (indents : List ℕ) (ws rest : Text) :
    openLine indents (f p) ws rest =
      ((openLine indents p ws rest).mapError (·.moveDown n)).map
        (Prod.map (List.map (Token.move f)) id) := by
  simp only [openLine, ← hf.advanceBy_eq hp]
  split
  · rfl
  · split
    · rfl
    · split
      · simp [Except.mapError, Except.map, Token.move]
      · simp [Except.mapError, Except.map, LexicalError.moveDown, hf.line_eq]

omit hp in
theorem depthAfter_move (depth : ℕ) (x : Text) :
    depthAfter depth (f p).line x = (depthAfter depth p.line x).mapError (·.moveDown n) := by
  rw [hf.line_eq]
  fun_cases depthAfter depth p.line x <;>
    simp_all [depthAfter, Except.mapError, LexicalError.moveDown]

theorem place_move (l : Layout) (x : Text) (k : Piece) :
    place l (f p) x k =
      ((place l p x k).mapError (·.moveDown n)).map (Prod.map (Option.map (Token.move f)) id) := by
  cases k with
  | space | continuation => rfl
  | lineBreak =>
    have hstop := hf.column_add hp 1
    rw [← hf.line_eq] at hstop
    simp only [place, ← hstop]
    rfl
  | comment | string | name | number =>
    simp only [place, Token.at_move hf hp]
    rfl
  | op =>
    simp only [place, Token.at_move hf hp, depthAfter_move hf]
    cases depthAfter l.depth p.line x <;> rfl

omit hp in
theorem PieceError.at_move (e : PieceError) : e.at (f p) = (e.at p).moveDown n := by
  cases e <;> simp [PieceError.at, LexicalError.moveDown, hf.line_eq]

omit hp in
theorem finish_move (l : Layout) :
    finish l (f p) = ((finish l p).mapError (·.moveDown n)).map (List.map (Token.move f)) := by
  simp only [finish]
  split
  · simp [Except.mapError, Except.map, LexicalError.moveDown, hf.line_eq]
  · by_cases h : l.inStatement = true <;>
      simp [h, Except.mapError, Except.map, Token.move]

/-- **A text in another place has its tokens there.** -/
theorem scan_move (l : Layout) (t : Text) :
    scan l (f p) t = ((scan l p t).mapError (·.moveDown n)).map (List.map (Token.move f)) := by
  fun_induction scan l p t with
  | case1 l p t hl ws rest e hopen =>
    rw [scan_lineStart hl, openLine_move hf hp, hopen]
    rfl
  | case2 l p t hl ws rest us indents hopen ih =>
    rw [scan_lineStart hl, openLine_move hf hp, hopen, ← hf.advanceBy_eq hp]
    simp only [Except.mapError, Except.map, Except.bind, Prod.map, id]
    rw [ih (Position.one_le_line_advanceBy hp ws)]
    cases scan { l with indents, atLineStart := false } (p.advanceBy ws) rest <;>
      simp [Except.mapError, Except.map]
  | case3 l p hl => rw [scan_nil (by simpa using hl), finish_move hf]
  | case4 l p hl c r e hread =>
    rw [scan_cons (by simpa using hl), hread]
    simp only [PieceError.at_move hf]
    rfl
  | case5 l p hl c r k m hread x e hplace =>
    rw [scan_cons (by simpa using hl), hread]
    simp only [x] at hplace
    simp only [Except.mapError, Except.bind, place_move hf hp, hplace]
    rfl
  | case6 l p hl c r k m hread x u l' hplace ih =>
    rw [scan_cons (by simpa using hl), hread]
    simp only [x] at hplace ih ⊢
    simp only [Except.mapError, Except.bind, place_move hf hp, hplace, ← hf.advanceBy_eq hp]
    simp only [Except.map, Prod.map, id]
    rw [ih (Position.one_le_line_advanceBy hp _)]
    cases scan l' (p.advanceBy (c :: r.take m)) (r.drop m) <;> cases u <;>
      simp [Except.mapError, Except.map]

end Scan

end Marginalia
