import Marginalia.Proofs.Rewrite.Comments
import Marginalia.Proofs.Rewrite.Pieces

/-!
# Lines that are all commentary

When commentary takes up a whole line (`fillsLine`), nothing of the line stays but a byte order mark
at its beginning (`lineText_strip`). The mark of a source has to stay, and on its first line it
does. Every other line should become empty (`IsCleared`), and a comment behind white space always
leaves its line so.

But a mark is kept on whatever line it stands. A string over several lines may have one at the
beginning of a later line, and a line that is read without tokens may begin with one. So all lines
of commentary are cleared exactly if none but the first begins with a mark
(`strip_clearsLines_iff`), and a string is enough to break this (`not_strip_clearsLines`).
-/

namespace Marginalia

/-- Whether the note takes up its line: it is a comment behind characters that do not show, or it is
part of a literal that goes. -/
def fillsLine (lines : List Line) (e : ℕ × Note) : Bool :=
  if e.2.kind.isString then e.2.extent.any (isRemovable lines)
  else isBlank ((lineText lines e.1).take e.2.column)

/-- Nothing is left on line `n` of the stripped source but the byte order mark that the source
begins with. -/
def IsCleared (parse : Parser) (source : Text) (n : ℕ) : Prop :=
  lineText (splitLines (strip parse source).content) n =
    if n = 1 ∧ source.head? = some byteOrderMark then [byteOrderMark] else []

instance (parse : Parser) (source : Text) (n : ℕ) : Decidable (IsCleared parse source n) :=
  inferInstanceAs (Decidable (_ = _))

/-! ## What stays of a line -/

theorem blanked_eq (t : Text) :
    blanked t = if t.head? = some byteOrderMark then [byteOrderMark] else [] := by
  cases t with
  | nil => rfl
  | cons c r => simp [blanked]

/-- A line with a note that takes it up is emptied, whether or not quotes are verified. -/
theorem rewriteLine_of_fillsLine {lines : List Line} {verify : Bool} {e : ℕ × Note}
    (h : fillsLine lines e = true) :
    rewriteLine lines verify (lineText lines e.1) e.2 = blanked (lineText lines e.1) := by
  rw [fillsLine] at h
  cases hk : e.2.kind.isString with
  | true =>
    rw [hk, if_pos rfl] at h
    obtain ⟨x, hx, hrem⟩ := (Option.any_eq_true ..).1 h
    exact rewriteLine_of_removable hk hx hrem
  | false =>
    rw [hk, if_neg Bool.false_ne_true] at h
    simp [rewriteLine, hk, h]

section Strip

variable {parse : Parser} {source : Text} {e : ℕ × Note}
  (he : e ∈ (analyze parse source).notes.toList)
include he

/-- **What stays of a line that is all commentary** is a byte order mark at its beginning. -/
theorem lineText_strip (h : fillsLine (splitLines source) e = true) :
    lineText (splitLines (strip parse source).content) e.1 =
      if (lineText (splitLines source) e.1).head? = some byteOrderMark then [byteOrderMark]
      else [] := by
  rw [strip, lineText_rewrite]
  split
  · next hn => rw [lineText_eq_nil hn]; rfl
  · rw [rewrittenText, Notes.get?_eq_some_iff.2 he, ← blanked_eq]
    exact rewriteLine_of_fillsLine h

theorem isCleared_iff (h : fillsLine (splitLines source) e = true) :
    IsCleared parse source e.1 ↔
      (e.1 ≠ 1 → (lineText (splitLines source) e.1).head? ≠ some byteOrderMark) := by
  rw [IsCleared, lineText_strip he h]
  by_cases hn : e.1 = 1
  · -- the first line begins as the source does
    have hsame : (lineText (splitLines source) e.1).head? = some byteOrderMark ↔
        source.head? = some byteOrderMark := by
      rw [hn]
      refine ⟨head?_of_lineText_one, fun h => ?_⟩
      obtain ⟨r, rfl⟩ := List.head?_eq_some_iff.1 h
      rw [← firstLine, firstLine_cons (by decide) (by decide)]
      rfl
    simp [hn, ← hsame]
  · simp [hn]

/-- A line with a comment behind white space does not begin with a mark. -/
theorem head?_ne_of_comment (hk : e.2.kind = .comment)
    (hspace : ((lineText (splitLines source) e.1).take e.2.column).all isSpace = true) :
    (lineText (splitLines source) e.1).head? ≠ some byteOrderMark := by
  intro hhead
  obtain ⟨r, hr⟩ := List.head?_eq_some_iff.1 hhead
  have hsign := ((isFaithful_analyze parse source).comment _ _ (Notes.get?_eq_some_iff.2 he)
    (NoteKind.isString_eq_false_iff.2 hk)).1
  rw [hr] at hsign hspace
  cases hcolumn : e.2.column with
  | zero => simp [hcolumn, byteOrderMark] at hsign
  | succ k =>
    rw [hcolumn, List.take_succ_cons, List.all_cons] at hspace
    exact absurd (Bool.and_eq_true_iff.1 hspace).1 (by decide)

end Strip

/-- **All lines of commentary are cleared exactly if none but the first begins with a byte order
mark.** What stays of them in any case is that mark alone, and never one where a comment stands
behind white space. -/
theorem strip_clearsLines_iff (parse : Parser) (source : Text) :
    ((∀ e ∈ (analyze parse source).notes.toList, fillsLine (splitLines source) e = true →
        IsCleared parse source e.1) ↔
      ∀ e ∈ (analyze parse source).notes.toList, fillsLine (splitLines source) e = true → e.1 ≠ 1 →
        (lineText (splitLines source) e.1).head? ≠ some byteOrderMark) ∧
    (∀ e ∈ (analyze parse source).notes.toList, fillsLine (splitLines source) e = true →
      lineText (splitLines (strip parse source).content) e.1 =
        if (lineText (splitLines source) e.1).head? = some byteOrderMark then [byteOrderMark]
        else []) ∧
    ∀ e ∈ (analyze parse source).notes.toList, e.2.kind = .comment →
      ((lineText (splitLines source) e.1).take e.2.column).all isSpace = true →
        IsCleared parse source e.1 := by
  refine ⟨⟨fun h e he hfills => (isCleared_iff he hfills).1 (h e he hfills),
    fun h e he hfills => (isCleared_iff he hfills).2 (h e he hfills)⟩,
    fun e he hfills => lineText_strip he hfills, fun e he hk hspace => ?_⟩
  have hfills : fillsLine (splitLines source) e = true := by
    rw [fillsLine, hk, if_neg (by decide), isBlank]
    refine List.all_eq_true.2 fun c hc => ?_
    rw [isBlankChar, List.all_eq_true.1 hspace c hc, Bool.true_or]
  exact (isCleared_iff he hfills).2 fun _ => head?_ne_of_comment he hk hspace

/-- A literal with a byte order mark at the front of its second line. -/
def markedLine : Text := "\"\"\"a\n\ufeffb\"\"\"\n".toList

/-- A parser that knows `markedLine`. -/
def parseMarkedLine : Parser := .ofTable
  [(markedLine, .named "module" ⟨0, 0⟩ ⟨13, 2⟩ [.stringStatement 3 ⟨0, 0⟩ ⟨12, 1⟩])]

/-- The second line of the string goes, but the mark at its beginning stays. -/
theorem not_strip_clearsLines : ¬ ∀ parse : Parser, parse.IsSound → ∀ source,
    ∀ e ∈ (analyze parse source).notes.toList,
      (e.2.kind = .comment ∧
          ((lineText (splitLines source) e.1).take e.2.column).all isSpace = true ∨
        e.2.extent.any (isRemovable (splitLines source)) = true) → IsCleared parse source e.1 := by
  intro h
  have := h parseMarkedLine (Parser.isSound_ofTable (by decide +kernel)) markedLine
  revert this
  decide +kernel

end Marginalia
