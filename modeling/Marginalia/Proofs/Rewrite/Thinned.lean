import Marginalia.Proofs.Rewrite.Lines
import Marginalia.Proofs.Token.Cut

/-!
# A rewritten source, character by character

What rewriting leaves of a source is the source without some of its characters: of each line, those
from the end of what stays to the end of its text (`Stays`). So the part of the result that stems
from a part of the source is known from the place of that part alone (`thinned`), and the result is
the whole source thinned, with a line break at its end if the last line has none and is emptied
(`exists_content_rewrite`).

Behind the end of what stays of a line, the thinned text goes on with the end of the line
(`endsLine_thinned`), so that a thinned text is always the text itself with its line cut
(`isCutOf_thinned`).
-/

namespace Marginalia

section Thinned

variable (old new : List Line)

/-- The character at `p` stays when the lines `old` become the lines `new`. -/
def Stays (p : Position) : Prop :=
  p.column < (lineText new p.line).length ∨ (lineText old p.line).length ≤ p.column

instance : DecidablePred (Stays old new) := fun _ => instDecidableOr

/-- The characters that stay of the text, which stands at `p`. -/
def thinned (p : Position) : Text → Text
  | [] => []
  | c :: t =>
    if Stays old new p then c :: thinned (p.advance c) t else thinned (p.advance c) t

theorem thinned_append (p : Position) (x t : Text) :
    thinned old new p (x ++ t) = thinned old new p x ++ thinned old new (p.advanceBy x) t := by
  induction x generalizing p with
  | nil => rfl
  | cons c x ih =>
    rw [List.cons_append, thinned, thinned, ih, Position.advanceBy_cons]
    split <;> rfl

theorem thinned_sublist (p : Position) (x : Text) : (thinned old new p x).Sublist x := by
  induction x generalizing p with
  | nil => exact List.Sublist.refl []
  | cons c x ih =>
    rw [thinned]
    split
    · exact (ih _).cons_cons c
    · exact (ih _).cons c

variable {old new}

theorem thinned_eq_self {p : Position} {x : Text}
    (h : ∀ y c z, x = y ++ c :: z → Stays old new (p.advanceBy y)) : thinned old new p x = x := by
  induction x generalizing p with
  | nil => rfl
  | cons c x ih =>
    have hc : Stays old new p := h [] c x rfl
    rw [thinned, if_pos hc, ih]
    rintro y d z rfl
    exact h (c :: y) d z rfl

theorem thinned_eq_nil {p : Position} {x : Text}
    (h : ∀ y c z, x = y ++ c :: z → ¬ Stays old new (p.advanceBy y)) :
    thinned old new p x = [] := by
  induction x generalizing p with
  | nil => rfl
  | cons c x ih =>
    have hc : ¬ Stays old new p := h [] c x rfl
    rw [thinned, if_neg hc, ih]
    rintro y d z rfl
    exact h (c :: y) d z rfl

theorem stays_advanceBy_iff {p : Position} {y : Text} (hy : '\n' ∉ y) :
    Stays old new (p.advanceBy y) ↔ p.column + y.length < (lineText new p.line).length ∨
      (lineText old p.line).length ≤ p.column + y.length := by
  rw [Stays, Position.line_advanceBy_of_notMem p hy, Position.column_advanceBy_of_notMem p hy]

/-- What stays of a line. -/
theorem thinned_chars {l : Line} (hl : l.IsSound) {n : ℕ} (hold : lineText old n = l.text)
    (hnew : lineText new n <+: l.text) :
    thinned old new ⟨n, 0⟩ l.chars = lineText new n ++ l.terminator.text := by
  have hlf : ∀ y c z, l.chars = y ++ c :: z → '\n' ∉ y :=
    fun y c z h => lineFeed_notMem_of_chars hl h
  obtain ⟨gone, hgone⟩ := hnew
  have htext := congrArg List.length hgone
  rw [List.length_append] at htext
  rw [Line.chars, ← hgone, thinned_append, thinned_append, thinned_eq_self, thinned_eq_nil,
    thinned_eq_self, List.append_nil]
  · intro y c z hy
    rw [← Position.advanceBy_append, hgone, stays_advanceBy_iff, hold, List.length_append]
    · right
      simp only
      omega
    · refine hlf _ c z ?_
      rw [Line.chars, hy, List.append_assoc]
  · intro y c z hy
    rw [← Position.advanceBy_append, stays_advanceBy_iff, hold, List.length_append]
    · rw [hy, List.length_append, List.length_cons] at htext
      simp only
      omega
    · refine hlf _ c (z ++ l.terminator.text) ?_
      rw [Line.chars, ← hgone, hy]
      simp only [List.append_assoc, List.cons_append]
  · intro y c z hy
    rw [stays_advanceBy_iff]
    · left
      rw [hy, List.length_append, List.length_cons]
      simp only
      omega
    · refine hlf _ c (z ++ gone ++ l.terminator.text) ?_
      rw [Line.chars, ← hgone]
      conv_lhs => rw [hy]
      simp only [List.append_assoc, List.cons_append]

end Thinned

/-! ## The whole source -/

theorem exists_joinLines_rewriteLines {old new : List Line} {ns : Notes} {verify : Bool} {i : ℕ}
    {previous : Terminator} {ls : List Line} (h : IsSplit ls) (hold : old.drop i = ls)
    (hnew : new.drop i = rewriteLines old ns verify (i + 1) previous ls) :
    ∃ e : Terminator,
      joinLines (new.drop i) = thinned old new ⟨i + 1, 0⟩ (joinLines ls) ++ e.text := by
  induction ls generalizing i previous with
  | nil =>
    refine ⟨.none, ?_⟩
    rw [hnew]
    rfl
  | cons l ls ih =>
    obtain ⟨hl, hlast, hls⟩ := h
    rw [rewriteLines] at hnew
    have hold' : lineText old (i + 1) = l.text := by
      rw [lineText, ← List.head?_drop, hold]
      rfl
    have hnew' : lineText new (i + 1) = rewrittenText old ns verify (i + 1) l.text := by
      rw [lineText, ← List.head?_drop, hnew]
      rfl
    have hchars := thinned_chars hl hold' (hnew' ▸ rewrittenText_isPrefix ..)
    rw [hnew, joinLines_cons, joinLines_cons, thinned_append, hchars, hnew', Line.chars]
    by_cases hterm : l.terminator = .none
    · obtain rfl : ls = [] := not_imp_not.1 hlast hterm
      refine ⟨keptTerminator previous l.terminator (rewrittenText old ns verify (i + 1) l.text), ?_⟩
      simp [hterm, Terminator.text, rewriteLines, joinLines, thinned]
    · have hdrop : old.drop (i + 1) = ls := by
        rw [← List.tail_drop, hold, List.tail_cons]
      have hdrop' : new.drop (i + 1) = rewriteLines old ns verify (i + 1 + 1) l.terminator ls := by
        rw [← List.tail_drop, hnew, List.tail_cons]
      obtain ⟨e, he⟩ := ih hls hdrop hdrop'
      refine ⟨e, ?_⟩
      rw [keptTerminator, if_neg fun hk => hterm hk.1, advanceBy_chars hl hterm, ← hdrop', he]
      simp only [List.append_assoc]

/-- **A rewritten source is the source thinned**, perhaps with a line break behind it. -/
theorem exists_content_rewrite (source : Text) (ns : Notes) (verify : Bool) :
    ∃ e : Terminator, (rewrite source ns verify).content =
      thinned (splitLines source) (splitLines (rewrite source ns verify).content) .origin source ++
        e.text := by
  have h := exists_joinLines_rewriteLines (i := 0) (isSplit_splitLines source) rfl
    (splitLines_rewrite source ns verify)
  rwa [List.drop_zero, joinLines_splitLines, joinLines_splitLines] at h

/-! ## Behind the end of what stays of a line -/

/-- A character of the text of a line is no line feed, and behind it there are only line breaks. -/
theorem of_standsAt {t : Text} {c : Char} {p : Position} (h : Text.StandsAt t [c] p) :
    (p.column < (lineText (splitLines t) p.line).length → c ≠ '\n') ∧
      ((lineText (splitLines t) p.line).length ≤ p.column → c = '\r' ∨ c = '\n') := by
  obtain ⟨i, l, hline, hl, hc⟩ := exists_line_of_standsAt h
  have hsound := (isSplit_splitLines t).isSound (List.mem_of_getElem? hl)
  have htext : lineText (splitLines t) p.line = l.text := by
    rw [hline, lineText, hl]
    rfl
  rw [htext]
  constructor
  · rintro hlt rfl
    rw [Line.chars, List.getElem?_append_left hlt] at hc
    exact hsound.lineFeed_notMem (List.mem_of_getElem? hc)
  · intro hle
    rw [Line.chars, List.getElem?_append_right hle] at hc
    have hmem := List.mem_of_getElem? hc
    cases hterm : l.terminator <;> simp_all [Terminator.text]

theorem Position.advance_of_ne {p : Position} {c : Char} (hc : c ≠ '\n') :
    p.advance c = ⟨p.line, p.column + 1⟩ := if_neg hc

section Source

variable {source pre t : Text} {new : List Line} {e : Terminator}

/-- A line feed always stays. -/
theorem stays_lineFeed (h : source = pre ++ '\n' :: t) :
    Stays (splitLines source) new (Position.origin.advanceBy pre) := by
  obtain ⟨hin, -⟩ := of_standsAt (t := source) (c := '\n') (p := Position.origin.advanceBy pre)
    ⟨pre, t, by rw [h]; simp, rfl⟩
  exact Or.inr (not_lt.1 fun hlt => hin hlt rfl)

theorem thinned_lineFeed (h : source = pre ++ '\n' :: t) :
    thinned (splitLines source) new (Position.origin.advanceBy pre) ['\n'] = ['\n'] := by
  rw [thinned, if_pos (stays_lineFeed h), thinned]

/-- No line is lost. -/
theorem count_thinned {x : Text} (h : source = pre ++ x ++ t) :
    List.count '\n' (thinned (splitLines source) new (Position.origin.advanceBy pre) x) =
      List.count '\n' x := by
  induction x generalizing pre with
  | nil => rfl
  | cons c x ih =>
    have ih := @ih (pre ++ [c]) (by rw [h]; simp)
    rw [Position.advanceBy_append, Position.advanceBy_cons, Position.advanceBy_nil] at ih
    rw [thinned]
    by_cases hc : c = '\n'
    · subst hc
      rw [if_pos (stays_lineFeed (t := x ++ t) (by rw [h]; simp)), List.count_cons_self,
        List.count_cons_self, ih]
    · split
      · rw [List.count_cons_of_ne hc, List.count_cons_of_ne hc, ih]
      · rw [List.count_cons_of_ne hc, ih]

/-- **Behind what stays of a line the line ends.** -/
theorem endsLine_thinned (h : source = pre ++ t) (hcut : (lineText new
    (Position.origin.advanceBy pre).line).length ≤ (Position.origin.advanceBy pre).column) :
    EndsLine (thinned (splitLines source) new (Position.origin.advanceBy pre) t ++ e.text) := by
  induction t generalizing pre with
  | nil => exact endsLine_terminator e
  | cons c t ih =>
    obtain ⟨-, hout⟩ := of_standsAt (t := source) (c := c) (p := Position.origin.advanceBy pre)
      ⟨pre, t, by rw [h]; simp, rfl⟩
    have ih := @ih (pre ++ [c]) (by rw [h]; simp)
    rw [Position.advanceBy_append, Position.advanceBy_cons, Position.advanceBy_nil] at ih
    by_cases hc : c = '\n'
    · subst hc
      rw [thinned, if_pos (stays_lineFeed h)]
      exact endsLine_lineFeed_cons _
    · rw [Position.advance_of_ne hc] at ih
      have ih := ih (Nat.le_succ_of_le hcut)
      rw [thinned, Position.advance_of_ne hc]
      split
      · next hstays =>
        obtain rfl := (hout (hstays.resolve_left (not_lt.2 hcut))).resolve_right hc
        exact ih.carriageReturn_cons
      · exact ih

/-- **A thinned text is the text with its line cut.** -/
theorem isCutOf_thinned (h : source = pre ++ t) :
    IsCutOf (thinned (splitLines source) new (Position.origin.advanceBy pre) t ++ e.text) t := by
  induction t generalizing pre with
  | nil => exact (endsLine_terminator e).isCutOf []
  | cons c t ih =>
    by_cases hcut : (Position.origin.advanceBy pre).column <
        (lineText new (Position.origin.advanceBy pre).line).length
    · have ih := @ih (pre ++ [c]) (by rw [h]; simp)
      rw [Position.advanceBy_append, Position.advanceBy_cons, Position.advanceBy_nil] at ih
      have hstays : Stays (splitLines source) new (Position.origin.advanceBy pre) := Or.inl hcut
      rw [thinned, if_pos hstays]
      exact ih.cons c
    · exact (endsLine_thinned h (not_lt.1 hcut)).isCutOf _

/-- Nothing stays of the text, which stands at `p`, but line breaks. -/
def IsDropped (new : List Line) (p : Position) (x : Text) : Prop :=
  ∀ y z, x = y ++ z → (lineText new (p.advanceBy y).line).length ≤ (p.advanceBy y).column

theorem isDropped_of_notMem {p : Position} {x : Text} (hx : '\n' ∉ x)
    (hcut : (lineText new p.line).length ≤ p.column) : IsDropped new p x := by
  intro y z hyz
  have hy : '\n' ∉ y := fun hy => hx (hyz ▸ List.mem_append_left z hy)
  rw [Position.line_advanceBy_of_notMem _ hy, Position.column_advanceBy_of_notMem _ hy]
  exact hcut.trans (Nat.le_add_right ..)

theorem eq_or_of_mem_thinned {x : Text} (h : source = pre ++ x ++ t)
    (hx : IsDropped new (Position.origin.advanceBy pre) x) {c : Char}
    (hc : c ∈ thinned (splitLines source) new (Position.origin.advanceBy pre) x) :
    c = '\r' ∨ c = '\n' := by
  induction x generalizing pre with
  | nil => simp [thinned] at hc
  | cons d x ih =>
    have hcut := hx [] (d :: x) rfl
    have ih := @ih (pre ++ [d]) (by rw [h]; simp)
    rw [Position.advanceBy_append, Position.advanceBy_cons, Position.advanceBy_nil] at ih
    have ih := ih fun y z hyz => hx (d :: y) z (by rw [hyz]; rfl)
    rw [thinned] at hc
    split at hc
    · next hstays =>
      rcases List.mem_cons.1 hc with rfl | hc
      · exact (of_standsAt ⟨pre, x ++ t, by rw [h]; simp, rfl⟩).2
          (hstays.resolve_left (not_lt.2 hcut))
      · exact ih hc
    · exact ih hc

/-- **What is dropped is of no account to the scanner**, wherever it stands. -/
theorem accepts_thinned_iff_of_isDropped {x : Text} (h : source = pre ++ x ++ t)
    (hx : IsDropped new (Position.origin.advanceBy pre) x) {l : Layout}
    (hl : l.atLineStart = false) :
    Accepts l (thinned (splitLines source) new (Position.origin.advanceBy pre) (x ++ t) ++ e.text) ↔
      Accepts l (thinned (splitLines source) new (Position.origin.advanceBy (pre ++ x)) t ++
        e.text) := by
  rw [thinned_append, ← Position.advanceBy_append, List.append_assoc]
  refine accepts_lineBreaks_append_iff hl (fun c => eq_or_of_mem_thinned h hx) ?_
  refine endsLine_thinned h ?_
  have hend := hx x [] (List.append_nil x).symm
  rwa [← Position.advanceBy_append] at hend

end Source

end Marginalia
