import Mathlib.Data.List.Basic
import Mathlib.Data.List.Induction
import Mathlib.Data.Prod.Lex
import Marginalia.Literal

/-!
# Places in a source

Positions are ordered as a source is read: by line, and within a line by column. The position
after a text depends on two things only, the number of its line feeds (`line_advanceBy`) and the
length of its last line (`column_advanceBy_of_mem`), and it never falls behind (`lt_advanceBy`), so
a position belongs to at most one place in a source (`eq_of_advanceBy_eq`).

`Text.StandsAt t x p` says that the characters `x` stand in `t` one after the other from the
position `p` on. Characters that stand there one by one stand there together
(`Text.standsAt_of_getElem?`).
-/

namespace Marginalia

namespace Literal

/-! ## The last line of a text -/

theorem splitAt_of_notMem {t : Text} {sep : Char} (h : sep ∉ t) : Text.splitAt sep t = [t] := by
  induction t with
  | nil => rfl
  | cons c r ih =>
    simp only [List.mem_cons, not_or] at h
    rw [Text.splitAt, if_neg (Ne.symm h.1), ih h.2]

theorem splitAt_append_cons (x y : Text) (sep : Char) :
    Text.splitAt sep (x ++ sep :: y) = Text.splitAt sep x ++ Text.splitAt sep y := by
  induction x with
  | nil => simp [Text.splitAt]
  | cons c r ih =>
    rw [List.cons_append, Text.splitAt, Text.splitAt, ih]
    split
    · rfl
    · cases hs : Text.splitAt sep r with
      | nil => exact absurd hs (Text.splitAt_ne_nil sep r)
      | cons p ps => rfl

theorem lastLine_of_notMem {t : Text} (h : '\n' ∉ t) : lastLine t = t := by
  simp [lastLine, splitAt_of_notMem h]

/-- What stands in front of a line feed is on earlier lines. -/
theorem lastLine_append_lineFeed (x y : Text) : lastLine (x ++ '\n' :: y) = lastLine y := by
  have hy := Text.splitAt_ne_nil '\n' y
  rw [lastLine, lastLine, splitAt_append_cons, List.getLast?_append_of_ne_nil _ hy]

/-- A text with a character in it, cut after the last such character. -/
theorem exists_append_last {sep : Char} {t : Text} (h : sep ∈ t) :
    ∃ x y, t = x ++ sep :: y ∧ sep ∉ y := by
  induction t with
  | nil => simp at h
  | cons c r ih =>
    by_cases hr : sep ∈ r
    · obtain ⟨x, y, rfl, hy⟩ := ih hr
      exact ⟨c :: x, y, rfl, hy⟩
    · obtain rfl : sep = c := by simpa [hr] using h
      exact ⟨[], r, rfl, hr⟩

theorem lastLine_append {x y : Text} (h : '\n' ∉ y) : lastLine (x ++ y) = lastLine x ++ y := by
  by_cases hx : '\n' ∈ x
  · obtain ⟨u, v, rfl, hv⟩ := exists_append_last hx
    rw [List.append_assoc, List.cons_append, lastLine_append_lineFeed, lastLine_append_lineFeed,
      lastLine_of_notMem hv, lastLine_of_notMem (by simp [hv, h])]
  · rw [lastLine_of_notMem hx, lastLine_of_notMem (by simp [hx, h])]

/-- A last character that is no line feed stands on the last line. -/
theorem getLast?_lastLine {t : Text} {c : Char} (h : t.getLast? = some c) (hc : c ≠ '\n') :
    (lastLine t).getLast? = some c := by
  obtain ⟨x, rfl⟩ := List.getLast?_eq_some_iff.1 h
  rw [lastLine_append (by simpa using Ne.symm hc), List.getLast?_concat]

end Literal

namespace Position

/-! ## Order -/

/-- Where a source begins. -/
def origin : Position := ⟨1, 0⟩

instance : LinearOrder Position :=
  LinearOrder.lift' (fun p => toLex (p.line, p.column)) fun p q h => by
    cases p; cases q; simpa using h

theorem le_iff {p q : Position} :
    p ≤ q ↔ p.line < q.line ∨ p.line = q.line ∧ p.column ≤ q.column :=
  Prod.Lex.le_iff

theorem lt_iff {p q : Position} :
    p < q ↔ p.line < q.line ∨ p.line = q.line ∧ p.column < q.column :=
  Prod.Lex.lt_iff

theorem line_le {p q : Position} (h : p ≤ q) : p.line ≤ q.line := by
  rw [le_iff] at h
  omega

/-! ## The position after a text -/

theorem line_advanceBy (p : Position) (t : Text) :
    (p.advanceBy t).line = p.line + List.count '\n' t := by
  induction t generalizing p with
  | nil => rfl
  | cons c r ih =>
    rw [advanceBy_cons, ih, advance]
    by_cases hc : c = '\n'
    · simp only [hc, ↓reduceIte, List.count_cons_self]
      omega
    · simp [hc]

theorem column_advanceBy_of_notMem (p : Position) {t : Text} (h : '\n' ∉ t) :
    (p.advanceBy t).column = p.column + t.length := by
  induction t generalizing p with
  | nil => rfl
  | cons c r ih =>
    simp only [List.mem_cons, not_or] at h
    rw [advanceBy_cons, ih _ h.2, advance, if_neg (Ne.symm h.1), List.length_cons]
    simp only
    omega

theorem column_advanceBy_of_mem (p : Position) {t : Text} (h : '\n' ∈ t) :
    (p.advanceBy t).column = (Literal.lastLine t).length := by
  obtain ⟨x, y, rfl, hy⟩ := Literal.exists_append_last h
  rw [advanceBy_append, advanceBy_cons, column_advanceBy_of_notMem _ hy,
    Literal.lastLine_append_lineFeed, Literal.lastLine_of_notMem hy]
  simp [advance]

theorem line_advanceBy_of_notMem (p : Position) {t : Text} (h : '\n' ∉ t) :
    (p.advanceBy t).line = p.line := by
  rw [line_advanceBy, List.count_eq_zero_of_not_mem h, Nat.add_zero]

theorem line_lt_advanceBy (p : Position) {t : Text} (h : '\n' ∈ t) :
    p.line < (p.advanceBy t).line := by
  have := List.count_pos_iff.2 h
  rw [line_advanceBy]
  omega

theorem le_advanceBy (p : Position) (t : Text) : p ≤ p.advanceBy t := by
  by_cases h : '\n' ∈ t
  · exact le_iff.2 (Or.inl (line_lt_advanceBy p h))
  · rw [le_iff, line_advanceBy_of_notMem p h, column_advanceBy_of_notMem p h]
    omega

theorem lt_advanceBy (p : Position) {t : Text} (ht : t ≠ []) : p < p.advanceBy t := by
  by_cases h : '\n' ∈ t
  · exact lt_iff.2 (Or.inl (line_lt_advanceBy p h))
  · have := List.length_pos_iff.2 ht
    rw [lt_iff, line_advanceBy_of_notMem p h, column_advanceBy_of_notMem p h]
    omega

/-- A position belongs to one place in a text: the text in front of it is determined. -/
theorem eq_of_advanceBy_eq {p : Position} {a b x y : Text} (h : a ++ x = b ++ y)
    (hp : p.advanceBy a = p.advanceBy b) : a = b := by
  rcases List.append_eq_append_iff.1 h with ⟨c, rfl, -⟩ | ⟨c, rfl, -⟩
  · by_contra hne
    have := lt_advanceBy (p.advanceBy a) (t := c) (by rintro rfl; simp at hne)
    rw [← advanceBy_append, hp] at this
    exact lt_irrefl _ this
  · by_contra hne
    have := lt_advanceBy (p.advanceBy b) (t := c) (by rintro rfl; simp at hne)
    rw [← advanceBy_append, ← hp] at this
    exact lt_irrefl _ this

/-- Of two places in a text, the one with the smaller position comes first. -/
theorem exists_append_of_advanceBy_le {p : Position} {a b x y : Text} (h : a ++ x = b ++ y)
    (hp : p.advanceBy a ≤ p.advanceBy b) : ∃ m, b = a ++ m ∧ x = m ++ y := by
  rcases List.append_eq_append_iff.1 h with ⟨c, rfl, rfl⟩ | ⟨c, rfl, rfl⟩
  · exact ⟨c, rfl, rfl⟩
  · obtain rfl : c = [] := by
      by_contra hne
      have := lt_advanceBy (p.advanceBy b) (t := c) hne
      rw [← advanceBy_append] at this
      exact absurd hp (not_le_of_gt this)
    exact ⟨[], by simp, by simp⟩

end Position

namespace Text

/-! ## Characters at a position -/

/-- The characters `x` stand in the text `t` from the position `p` on. -/
def StandsAt (t x : Text) (p : Position) : Prop :=
  ∃ a b, t = a ++ x ++ b ∧ Position.origin.advanceBy a = p

theorem standsAt_iff {t x : Text} {p : Position} : StandsAt t x p ↔
    ∃ n ∈ List.range (t.length + 1), x <+: t.drop n ∧ Position.origin.advanceBy (t.take n) = p := by
  constructor
  · rintro ⟨a, b, rfl, hp⟩
    have hle : a.length ≤ (a ++ x ++ b).length := by
      rw [List.append_assoc, List.length_append]
      exact Nat.le_add_right ..
    refine ⟨a.length, List.mem_range.2 (Nat.lt_succ_of_le hle), ?_, ?_⟩
    · rw [List.append_assoc, List.drop_left]
      exact List.prefix_append ..
    · rwa [List.append_assoc, List.take_left]
  · rintro ⟨n, -, ⟨b, hb⟩, hp⟩
    refine ⟨t.take n, b, ?_, hp⟩
    rw [List.append_assoc, hb, List.take_append_drop]

instance (t x : Text) (p : Position) : Decidable (StandsAt t x p) :=
  decidable_of_iff _ standsAt_iff.symm

theorem StandsAt.char {t x : Text} {p : Position} (h : StandsAt t x p) {i : ℕ} {c : Char}
    (hc : x[i]? = some c) : StandsAt t [c] (p.advanceBy (x.take i)) := by
  obtain ⟨a, b, rfl, rfl⟩ := h
  obtain ⟨hi, rfl⟩ := List.getElem?_eq_some_iff.1 hc
  refine ⟨a ++ x.take i, x.drop (i + 1) ++ b, ?_, Position.advanceBy_append ..⟩
  have hcut : x = x.take i ++ [x[i]] ++ x.drop (i + 1) := by simp
  conv_lhs => rw [hcut]
  simp only [List.append_assoc]

/-- Characters that stand one after the other make up a text that stands there as a whole. -/
theorem standsAt_of_getElem? {t x : Text} {p : Position} (hx : x ≠ [])
    (h : ∀ i c, x[i]? = some c → StandsAt t [c] (p.advanceBy (x.take i))) : StandsAt t x p := by
  induction x using List.reverseRecOn with
  | nil => exact absurd rfl hx
  | append_singleton x c ih =>
    have hlast := h x.length c (by simp)
    rw [List.take_left] at hlast
    by_cases hx' : x = []
    · simpa [hx'] using hlast
    · obtain ⟨a, b, rfl, rfl⟩ := ih hx' fun i d hd => by
        have hi : i < x.length := (List.getElem?_eq_some_iff.1 hd).1
        have := h i d (by rwa [List.getElem?_append_left hi])
        rwa [List.take_append_of_le_length hi.le] at this
      obtain ⟨a', b', ht, hp⟩ := hlast
      rw [← Position.advanceBy_append] at hp
      -- both decompositions of the text stop in front of the last character
      have hcut : a' ++ ([c] ++ b') = a ++ x ++ b := by rw [ht, List.append_assoc]
      obtain rfl := Position.eq_of_advanceBy_eq hcut hp
      exact ⟨a, b', by rw [ht]; simp only [List.append_assoc], rfl⟩

end Text

end Marginalia
