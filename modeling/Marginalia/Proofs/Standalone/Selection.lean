import Mathlib.Data.List.Pairwise
import Marginalia.Proofs.Standalone

/-!
# Which standalone strings are recorded

The strings that stand alone are recorded from first to last, and one that starts on a line of an
earlier one is left out (`covers_eq_false_of_mem_standaloneFrom`). Tokens come in the order of their
lines, so what is recorded reaches over ranges of lines that ascend (`pairwise_standaloneStrings`),
and no line belongs to two literals.

`IsSelection` says which literals these are: the literals of strings that stand alone, each with the
place and the characters of its token, and every such string unless an earlier literal covers its
first line. `isSelection_standaloneStrings` proves this of what is recorded.
-/

namespace Marginalia

/-- The literal that stands where the token does. -/
def Token.literal (u : Token) : Literal :=
  ⟨u.start, u.stop, u.text⟩

/-- The token at index `i` is `u`, a string that may be commentary and stands alone. -/
structure IsCandidate (ts : List Token) (i : ℕ) (u : Token) : Prop where
  getElem?_eq : ts[i]? = some u
  isPlain : u.isPlainTripleQuoted = true
  standsAlone : isStandalone ts i = true

/-- The literals `ss` are selected from the strings that stand alone among `ts`, from first to last,
so that none starts on a line of an earlier one. -/
structure IsSelection (ts : List Token) (ss : List Literal) : Prop where
  /-- Each literal starts behind the last lines of the ones before it. -/
  ascending : ss.Pairwise fun d e => d.stop.line < e.start.line
  exists_candidate : ∀ d ∈ ss, ∃ i u, IsCandidate ts i u ∧ d = u.literal
  mem_iff : ∀ i u, IsCandidate ts i u →
    (u.literal ∈ ss ↔ ∀ d ∈ ss, d.start < u.start → d.covers u.start.line = false)

/-! ## What is left out -/

section StandaloneFrom

variable {before ts : List Token} {found : List Literal}

/-- What is recorded does not start on a line of a literal found before. -/
theorem covers_eq_false_of_mem_standaloneFrom {d e : Literal} (hd : d ∈ found)
    (he : e ∈ standaloneFrom before found ts) : d.covers e.start.line = false := by
  induction ts generalizing before found with
  | nil => simp [standaloneFrom] at he
  | cons v ts ih =>
    rw [standaloneFrom] at he
    split at he
    · next hstands =>
      simp only [Bool.and_eq_true, Bool.not_eq_true', List.any_eq_false] at hstands
      rcases List.mem_cons.1 he with rfl | he
      · exact Bool.eq_false_of_not_eq_true (hstands.1.2 d hd)
      · exact ih (List.mem_cons_of_mem _ hd) he
    · exact ih hd he

theorem pairwise_covers_standaloneFrom (before : List Token) (found : List Literal)
    (ts : List Token) :
    (standaloneFrom before found ts).Pairwise fun d e => d.covers e.start.line = false := by
  induction ts generalizing before found with
  | nil => exact .nil
  | cons v ts ih =>
    rw [standaloneFrom]
    split
    · refine List.pairwise_cons.2 ⟨fun e he => ?_, ih _ _⟩
      exact covers_eq_false_of_mem_standaloneFrom List.mem_cons_self he
    · exact ih _ _

theorem standaloneFrom_sublist (before : List Token) (found : List Literal) (ts : List Token) :
    (standaloneFrom before found ts).Sublist (ts.map .ofToken) := by
  induction ts generalizing before found with
  | nil => exact .slnil
  | cons v ts ih =>
    rw [standaloneFrom, List.map_cons]
    split
    · exact (ih _ _).cons_cons _
    · exact (ih _ _).cons _

/-- A literal that is recorded is that of a string that stands alone. -/
theorem exists_append_of_mem_standaloneFrom {d : Literal}
    (h : d ∈ standaloneFrom before found ts) :
    ∃ pre u post, ts = pre ++ u :: post ∧ u.isPlainTripleQuoted = true ∧
      standsAloneBetween (pre.reverse ++ before) post = true ∧ d = .ofToken u := by
  induction ts generalizing before found with
  | nil => simp [standaloneFrom] at h
  | cons v ts ih =>
    have hrest : ∀ {found'}, d ∈ standaloneFrom (v :: before) found' ts →
        ∃ pre u post, v :: ts = pre ++ u :: post ∧ u.isPlainTripleQuoted = true ∧
          standsAloneBetween (pre.reverse ++ before) post = true ∧ d = .ofToken u := by
      intro found' hmem
      obtain ⟨pre, u, post, rfl, hu, halone, rfl⟩ := ih hmem
      exact ⟨v :: pre, u, post, rfl, hu, by simpa using halone, rfl⟩
    rw [standaloneFrom] at h
    split at h
    · next hv =>
      simp only [Bool.and_eq_true] at hv
      rcases List.mem_cons.1 h with rfl | h
      · exact ⟨[], v, ts, rfl, hv.1.1, hv.2, rfl⟩
      · exact hrest h
    · exact hrest h

/-- A string that stands alone is recorded, or its first line is covered: by a literal found before,
or by that of a token in front of it. -/
theorem mem_standaloneFrom_or (found : List Literal) {pre post : List Token} {u : Token}
    (hu : u.isPlainTripleQuoted = true)
    (halone : standsAloneBetween (pre.reverse ++ before) post = true) :
    .ofToken u ∈ standaloneFrom before found (pre ++ u :: post) ∨
      (∃ d ∈ found, d.covers u.start.line = true) ∨
      ∃ v ∈ pre, v.isPlainTripleQuoted = true ∧ (Literal.ofToken v).covers u.start.line = true ∧
        .ofToken v ∈ standaloneFrom before found (pre ++ u :: post) := by
  induction pre generalizing before found with
  | nil =>
    rw [List.nil_append, standaloneFrom, hu]
    by_cases hfree : (found.any (·.covers u.start.line)) = true
    · exact .inr (.inl (List.any_eq_true.1 hfree))
    · rw [List.reverse_nil, List.nil_append] at halone
      exact .inl (by simp [hfree, halone])
  | cons v pre ih =>
    rw [List.reverse_cons, List.append_assoc, List.singleton_append] at halone
    rw [List.cons_append, standaloneFrom]
    split
    · next hv =>
      simp only [Bool.and_eq_true] at hv
      rcases ih (Literal.ofToken v :: found) halone with
        h | ⟨d, hd, h⟩ | ⟨w, hw, hplain, h, hmem⟩
      · exact .inl (List.mem_cons_of_mem _ h)
      · rcases List.mem_cons.1 hd with rfl | hd
        · exact .inr (.inr ⟨v, List.mem_cons_self, hv.1.1, h, List.mem_cons_self⟩)
        · exact .inr (.inl ⟨d, hd, h⟩)
      · exact .inr (.inr ⟨w, List.mem_cons_of_mem v hw, hplain, h, List.mem_cons_of_mem _ hmem⟩)
    · rcases ih found halone with h | h | ⟨w, hw, h⟩
      · exact .inl h
      · exact .inr (.inl h)
      · exact .inr (.inr ⟨w, List.mem_cons_of_mem v hw, h⟩)

end StandaloneFrom

/-! ## The tokens of a source -/

theorem isCode_of_isPlainTripleQuoted {u : Token} (h : u.isPlainTripleQuoted = true) :
    u.kind.isCode = true := by
  rw [Literal.kind_of_isPlainTripleQuoted h]
  rfl

section Tokenize

variable {source : Text} {ts : List Token} (h : tokenize source = .ok ts)
include h

/-- **What is recorded reaches over ranges of lines that ascend.** -/
theorem pairwise_standaloneStrings :
    (standaloneStrings ts).Pairwise fun d e => d.stop.line < e.start.line := by
  have hstart : ts.Pairwise fun u v => u.start.line ≤ v.start.line := by
    rw [List.pairwise_iff_getElem]
    intro i j hi hj hij
    exact Position.line_le (start_le_start h (List.getElem?_eq_getElem hi)
      (List.getElem?_eq_getElem hj) hij.le)
  have hmap : (ts.map Literal.ofToken).Pairwise fun d e => d.start.line ≤ e.start.line :=
    List.pairwise_map.2 hstart
  have hlines : (standaloneStrings ts).Pairwise fun d e => d.start.line ≤ e.start.line :=
    hmap.sublist (standaloneFrom_sublist [] [] ts)
  refine ((pairwise_covers_standaloneFrom [] [] ts).and hlines).imp fun {d e} hde => ?_
  obtain ⟨hcovers, hle⟩ := hde
  simp only [Literal.covers, hle, decide_true, Bool.true_and, decide_eq_false_iff_not] at hcovers
  omega

theorem eq_or_of_mem_standaloneStrings {d e : Literal} (hd : d ∈ standaloneStrings ts)
    (he : e ∈ standaloneStrings ts) :
    d = e ∨ d.stop.line < e.start.line ∨ e.stop.line < d.start.line := by
  have hsymm : Std.Symm fun d e : Literal =>
      d.stop.line < e.start.line ∨ e.stop.line < d.start.line := ⟨fun _ _ => Or.symm⟩
  have heither : (standaloneStrings ts).Pairwise fun d e =>
      d.stop.line < e.start.line ∨ e.stop.line < d.start.line :=
    (pairwise_standaloneStrings h).imp Or.inl
  by_cases heq : d = e
  · exact .inl heq
  · exact .inr (heither.forall hd he heq)

/-- The place where a literal ends is measured as the end of its token. -/
theorem ofToken_eq_literal {u : Token} (hu : u ∈ ts) (hplain : u.isPlainTripleQuoted = true) :
    .ofToken u = u.literal :=
  Literal.ofToken_eq h hu (isCode_of_isPlainTripleQuoted hplain)

/-- A string in front of a token starts before it. -/
theorem start_lt_of_mem {pre post : List Token} {u v : Token} (hts : ts = pre ++ u :: post)
    (hv : v ∈ pre) (hplain : v.isPlainTripleQuoted = true) : v.start < u.start := by
  obtain ⟨x, y, rfl⟩ := List.append_of_mem hv
  have hts' : ts = x ++ v :: (y ++ u :: post) := hts.trans (List.append_assoc ..)
  have hle : v.start ≤ u.start :=
    start_le_start h (getElem?_length_of_eq_append hts') (getElem?_length_of_eq_append hts)
      (by simp)
  exact lt_of_le_of_ne hle
    (start_ne_of_mem h hts' (isCode_of_isPlainTripleQuoted hplain) (by simp)).symm

/-- **What is recorded is the selection** of the strings that stand alone, from first to last. -/
theorem isSelection_standaloneStrings : IsSelection ts (standaloneStrings ts) where
  ascending := pairwise_standaloneStrings h
  exists_candidate d hd := by
    obtain ⟨pre, u, post, rfl, hplain, halone, rfl⟩ := exists_append_of_mem_standaloneFrom hd
    rw [List.append_nil, ← isStandalone_append_cons pre post u] at halone
    exact ⟨_, u, ⟨getElem?_length_of_eq_append rfl, hplain, halone⟩,
      ofToken_eq_literal h (by simp) hplain⟩
  mem_iff i u hu := by
    have hmem := List.mem_of_getElem? hu.getElem?_eq
    constructor
    · intro hrec d hd hlt
      have hstop : u.start ≤ u.stop := by
        rw [(isCodeText_of_mem h hmem (isCode_of_isPlainTripleQuoted hu.isPlain)).1]
        exact Position.le_advanceBy ..
      have hle := (Position.line_le hlt.le).trans (Position.line_le hstop)
      rcases eq_or_of_mem_standaloneStrings h hd hrec with rfl | hbefore | hbehind
      · exact absurd hlt (lt_irrefl _)
      · change d.stop.line < u.start.line at hbefore
        rw [Literal.covers, decide_eq_false (Nat.not_le.2 hbefore), Bool.and_false]
      · exact absurd hle (Nat.not_le.2 hbehind)
    · intro hfree
      obtain ⟨pre, post, rfl, rfl⟩ := exists_append_of_getElem? hu.getElem?_eq
      have halone := hu.standsAlone
      rw [isStandalone_append_cons, ← List.append_nil pre.reverse] at halone
      rw [← ofToken_eq_literal h hmem hu.isPlain]
      rcases mem_standaloneFrom_or [] hu.isPlain halone with
        hrec | ⟨d, hd, -⟩ | ⟨v, hv, hplain, hcovers, hrec⟩
      · exact hrec
      · simp at hd
      · -- the literal of a token in front starts before, and does not cover the line
        have hlt : v.start < u.start := start_lt_of_mem h rfl hv hplain
        exact absurd hcovers (by rw [hfree _ hrec hlt]; exact Bool.false_ne_true)

end Tokenize

/-- Three strings, each of which starts on the last line of the one before it. -/
def sharedLines : Text := "'''a\n'''; '''b\n'''; '''c'''\n".toList

/-- The tokens of `sharedLines`. -/
def sharedLineTokens : List Token :=
  [.at .string "'''a\n'''".toList ⟨1, 0⟩, .at .op [';'] ⟨2, 3⟩,
   .at .string "'''b\n'''".toList ⟨2, 5⟩, .at .op [';'] ⟨3, 3⟩, .at .string "'''c'''".toList ⟨3, 5⟩,
   ⟨.newline, ['\n'], ⟨3, 12⟩, ⟨3, 13⟩⟩, .at .endMarker [] ⟨4, 0⟩]

theorem tokenize_sharedLines : tokenize sharedLines = .ok sharedLineTokens := by
  decide +kernel

/-- Of the three strings, the second one is left out. -/
theorem isSelection_standaloneStrings_sharedLines :
    (tokenize sharedLines = .ok sharedLineTokens ∧ standaloneStrings sharedLineTokens =
      [⟨⟨1, 0⟩, ⟨2, 3⟩, "'''a\n'''".toList⟩, ⟨⟨3, 5⟩, ⟨3, 12⟩, "'''c'''".toList⟩]) ∧
    IsSelection sharedLineTokens (standaloneStrings sharedLineTokens) :=
  ⟨⟨tokenize_sharedLines, by decide +kernel⟩, isSelection_standaloneStrings tokenize_sharedLines⟩

end Marginalia
