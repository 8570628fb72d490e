import Marginalia.Proofs.Token.Tiling
import Marginalia.Standalone

/-!
# Literals between tokens

A literal of a source runs from the start of one token of code to the end of the same or a later
one (`Literal.Runs`). The place where it ends is measured from its text, and comes out as the end
of the last token (`Literal.Runs.exists_tokens`), because code does not end in a carriage return
or a line break (`Literal.ofText_eq`). The standalone literals run from a token to itself
(`Literal.runs_of_mem_standaloneStrings`).
-/

namespace Marginalia

theorem IsCodeText.head?_ne {x : Text} (h : IsCodeText x) (t : Text) :
    (x ++ t).head? ≠ some '\n' := by
  obtain ⟨c, hc, hblank, -⟩ := h.head
  rw [List.head?_append, hc]
  exact fun h => ne_of_isBlankChar hblank (by decide) (Option.some.inj h)

theorem IsCodeText.getLast?_ne {x : Text} (h : IsCodeText x) (t : Text) :
    (t ++ x).getLast? ≠ some '\r' := by
  obtain ⟨c, hc, hblank⟩ := h.last
  rw [List.getLast?_append, hc]
  exact fun h => ne_of_isBlankChar hblank (by decide) (Option.some.inj h)

namespace Literal

/-- The literal runs from the start of the code token at index `i` to the end of the one at index
`j`, and its text is what stands in between. -/
def Runs (source : Text) (ts : List Token) (i j : ℕ) (d : Literal) : Prop :=
  ∃ u v raw, i ≤ j ∧ ts[i]? = some u ∧ ts[j]? = some v ∧ u.kind.isCode = true ∧
    v.kind.isCode = true ∧ Text.StandsAt source raw u.start ∧ u.start.advanceBy raw = v.stop ∧
    d = ofText u.start v.stop.line raw

/-- The literals do not overlap. -/
def Apart (d e : Literal) : Prop := d.stop ≤ e.start ∨ e.stop ≤ d.start

instance : Std.Symm Apart := ⟨fun _ _ h => h.symm⟩

/-- The place where a literal ends is the one behind its last character, unless that is a carriage
return or a line feed. -/
theorem ofText_eq {start : Position} {text : Text} {c : Char} (h : text.getLast? = some c)
    (hc : isBlankChar c = false) :
    ofText start (start.advanceBy text).line text = ⟨start, start.advanceBy text, text⟩ := by
  have hcr : (c == '\r') = false := by
    rw [beq_eq_false_iff_ne]
    exact ne_of_isBlankChar hc (by decide)
  have hlf : c ≠ '\n' := ne_of_isBlankChar hc (by decide)
  have hwidth : Text.trimEnd (· == '\r') (lastLine text) = lastLine text :=
    Text.trimEnd_of_getLast? (getLast?_lastLine h hlf) hcr
  have hline := max_eq_left (Position.line_le (Position.le_advanceBy start text))
  simp only [ofText, hwidth, hline]
  congr 1
  by_cases hmem : '\n' ∈ text
  · rw [if_pos hmem, ← Position.column_advanceBy_of_mem start hmem]
  · rw [if_neg hmem, lastLine_of_notMem hmem, ← Position.column_advanceBy_of_notMem start hmem]

theorem text_shiftFirstLine (width : ℕ) (d : Literal) : (d.shiftFirstLine width).text = d.text := by
  rw [shiftFirstLine]
  split <;> rfl

theorem shiftFirstLine_zero (d : Literal) : d.shiftFirstLine 0 = d := by
  rw [shiftFirstLine]
  split
  · next hstart =>
    obtain ⟨⟨line, column⟩, stop, text⟩ := d
    obtain rfl : line = 1 := hstart
    split
    · next hstop =>
      rw [show stop = ⟨1, stop.column⟩ by rw [← hstop]]
      rfl
    · rfl
  · rfl

section Tokenize

variable {source : Text} {ts : List Token} (ht : tokenize source = .ok ts)
include ht

/-- **A literal starts and ends where its tokens do.** -/
theorem Runs.exists_tokens {i j : ℕ} {d : Literal} (h : d.Runs source ts i j) :
    ∃ u v, i ≤ j ∧ ts[i]? = some u ∧ ts[j]? = some v ∧ u.kind.isCode = true ∧
      v.kind.isCode = true ∧ d.start = u.start ∧ d.stop = v.stop := by
  obtain ⟨u, v, raw, hij, hu, hv, hcu, hcv, ⟨a, b, hab, ha⟩, hraw, rfl⟩ := h
  obtain ⟨a', b', hab', ha', hfits, -⟩ := exists_split_of_tokenize ht hv
  obtain ⟨hstop, hcode⟩ := hfits.stop_eq hcv
  -- the text of the literal ends in the text of the last token
  have hle : Position.origin.advanceBy a ≤ Position.origin.advanceBy a' := by
    rw [ha, ha']
    exact start_le_start ht hu hv hij
  rw [List.append_assoc] at hab hab'
  obtain ⟨m, rfl, hm⟩ := Position.exists_append_of_advanceBy_le (hab.symm.trans hab') hle
  have hm' : u.start.advanceBy m = v.start := by rw [← ha, ← Position.advanceBy_append, ha']
  have hsame : u.start.advanceBy raw = u.start.advanceBy (m ++ v.text) := by
    rw [hraw, hstop, Position.advanceBy_append, hm']
  obtain rfl := Position.eq_of_advanceBy_eq (hm.trans (List.append_assoc ..).symm) hsame
  obtain ⟨c, hlast, hblank⟩ := hcode.last
  have hlast' : (m ++ v.text).getLast? = some c := by
    rw [List.getLast?_append, hlast]
    rfl
  have heq := @ofText_eq u.start (m ++ v.text) c hlast' hblank
  rw [hraw] at heq
  exact ⟨u, v, hij, hu, hv, hcu, hcv, by rw [heq], by rw [heq]⟩

/-- The literal of a token of code. -/
theorem runs_ofToken {i : ℕ} {u : Token} (hu : ts[i]? = some u) (hc : u.kind.isCode = true) :
    (ofToken u).Runs source ts i i := by
  have hmem := List.mem_of_getElem? hu
  exact ⟨u, u, u.text, le_rfl, hu, hu, hc, hc, standsAt_of_mem ht hmem,
    (isCodeText_of_mem ht hmem hc).1.symm, rfl⟩

/-- The place where the literal of a token ends is measured as the end of the token. -/
theorem ofToken_eq {u : Token} (hu : u ∈ ts) (hc : u.kind.isCode = true) :
    ofToken u = ⟨u.start, u.stop, u.text⟩ := by
  obtain ⟨hstop, hcode⟩ := isCodeText_of_mem ht hu hc
  obtain ⟨c, hlast, hblank⟩ := hcode.last
  rw [ofToken, hstop, ofText_eq hlast hblank]

end Tokenize

theorem kind_of_isPlainTripleQuoted {t : Token} (h : t.isPlainTripleQuoted = true) :
    t.kind = .string := by
  simp only [Token.isPlainTripleQuoted, Token.isTripleQuoted, Bool.and_eq_true, beq_iff_eq] at h
  exact h.1.1.1

theorem exists_token_of_mem_standaloneFrom {before : List Token} {found : List Literal}
    {ts : List Token} {d : Literal} (h : d ∈ standaloneFrom before found ts) :
    ∃ u ∈ ts, u.kind = .string ∧ d = ofToken u := by
  induction ts generalizing before found with
  | nil => simp [standaloneFrom] at h
  | cons u ts ih =>
    rw [standaloneFrom] at h
    split at h
    · next hu =>
      rcases List.mem_cons.1 h with rfl | h
      · simp only [Bool.and_eq_true] at hu
        exact ⟨u, List.mem_cons_self, kind_of_isPlainTripleQuoted hu.1.1, rfl⟩
      · obtain ⟨v, hv, h⟩ := ih h
        exact ⟨v, List.mem_cons_of_mem u hv, h⟩
    · obtain ⟨v, hv, h⟩ := ih h
      exact ⟨v, List.mem_cons_of_mem u hv, h⟩

/-- A standalone literal is the literal of one token. -/
theorem runs_of_mem_standaloneStrings {source : Text} {ts : List Token}
    (ht : tokenize source = .ok ts) {d : Literal} (h : d ∈ standaloneStrings ts) :
    ∃ i u, ts[i]? = some u ∧ d = ofToken u ∧ d.Runs source ts i i := by
  obtain ⟨u, hu, hk, rfl⟩ := exists_token_of_mem_standaloneFrom h
  obtain ⟨i, hi⟩ := List.getElem?_of_mem hu
  exact ⟨i, u, hi, rfl, runs_ofToken ht hi (by rw [hk]; rfl)⟩

/-- Every literal that is recorded runs between tokens, if the docstrings do. -/
theorem exists_runs_of_mem {source : Text} {ts : List Token} (ht : tokenize source = .ok ts)
    {ds : List Literal} (hds : ∀ d ∈ ds, ∃ i j, d.Runs source ts i j) {d : Literal}
    (hd : d ∈ standaloneStrings ts ++ ds) : ∃ i j, d.Runs source ts i j := by
  rcases List.mem_append.1 hd with hd | hd
  · obtain ⟨i, -, -, -, hruns⟩ := runs_of_mem_standaloneStrings ht hd
    exact ⟨i, i, hruns⟩
  · exact hds d hd

end Literal

end Marginalia
