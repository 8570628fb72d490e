import Marginalia.Proofs.Literal
import Marginalia.Proofs.Rewrite.Lines

/-!
# Literals that must stay

A literal goes only if no code shares a line with its ends. Here the two tests that decide this on
the characters of the lines are tied to the tokens: code before the literal that ends on its first
line makes it stay (`isRemovable_of_code_before`), and so does code after it that starts on its
last line (`isRemovable_of_code_after`). So two literals that have a line in common both stay
(`isRemovable_of_shared`), unless tokens of one belong to the other.
-/

namespace Marginalia

/-! ## Characters -/

theorem isRemovable_of_mem_take {lines : List Line} {e : Extent} {c : Char}
    (h : c ∈ (lineText lines e.start.line).take e.start.column) (hc : isBlankChar c = false) :
    isRemovable lines e = false := by
  have hblank : isBlank ((lineText lines e.start.line).take e.start.column) = false := by
    rw [isBlank, List.all_eq_false]
    exact ⟨c, h, by simp [hc]⟩
  rw [isRemovable, hblank, Bool.false_and]

theorem isRemovable_of_drop_eq {lines : List Line} {e : Extent} {x y : Text} {c : Char}
    (h : (lineText lines e.stop.line).drop e.stop.column = x ++ c :: y)
    (hx : ∀ d ∈ x, isSpace d = true) (hc : isSpace c = false) (hs : c ≠ '#') :
    isRemovable lines e = false := by
  have hhead := Text.head?_trim (t := y) hx hc
  rw [← h] at hhead
  obtain ⟨z, hz⟩ := List.head?_eq_some_iff.1 hhead
  simp [isRemovable, hz, hs]

/-! ## Lines -/

/-- A literal that does not go stays on all its lines. -/
theorem rewriteLine_of_not_removable {lines : List Line} {verify : Bool} {line : Text}
    {note : Note} {e : Extent} (hkind : note.kind.isString = true) (he : note.extent = some e)
    (h : isRemovable lines e = false) : rewriteLine lines verify line note = line := by
  simp [rewriteLine, hkind, he, h]

/-- A literal that goes leaves its lines empty. -/
theorem rewriteLine_of_removable {lines : List Line} {verify : Bool} {line : Text}
    {note : Note} {e : Extent} (hkind : note.kind.isString = true) (he : note.extent = some e)
    (h : isRemovable lines e = true) : rewriteLine lines verify line note = blanked line := by
  simp [rewriteLine, hkind, he, h]

/-! ## Tokens -/

section Tokenize

variable {source : Text} {ts : List Token} (ht : tokenize source = .ok ts)
include ht

theorem isRemovable_of_code_before {i j : ℕ} {u v : Token} (hu : ts[i]? = some u)
    (hv : ts[j]? = some v) (hcu : u.kind.isCode = true) (hcv : v.kind.isCode = true)
    (hij : i < j) (hline : u.stop.line = v.start.line) {e : Extent} (he : e.start = v.start) :
    isRemovable (splitLines source) e = false := by
  obtain ⟨a, b, hab, ha, hfits, -⟩ := exists_split_of_tokenize ht hu
  obtain ⟨a', b', hab', ha', hfits', -⟩ := exists_split_of_tokenize ht hv
  obtain ⟨hstop, hcode⟩ := hfits.stop_eq hcu
  have hcode' := (hfits'.stop_eq hcv).2
  have hend : Position.origin.advanceBy (a ++ u.text) = u.stop := by
    rw [Position.advanceBy_append, ha, hstop]
  -- between the two tokens the line does not end
  obtain ⟨m, rfl, -⟩ := Position.exists_append_of_advanceBy_le (a := a ++ u.text) (b := a')
    (hab.symm.trans (hab'.trans (List.append_assoc ..))) (by
      rw [hend, ha', hstop]
      exact advanceBy_text_le_start ht hu hv hij)
  have hm : '\n' ∉ m := fun hmem => by
    have := Position.line_lt_advanceBy u.stop hmem
    rw [← hend, ← Position.advanceBy_append, ha', hend] at this
    omega
  obtain ⟨c, hlast, hblank⟩ := hcode.last
  have hlf : c ≠ '\n' := ne_of_isBlankChar hblank (by decide)
  have htake := take_lineText (hab'.trans (List.append_assoc ..)) fun _ => hcode'.head?_ne b'
  rw [ha', ← he, Literal.lastLine_append hm] at htake
  refine isRemovable_of_mem_take (c := c) ?_ hblank
  rw [htake]
  refine List.mem_append_left _ (List.mem_of_getLast? (Literal.getLast?_lastLine ?_ hlf))
  rw [List.getLast?_append, hlast]
  rfl

theorem isRemovable_of_code_after {i j : ℕ} {u v : Token} (hu : ts[i]? = some u)
    (hv : ts[j]? = some v) (hcu : u.kind.isCode = true) (hcv : v.kind.isCode = true)
    (hij : i < j) (hline : v.start.line = u.stop.line) {e : Extent} (he : e.stop = u.stop) :
    isRemovable (splitLines source) e = false := by
  obtain ⟨a, b, hab, ha, hfits, hb⟩ := exists_split_of_tokenize ht hu
  obtain ⟨hstop, hcode⟩ := hfits.stop_eq hcu
  rw [← hstop] at hb
  obtain ⟨x, c, y, rfl, hx, hblank, hsign⟩ := hb.exists_code (mem_drop_of_lt hij hv) hcv hline
  have hlf : c ≠ '\n' := ne_of_isBlankChar hblank (by decide)
  have hcr : c ≠ '\r' := ne_of_isBlankChar hblank (by decide)
  have hdrop := drop_lineText hab fun hlast => absurd hlast (hcode.getLast?_ne a)
  have hfirst : firstLine (x ++ c :: y) = x ++ c :: firstLine y := by
    rw [firstLine_append (fun hmem => absurd (hx _ hmem) (by decide)) (by simpa using hlf),
      firstLine_cons hlf hcr]
  rw [Position.advanceBy_append, ha, ← hstop, ← he, hfirst] at hdrop
  refine isRemovable_of_drop_eq hdrop (fun d hd => isSpace_of_isInlineSpace (hx d hd)) ?_ hsign
  rw [isBlankChar, Bool.or_eq_false_iff] at hblank
  exact hblank.1

/-- **Two literals with a line in common both stay**, if one comes before the other. -/
theorem isRemovable_of_shared {d e : Literal} {i j k l : ℕ} (hd : d.Runs source ts i j)
    (he : e.Runs source ts k l) (hlt : j < k) (hline : e.start.line ≤ d.stop.line) :
    isRemovable (splitLines source) d.extent = false ∧
      isRemovable (splitLines source) e.extent = false := by
  obtain ⟨-, u, -, -, hu, -, hcu, -, hdu⟩ := hd.exists_tokens ht
  obtain ⟨v, -, -, hv, -, hcv, -, hev, -⟩ := he.exists_tokens ht
  have hle : u.stop ≤ v.start := by
    rw [(isCodeText_of_mem ht (List.mem_of_getElem? hu) hcu).1]
    exact advanceBy_text_le_start ht hu hv hlt
  have hsame : u.stop.line = v.start.line := by
    have := Position.line_le hle
    rw [hdu, hev] at hline
    omega
  exact ⟨isRemovable_of_code_after ht hu hv hcu hcv hlt hsame.symm hdu,
    isRemovable_of_code_before ht hu hv hcu hcv hlt hsame hev⟩

end Tokenize

end Marginalia
