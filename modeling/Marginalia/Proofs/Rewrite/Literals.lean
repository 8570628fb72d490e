import Marginalia.Proofs.Notes.OfLines
import Marginalia.Proofs.Rewrite.Code

/-!
# Literals go as a whole or stay as a whole

After the notes are taken out, a recorded literal has left all its lines empty, or all its lines
stay as they were (`rewrite_goesOrStays`). On each line of a literal there is a note of a literal,
its own or that of another one with this line; and all these literals meet the same verdict
(`goesOrStays_of_hasVerdict`). In the notes of a token sequence this is so because two literals
with a line in common both stay, unless one is part of the other (`isRemovable_eq_of_shared`); in
the notes of lines, because no literal takes a line from another (`NotesOn.whole`).
-/

namespace Marginalia

/-- Line `n` is there, with nothing left on it but perhaps a byte order mark. -/
def IsEmptied (new : List Line) (n : ℕ) : Prop :=
  ∃ i l, n = i + 1 ∧ new[i]? = some l ∧ (l.text = [] ∨ l.text = [byteOrderMark])

/-- Line `n` is there, as it was. -/
def IsKept (old new : List Line) (n : ℕ) : Prop :=
  ∃ i l, n = i + 1 ∧ old[i]? = some l ∧ new[i]? = some l

/-- All lines of the extent are emptied, or all are kept. -/
def GoesOrStays (old new : List Line) (e : Extent) : Prop :=
  (∀ n, e.start.line ≤ n → n ≤ e.stop.line → IsEmptied new n) ∨
    ∀ n, e.start.line ≤ n → n ≤ e.stop.line → IsKept old new n

/-- What is said of a literal holds of its parts. -/
theorem GoesOrStays.mono {old new : List Line} {d e : Extent} (h : GoesOrStays old new e)
    (hstart : e.start.line ≤ d.start.line) (hstop : d.stop.line ≤ e.stop.line) :
    GoesOrStays old new d :=
  h.imp (fun hall n hn hn' => hall n (hstart.trans hn) (hn'.trans hstop))
    fun hall n hn hn' => hall n (hstart.trans hn) (hn'.trans hstop)

/-- The note on line `n` is that of a literal, and `goes` says whether this literal goes. -/
def Notes.HasVerdict (source : Text) (ns : Notes) (goes : Bool) (n : ℕ) : Prop :=
  ∃ note x, ns.get? n = some note ∧ note.kind.isString = true ∧ note.extent = some x ∧
    isRemovable (splitLines source) x = goes

section Verdict

variable {source : Text} {ns : Notes} {verify : Bool}

theorem Notes.HasVerdict.isEmptied {n : ℕ} (h : ns.HasVerdict source true n) (hn : 1 ≤ n)
    (hn' : n ≤ (splitLines source).length) :
    IsEmptied (splitLines (rewrite source ns verify).content) n := by
  obtain ⟨note, x, hget, hkind, hx, hrem⟩ := h
  obtain ⟨i, l, rfl, hl⟩ := exists_getElem?_eq_some hn hn'
  refine ⟨i, _, rfl, by rw [getElem?_rewrite, hl, Option.map_some], ?_⟩
  simp only [rewrittenText, hget]
  rw [rewriteLine_of_removable hkind hx hrem]
  exact blanked_eq_or _

theorem Notes.HasVerdict.isKept {n : ℕ} (h : ns.HasVerdict source false n) (hn : 1 ≤ n)
    (hn' : n ≤ (splitLines source).length) :
    IsKept (splitLines source) (splitLines (rewrite source ns verify).content) n := by
  obtain ⟨note, x, hget, hkind, hx, hrem⟩ := h
  obtain ⟨i, l, rfl, hl⟩ := exists_getElem?_eq_some hn hn'
  refine ⟨i, _, rfl, hl, getElem?_rewrite_of_eq hl ?_⟩
  rw [rewrittenText, hget]
  exact rewriteLine_of_not_removable hkind hx hrem

/-- **One verdict for all lines of a literal** empties them all or keeps them all. -/
theorem goesOrStays_of_hasVerdict {e : Extent} (hstart : 1 ≤ e.start.line)
    (hstop : e.stop.line ≤ (splitLines source).length)
    (h : ∀ n, e.start.line ≤ n → n ≤ e.stop.line →
      ns.HasVerdict source (isRemovable (splitLines source) e) n) :
    GoesOrStays (splitLines source) (splitLines (rewrite source ns verify).content) e := by
  cases hrem : isRemovable (splitLines source) e with
  | true =>
    rw [hrem] at h
    exact Or.inl fun n hn hn' => (h n hn hn').isEmptied (hstart.trans hn) (hn'.trans hstop)
  | false =>
    rw [hrem] at h
    exact Or.inr fun n hn hn' => (h n hn hn').isKept (hstart.trans hn) (hn'.trans hstop)

end Verdict

/-! ## Literals between tokens -/

section Tokenize

variable {source : Text} {ts : List Token} (ht : tokenize source = .ok ts)
include ht

/-- The lines of a literal are lines of the source. -/
theorem Literal.Runs.lines_le {d : Literal} {i j : ℕ} (h : d.Runs source ts i j) :
    1 ≤ d.start.line ∧ d.stop.line ≤ (splitLines source).length := by
  obtain ⟨u, v, -, hu, hv, -, hcv, hdu, hdv⟩ := h.exists_tokens ht
  have hmem := List.mem_of_getElem? hv
  obtain ⟨hstop, hcode⟩ := isCodeText_of_mem ht hmem hcv
  obtain ⟨c, hlast, hblank⟩ := hcode.last
  rw [hdu, hdv, hstop]
  exact ⟨(standsAt_of_mem ht (List.mem_of_getElem? hu)).one_le_line,
    (standsAt_of_mem ht hmem).line_advanceBy_le hlast (ne_of_isBlankChar hblank (by decide))⟩

/-- A literal between tokens of another one lies within it. -/
theorem Literal.Runs.within {d e : Literal} {i j k l : ℕ} (hd : d.Runs source ts i j)
    (he : e.Runs source ts k l) (hki : k ≤ i) (hjl : j ≤ l) :
    e.start ≤ d.start ∧ d.stop ≤ e.stop := by
  obtain ⟨v, w, -, hv, hw, -, hcw, hdv, hdw⟩ := hd.exists_tokens ht
  obtain ⟨v', w', -, hv', hw', -, hcw', hev, hew⟩ := he.exists_tokens ht
  rw [hdv, hdw, hev, hew]
  exact ⟨start_le_start ht hv' hv hki, stop_le_stop ht hw hw' hcw hcw' hjl⟩

/-- Two literals with a line in common meet the same verdict, if they have no token in common or
are the same. -/
theorem isRemovable_eq_of_shared {d e : Literal} {i j k l n : ℕ} (hd : d.Runs source ts i j)
    (he : e.Runs source ts k l) (hapart : e = d ∨ j < k ∨ l < i) (hnd : n ∈ d.lines)
    (hne : n ∈ e.lines) :
    isRemovable (splitLines source) e.extent = isRemovable (splitLines source) d.extent := by
  obtain ⟨hd₁, hd₂⟩ := Literal.mem_lines.1 hnd
  obtain ⟨he₁, he₂⟩ := Literal.mem_lines.1 hne
  rcases hapart with rfl | hlt | hlt
  · rfl
  · obtain ⟨h₁, h₂⟩ := isRemovable_of_shared ht hd he hlt (he₁.trans hd₂)
    rw [h₁, h₂]
  · obtain ⟨h₁, h₂⟩ := isRemovable_of_shared ht he hd hlt (hd₁.trans he₂)
    rw [h₁, h₂]

/-- Literals that do not overlap have no token in common. -/
theorem lt_of_stop_le_start {d e : Literal} {i j k l : ℕ} (hd : d.Runs source ts i j)
    (he : e.Runs source ts k l) (h : d.stop ≤ e.start) : j < k := by
  obtain ⟨-, v, -, -, hv, -, hcv, -, hdv⟩ := hd.exists_tokens ht
  obtain ⟨u, -, -, hu, -, -, -, heu, -⟩ := he.exists_tokens ht
  by_contra hle
  have hback := start_le_start ht hu hv (by omega)
  obtain ⟨hstop, hcode⟩ := isCodeText_of_mem ht (List.mem_of_getElem? hv) hcv
  have hlt := Position.lt_advanceBy v.start hcode.ne_nil
  rw [hdv, heu] at h
  rw [← hstop] at hlt
  exact absurd (hlt.trans_le (h.trans hback)) (lt_irrefl _)

/-! ### Docstrings and standalone literals -/

section Docstrings

variable {ds : List Literal} (hapart : ds.Pairwise Literal.Apart)

include hapart in
/-- Each line of a docstring has its verdict, also where the note is that of another one. -/
theorem hasVerdict_of_mem {d : Literal} (hd : d ∈ ds) {i j n : ℕ} (hruns : d.Runs source ts i j)
    (hn : n ∈ d.lines) (hds : ∀ e ∈ ds, n ∈ e.lines → ∃ k l, e.Runs source ts k l) :
    ((Notes.ofTokens ts).withDocstrings ds).HasVerdict source
      (isRemovable (splitLines source) d.extent) n := by
  have hfound := Notes.foundAt ts ds n
  rw [Notes.HasVerdict]
  generalize ((Notes.ofTokens ts).withDocstrings ds).get? n = found at hfound ⊢
  cases hfound with
  | @docstring e note he hne hk hx =>
    obtain ⟨k, l, hruns'⟩ := hds e he hne
    refine ⟨note, e.extent, rfl, by rw [hk]; rfl, hx,
      isRemovable_eq_of_shared ht hruns hruns' ?_ hn hne⟩
    by_cases heq : e = d
    · exact Or.inl heq
    · rcases hapart.forall hd he (Ne.symm heq) with h | h
      · exact Or.inr (Or.inl (lt_of_stop_le_start ht hruns hruns' h))
      · exact Or.inr (Or.inr (lt_of_stop_le_start ht hruns' hruns h))
  | standalone hno => exact absurd hn (hno d hd)
  | comment hno => exact absurd hn (hno d hd)
  | nothing hno => exact absurd hn (hno d hd)

/-- Each line of a standalone literal has its verdict, unless the literal is part of a
docstring. -/
theorem hasVerdict_of_mem_standaloneStrings {d : Literal} (hd : d ∈ standaloneStrings ts)
    {i n : ℕ} {u : Token} (hu : ts[i]? = some u) (hdu : d = .ofToken u)
    (hruns : d.Runs source ts i i) (hn : n ∈ d.lines)
    (hno : ∀ e ∈ ds, ∀ k l, e.Runs source ts k l → k ≤ i → l < i)
    (hds : ∀ e ∈ ds, n ∈ e.lines → ∃ k l, e.Runs source ts k l) :
    ((Notes.ofTokens ts).withDocstrings ds).HasVerdict source
      (isRemovable (splitLines source) d.extent) n := by
  have hfound := Notes.foundAt ts ds n
  rw [Notes.HasVerdict]
  generalize ((Notes.ofTokens ts).withDocstrings ds).get? n = found at hfound ⊢
  cases hfound with
  | @docstring e note he hne hk hx =>
    obtain ⟨k, l, hruns'⟩ := hds e he hne
    have := hno e he k l hruns'
    exact ⟨note, e.extent, rfl, by rw [hk]; rfl, hx,
      isRemovable_eq_of_shared ht hruns hruns' (Or.inr (by omega)) hn hne⟩
  | @standalone e note _ he hne hk hx =>
    obtain ⟨k, v, hv, hev, hruns'⟩ := Literal.runs_of_mem_standaloneStrings ht he
    refine ⟨note, e.extent, rfl, by rw [hk]; rfl, hx,
      isRemovable_eq_of_shared ht hruns hruns' ?_ hn hne⟩
    rcases Nat.lt_trichotomy i k with hlt | rfl | hlt
    · exact Or.inr (Or.inl hlt)
    · obtain rfl : u = v := by simpa [hu] using hv
      exact Or.inl (hev.trans hdu.symm)
    · exact Or.inr (Or.inr hlt)
  | comment _ hno => exact absurd hn (hno d hd)
  | nothing _ hno => exact absurd hn (hno d hd)

variable (hds : ∀ d ∈ ds, ∃ i j, d.Runs source ts i j)
include hds hapart

theorem goesOrStays_of_mem {d : Literal} (hd : d ∈ ds) :
    GoesOrStays (splitLines source)
      (splitLines (rewrite source ((Notes.ofTokens ts).withDocstrings ds) false).content)
      d.extent := by
  obtain ⟨i, j, hruns⟩ := hds d hd
  obtain ⟨hstart, hstop⟩ := hruns.lines_le ht
  refine goesOrStays_of_hasVerdict hstart hstop fun n hn hn' => ?_
  exact hasVerdict_of_mem ht hapart hd hruns (Literal.mem_lines.2 ⟨hn, hn'⟩) fun e he _ => hds e he

theorem goesOrStays_of_mem_standaloneStrings {d : Literal} (hd : d ∈ standaloneStrings ts) :
    GoesOrStays (splitLines source)
      (splitLines (rewrite source ((Notes.ofTokens ts).withDocstrings ds) false).content)
      d.extent := by
  obtain ⟨i, u, hu, hdu, hruns⟩ := Literal.runs_of_mem_standaloneStrings ht hd
  by_cases hin : ∃ e ∈ ds, ∃ k l, e.Runs source ts k l ∧ k ≤ i ∧ i ≤ l
  · -- the literal is part of a docstring, and shares its verdict
    obtain ⟨e, he, k, l, hruns', hki, hil⟩ := hin
    obtain ⟨hstart, hstop⟩ := hruns.within ht hruns' hki hil
    exact (goesOrStays_of_mem ht hapart hds he).mono (Position.line_le hstart)
      (Position.line_le hstop)
  · obtain ⟨hstart, hstop⟩ := hruns.lines_le ht
    refine goesOrStays_of_hasVerdict hstart hstop fun n hn hn' => ?_
    refine hasVerdict_of_mem_standaloneStrings ht hd hu hdu hruns (Literal.mem_lines.2 ⟨hn, hn'⟩) ?_
      fun e he _ => hds e he
    intro e he k l hruns' hki
    by_contra hil
    exact hin ⟨e, he, k, l, hruns', hki, by omega⟩

end Docstrings

end Tokenize

/-! ## Literals of lines -/

theorem goesOrStays_ofLines {source : Text} {verify : Bool} {n : ℕ} {note : Note} {e : Extent}
    (hget : (Notes.ofLines source).get? n = some note) (he : note.extent = some e) :
    GoesOrStays (splitLines source)
      (splitLines (rewrite source (Notes.ofLines source) verify).content) e := by
  have hsound := notesOn_lineNotes [] none 1 ((splitLines source).map Line.text)
  obtain ⟨hstart, hstop, hall⟩ := hsound.whole _ (get?_ofLines_eq_some_iff.1 hget) e he
  rw [List.length_map] at hstop
  refine goesOrStays_of_hasVerdict hstart (by omega) fun k hk hk' => ?_
  obtain ⟨note', hmem, hkind, hx⟩ := hall k hk hk'
  exact ⟨note', e, get?_ofLines_eq_some_iff.2 hmem, hkind, hx, rfl⟩

/-- **Literals go as a whole or stay as a whole**: those among the tokens together with any that
run from token to token and do not overlap, and those that are found by lines. -/
theorem rewrite_goesOrStays (source : Text) :
    (∀ ts, tokenize source = .ok ts → ∀ ds : List Literal,
      (∀ d ∈ ds, ∃ i j, d.Runs source ts i j) →
      ds.Pairwise Literal.Apart → ∀ d ∈ standaloneStrings ts ++ ds, GoesOrStays (splitLines source)
        (splitLines (rewrite source ((Notes.ofTokens ts).withDocstrings ds) false).content)
        d.extent) ∧
    ∀ verify n note e, (Notes.ofLines source).get? n = some note → note.extent = some e →
      GoesOrStays (splitLines source)
        (splitLines (rewrite source (Notes.ofLines source) verify).content) e := by
  refine ⟨fun ts ht ds hds hapart d hd => ?_, fun verify n note e hget he => ?_⟩
  · rcases List.mem_append.1 hd with hd | hd
    · exact goesOrStays_of_mem_standaloneStrings ht hapart hds hd
    · exact goesOrStays_of_mem ht hapart hds hd
  · exact goesOrStays_ofLines hget he

/-- A literal over two lines with another one behind it, code, and a literal over two lines in front
of a comment. -/
def severalLiterals : Text := "'''a\nb'''; 'c'\nx = 1\n\"\"\"d\ne\"\"\"  # f\n".toList

/-- The string tokens of `severalLiterals`. -/
def stringTokens : List Token :=
  [⟨.string, "'''a\nb'''".toList, ⟨1, 0⟩, ⟨2, 4⟩⟩, .at .string "'c'".toList ⟨2, 6⟩,
   ⟨.string, "\"\"\"d\ne\"\"\"".toList, ⟨4, 0⟩, ⟨5, 4⟩⟩]

/-- The tokens of `severalLiterals`. -/
def severalLiteralsTokens : List Token :=
  [stringTokens[0], .at .op [';'] ⟨2, 4⟩, stringTokens[1], ⟨.newline, ['\n'], ⟨2, 9⟩, ⟨2, 10⟩⟩,
   .at .name ['x'] ⟨3, 0⟩, .at .op ['='] ⟨3, 2⟩, .at .number ['1'] ⟨3, 4⟩,
   ⟨.newline, ['\n'], ⟨3, 5⟩, ⟨3, 6⟩⟩, stringTokens[2], .at .comment "# f".toList ⟨5, 6⟩,
   ⟨.newline, ['\n'], ⟨5, 9⟩, ⟨5, 10⟩⟩, .at .endMarker [] ⟨6, 0⟩]

theorem tokenize_severalLiterals : tokenize severalLiterals = .ok severalLiteralsTokens := by
  decide +kernel

theorem runs_severalLiterals : ∀ d ∈ stringTokens.map Literal.ofToken,
    ∃ i j, d.Runs severalLiterals severalLiteralsTokens i j := by
  intro d hd
  obtain ⟨u, hu, rfl⟩ := List.mem_map.1 hd
  have hcode : ∀ v ∈ stringTokens, v ∈ severalLiteralsTokens ∧ v.kind.isCode = true := by decide
  obtain ⟨hmem, hc⟩ := hcode u hu
  obtain ⟨i, hi⟩ := List.getElem?_of_mem hmem
  exact ⟨i, i, Literal.runs_ofToken tokenize_severalLiterals hi hc⟩

/-- A source with a literal over two lines, and a bracket that is never closed. -/
def openBracket : Text := "\"\"\"a\nb\"\"\"\n(\n".toList

theorem get?_ofLines_openBracket : (Notes.ofLines openBracket).get? 2 =
    some ⟨"b\"\"\"".toList, .standaloneString, 0, some ⟨⟨1, 0⟩, ⟨2, 4⟩⟩⟩ := by
  decide +kernel

/-- All strings of `severalLiterals` taken for docstrings: the first two share a line and stay, the
last one goes. In `openBracket` a literal is found by lines. -/
theorem rewrite_goesOrStays_severalLiterals :
    ((stringTokens.map Literal.ofToken).Pairwise Literal.Apart ∧
      stringTokens.map (fun u => isRemovable (splitLines severalLiterals)
        (Literal.ofToken u).extent) = [false, false, true] ∧
      ∀ d ∈ stringTokens.map Literal.ofToken, GoesOrStays (splitLines severalLiterals)
        (splitLines (rewrite severalLiterals ((Notes.ofTokens severalLiteralsTokens).withDocstrings
          (stringTokens.map Literal.ofToken)) false).content) d.extent) ∧
    GoesOrStays (splitLines openBracket)
      (splitLines (rewrite openBracket (Notes.ofLines openBracket) true).content)
      ⟨⟨1, 0⟩, ⟨2, 4⟩⟩ := by
  have hapart : (stringTokens.map Literal.ofToken).Pairwise Literal.Apart := by
    unfold Literal.Apart
    decide +kernel
  refine ⟨⟨hapart, by decide +kernel, fun d hd => ?_⟩, ?_⟩
  · exact (rewrite_goesOrStays severalLiterals).1 _ tokenize_severalLiterals _ runs_severalLiterals
      hapart d (List.mem_append_right _ hd)
  · exact (rewrite_goesOrStays openBracket).2 true 2 _ _ get?_ofLines_openBracket rfl

end Marginalia
