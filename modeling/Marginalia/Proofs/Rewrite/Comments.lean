import Marginalia.Proofs.Notes.Places
import Marginalia.Proofs.Strip

/-!
# Comments are cut off

What is noted as a comment goes when the source is rewritten, whichever reading found it
(`rewrite_cutsComments`). A comment that was found by its line stands after an even number of
quotes, so verifying the quotes vetoes nothing (`Notes.IsFaithful.rewrite_verify`).

Since every note is on a line of its own, the lines that are removed can be counted by the notes
(`removed_rewrite_eq_countP`): all comments count, and of the string literals the lines of those
that go, unless there is nothing on the line to be removed.
-/

namespace Marginalia

/-! ## Verifying quotes -/

/-- A comment after an even number of quotes goes with the check as it does without. -/
theorem rewriteLine_verify {lines : List Line} {t : Text} {note : Note} {verify : Bool}
    (h : note.kind.isString = false → verify = true →
      hasEvenQuotes (t.take note.column) = true) :
    rewriteLine lines verify t note = rewriteLine lines false t note := by
  cases verify with
  | false => rfl
  | true =>
    cases hk : note.kind.isString with
    | true => simp [rewriteLine, hk]
    | false => simp [rewriteLine, hk, h hk rfl]

theorem rewriteLines_verify {lines : List Line} {ns : Notes} {verify : Bool} {n : ℕ}
    {ls : List Line}
    (h : ∀ i l, ls[i]? = some l → rewrittenText lines ns verify (n + i) l.text =
      rewrittenText lines ns false (n + i) l.text) (previous : Terminator) :
    rewriteLines lines ns verify n previous ls = rewriteLines lines ns false n previous ls := by
  refine List.ext_getElem? fun i => ?_
  rw [getElem?_rewriteLines, getElem?_rewriteLines]
  cases hl : ls[i]? with
  | none => rfl
  | some l => rw [Option.map_some, Option.map_some, h i l hl]

/-- **Verifying the quotes vetoes nothing**, if the comments stand after an even number of them. -/
theorem Notes.IsFaithful.rewrite_verify {source : Text} {verify : Bool} {ns : Notes}
    (h : ns.IsFaithful source verify) : rewrite source ns verify = rewrite source ns false := by
  have hlines : rewriteLines (splitLines source) ns verify 1 .lf (splitLines source) =
      rewriteLines (splitLines source) ns false 1 .lf (splitLines source) := by
    refine rewriteLines_verify (fun i l hl => ?_) .lf
    have htext : lineText (splitLines source) (1 + i) = l.text := by
      rw [Nat.add_comm, lineText, hl]
      rfl
    rw [rewrittenText, rewrittenText]
    cases hget : ns.get? (1 + i) with
    | none => rfl
    | some note =>
      refine rewriteLine_verify fun hk => ?_
      rw [← htext]
      exact (h.comment _ _ hget hk).2
  simp only [rewrite, hlines]

/-! ## Counting the notes -/

/-- **The removed lines are those whose note changes them.** -/
theorem removed_rewrite_eq_countP {source : Text} {ns : Notes} (h : ns.StandIn source)
    (verify : Bool) :
    (rewrite source ns verify).removed = ns.toList.countP fun e =>
      rewriteLine (splitLines source) verify (lineText (splitLines source) e.1) e.2 ≠
        lineText (splitLines source) e.1 := by
  set changes : ℕ × Note → Bool := fun e =>
    rewriteLine (splitLines source) verify (lineText (splitLines source) e.1) e.2 ≠
      lineText (splitLines source) e.1 with hchanges
  have hnodup : ((ns.toList.filter changes).map Prod.fst).Nodup :=
    ns.nodup_lines.sublist (List.filter_sublist.map _)
  have hnumbers : changedNumbers (splitLines source)
      (splitLines (rewrite source ns verify).content) =
        ((ns.toList.filter changes).map Prod.fst).toFinset := by
    ext n
    rw [List.mem_toFinset, List.mem_map]
    constructor
    · intro hn
      obtain ⟨-, -, note, hget, hne⟩ := mem_changedNumbers_rewrite source ns verify hn
      exact ⟨(n, note), List.mem_filter.2
        ⟨Notes.get?_eq_some_iff.1 hget, decide_eq_true hne⟩, rfl⟩
    · rintro ⟨e, he, rfl⟩
      obtain ⟨hmem, hne⟩ := List.mem_filter.1 he
      have hstands := h.of_mem hmem
      have hle := hstands.le_length
      have hpos := hstands.one_le
      refine Finset.mem_filter.2 ⟨Finset.mem_Icc.2 ⟨hpos, hle⟩, ?_⟩
      rw [lineText_rewrite, if_neg (by omega), rewrittenText, Notes.get?_eq_some_iff.2 hmem]
      exact of_decide_eq_true hne
  rw [removed_rewrite, hnumbers, List.toFinset_card_of_nodup hnodup, List.length_map,
    List.countP_eq_length_filter]

/-- Whether the note belongs to a literal that goes and has something on the line of the note. -/
def emptiesLine (lines : List Line) (e : ℕ × Note) : Bool :=
  e.2.kind.isString && e.2.extent.any (isRemovable lines) &&
    (lineText lines e.1 != [] && lineText lines e.1 != [byteOrderMark])

theorem emptiesLine_iff {lines : List Line} {verify : Bool} {e : ℕ × Note} {x : Extent}
    (hk : e.2.kind.isString = true) (hx : e.2.extent = some x) :
    rewriteLine lines verify (lineText lines e.1) e.2 ≠ lineText lines e.1 ↔
      emptiesLine lines e = true := by
  cases hrem : isRemovable lines x with
  | false => simp [rewriteLine_of_not_removable hk hx hrem, emptiesLine, hx, hrem]
  | true =>
    rw [rewriteLine_of_removable hk hx hrem, Ne, blanked_eq_self_iff]
    simp [emptiesLine, hk, hx, hrem]

/-- What becomes of a comment in the rewritten source `out`, and what is counted as removed. -/
structure CutsComments (source : Text) (ns : Notes) (out : Rewrite) : Prop where
  /-- The code in front of a comment stays, or an emptied line if there is none. -/
  text_eq : ∀ e ∈ ns.toList, e.2.kind = .comment →
    lineText (splitLines out.content) e.1 =
      if isBlank ((lineText (splitLines source) e.1).take e.2.column) then
        blanked (lineText (splitLines source) e.1)
      else Text.trimEnd isSpace ((lineText (splitLines source) e.1).take e.2.column)
  length_lt : ∀ e ∈ ns.toList, e.2.kind = .comment →
    (lineText (splitLines out.content) e.1).length < (lineText (splitLines source) e.1).length
  removed_eq : out.removed = ns.toList.countP (·.2.kind = .comment) +
    ns.toList.countP (emptiesLine (splitLines source))

theorem NoteKind.isString_eq_false_iff {k : NoteKind} : k.isString = false ↔ k = .comment := by
  cases k <;> simp [NoteKind.isString]

/-- What stands on the line of a note after rewriting. -/
theorem Notes.StandIn.lineText_rewrite {source : Text} {ns : Notes} (h : ns.StandIn source)
    (verify : Bool) {e : ℕ × Note} (he : e ∈ ns.toList) :
    lineText (splitLines (rewrite source ns verify).content) e.1 =
      rewriteLine (splitLines source) verify (lineText (splitLines source) e.1) e.2 := by
  have hle := (h.of_mem he).le_length
  have hpos := (h.of_mem he).one_le
  rw [Marginalia.lineText_rewrite, if_neg (by omega), rewrittenText, get?_eq_some_iff.2 he]

theorem cutsComments_of_isFaithful {source : Text} {ns : Notes}
    (hfaithful : ns.IsFaithful source false) (hstand : ns.StandIn source) :
    CutsComments source ns (rewrite source ns false) where
  text_eq e he hk := by
    rw [hstand.lineText_rewrite false he]
    simp [rewriteLine, NoteKind.isString_eq_false_iff.2 hk]
  length_lt e he hk := by
    have hk' := NoteKind.isString_eq_false_iff.2 hk
    obtain ⟨hsign, heven⟩ := hfaithful.comment _ _ (Notes.get?_eq_some_iff.2 he) hk'
    rw [hstand.lineText_rewrite false he]
    have hfront := rewriteLine_isPrefix (splitLines source) false
      (lineText (splitLines source) e.1) e.2
    exact hfront.length_le.lt_of_ne fun heq =>
      rewriteLine_ne_of_comment hk' hsign heven (hfront.eq_of_length heq)
  removed_eq := by
    -- the comments are counted apart from the literals
    rw [removed_rewrite_eq_countP hstand false,
      List.countP_eq_countP_filter_add ns.toList _ fun e => e.2.kind = .comment,
      List.countP_filter, List.countP_filter]
    congr 1
    · refine List.countP_congr fun e he => ?_
      simp only [Bool.and_eq_true, decide_eq_true_iff, and_iff_right_iff_imp]
      intro hk
      have hk' := NoteKind.isString_eq_false_iff.2 hk
      obtain ⟨hsign, heven⟩ := hfaithful.comment _ _ (Notes.get?_eq_some_iff.2 he) hk'
      exact rewriteLine_ne_of_comment hk' hsign heven
    · refine List.countP_congr fun e he => ?_
      simp only [Bool.and_eq_true, decide_eq_true_iff, Bool.not_eq_true', decide_eq_false_iff_not]
      cases hk : e.2.kind.isString with
      | false => simp [NoteKind.isString_eq_false_iff.1 hk, emptiesLine, NoteKind.isString]
      | true =>
        have hne : e.2.kind ≠ .comment := by
          rw [Ne, ← NoteKind.isString_eq_false_iff, hk]
          exact Bool.noConfusion
        obtain ⟨x, hx⟩ := hfaithful.literal _ _ (Notes.get?_eq_some_iff.2 he) hk
        rw [emptiesLine_iff hk hx]
        exact and_iff_left hne

/-- The notes of either reading stand in the source. -/
theorem standIn_baseNotes (source : Text) : (baseNotes source).1.StandIn source := by
  rw [baseNotes]
  split
  · next ts ht => exact Notes.standIn_ofTokens ht
  · exact Notes.standIn_ofLines source

/-- **What is noted as a comment goes**, whichever reading found it, also when slices of the source
are laid over the notes as docstrings: the check of quotes vetoes nothing, a comment leaves only
the code in front of it, and the removed lines are those of the comments and of the literals that
go. -/
theorem rewrite_cutsComments {source : Text} {ds : List Literal}
    (hds : ∀ d ∈ ds, d.IsSliceOf source) :
    rewrite source ((baseNotes source).1.withDocstrings ds) (!(baseNotes source).2) =
        rewrite source ((baseNotes source).1.withDocstrings ds) false ∧
      CutsComments source ((baseNotes source).1.withDocstrings ds)
        (rewrite source ((baseNotes source).1.withDocstrings ds) false) := by
  have hfaithful := (isFaithful_baseNotes source).withDocstrings ds
  have hunverified : ((baseNotes source).1.withDocstrings ds).IsFaithful source false :=
    ⟨fun n note hget hk => ⟨(hfaithful.comment n note hget hk).1, by simp⟩, hfaithful.literal⟩
  exact ⟨hfaithful.rewrite_verify,
    cutsComments_of_isFaithful hunverified ((standIn_baseNotes source).withDocstrings hds)⟩

/-- A source without tokens, since its bracket stays open: a string, and a comment behind code. -/
def openCall : Text := "'''a'''\nf(  # b\n".toList

/-- The string in `openCall`. -/
def openCallString : Literal := .ofText ⟨1, 0⟩ 1 "'''a'''".toList

theorem isSliceOf_openCallString : openCallString.IsSliceOf openCall where
  standsAt := ⟨[], "\nf(  # b\n".toList, rfl, rfl⟩
  stop_eq := by decide
  last := ⟨'\'', by decide, by decide⟩

/-- From `openCall` the string goes and the comment. -/
theorem rewrite_cutsComments_openCall :
    ((baseNotes openCall).2 = false ∧ (rewrite openCall
      ((baseNotes openCall).1.withDocstrings [openCallString]) true).removed = 2) ∧
    rewrite openCall ((baseNotes openCall).1.withDocstrings [openCallString])
        (!(baseNotes openCall).2) =
      rewrite openCall ((baseNotes openCall).1.withDocstrings [openCallString]) false ∧
    CutsComments openCall ((baseNotes openCall).1.withDocstrings [openCallString])
      (rewrite openCall ((baseNotes openCall).1.withDocstrings [openCallString]) false) :=
  ⟨by decide +kernel,
    rewrite_cutsComments fun _ hd => List.mem_singleton.1 hd ▸ isSliceOf_openCallString⟩

end Marginalia
