import Marginalia.Analysis
import Marginalia.Proofs.Docstring
import Marginalia.Proofs.Notes.OfLines
import Marginalia.Proofs.Rewrite.Removal

/-!
# Sources without commentary

A source is settled (`IsSettled`) when its analysis shows no comment, and no literal that can go
and has left anything on its lines. The settled sources are those that stripping leaves as they
are (`strip_eq_self_iff`): on either path a comment that is found is cut off, for it stands where
its note says, and after quotes that agree (`Notes.IsFaithful`).

A stripped source need not be settled, but stripping often enough comes to one that is
(`exists_isSettled_iterate`).
-/

namespace Marginalia

/-! ## Faithful notes -/

/-- The comments among the notes stand where they say, after an even number of quotes if these
are to be verified, and the literals among them have an extent. -/
structure Notes.IsFaithful (source : Text) (verify : Bool) (ns : Notes) : Prop where
  comment : ∀ n note, ns.get? n = some note → note.kind.isString = false →
    (lineText (splitLines source) n)[note.column]? = some '#' ∧
      (verify = true → hasEvenQuotes ((lineText (splitLines source) n).take note.column) = true)
  literal : ∀ n note, ns.get? n = some note → note.kind.isString = true →
    ∃ e, note.extent = some e

theorem Notes.IsFaithful.withDocstrings {source : Text} {verify : Bool} {ns : Notes}
    (h : ns.IsFaithful source verify) (ds : List Literal) :
    (ns.withDocstrings ds).IsFaithful source verify := by
  have hget : ∀ n note, (ns.withDocstrings ds).get? n = some note →
      (note.kind = .docstring ∧ ∃ e, note.extent = some e) ∨ ns.get? n = some note := by
    intro n note hget
    rw [Notes.withDocstrings, Notes.get?_insertAll, Notes.lastAt?_flatMap_notes] at hget
    cases hlast : ds.reverse.find? (·.covers n) with
    | none => exact Or.inr (by rwa [hlast, Option.map_none, Option.none_or] at hget)
    | some d =>
      obtain rfl : d.noteOn .docstring n = note := by simpa [hlast] using hget
      exact Or.inl ⟨rfl, d.extent, rfl⟩
  refine ⟨fun n note hn hk => ?_, fun n note hn hk => ?_⟩
  · rcases hget n note hn with ⟨hdoc, -⟩ | hn
    · rw [hdoc] at hk
      exact Bool.noConfusion hk
    · exact h.comment n note hn hk
  · rcases hget n note hn with ⟨-, he⟩ | hn
    · exact he
    · exact h.literal n note hn hk

/-- The note of a comment token is faithful. -/
theorem getElem?_of_comment {source : Text} {ts : List Token} (ht : tokenize source = .ok ts)
    {u : Token} (hu : u ∈ ts) (hk : u.kind = .comment) :
    (lineText (splitLines source) u.start.line)[u.start.column]? = some '#' := by
  obtain ⟨i, hi⟩ := List.getElem?_of_mem hu
  obtain ⟨y, -, hy, -⟩ := of_comment ht hi hk
  have hc := (standsAt_of_mem ht hu).char (i := 0) (c := '#') (by rw [hy]; rfl)
  obtain ⟨i, l, hline, hl, hc⟩ := exists_line_of_standsAt hc
  rw [List.take_zero, Position.advanceBy_nil] at hline hc
  rw [hline, lineText, hl]
  exact getElem?_text_of_chars hc (by decide) (by decide)

theorem isFaithful_ofTokens {source : Text} {ts : List Token} (ht : tokenize source = .ok ts) :
    (Notes.ofTokens ts).IsFaithful source false := by
  refine ⟨fun n note hget hk => ?_, fun n note hget hk => ?_⟩
  · obtain ⟨u, hu, hk', rfl, rfl⟩ := Notes.exists_comment hget hk
    exact ⟨getElem?_of_comment ht hu hk', by simp⟩
  · have hfound := Notes.foundAt_ofTokens ts n
    rw [hget] at hfound
    cases hfound with
    | docstring hd => simp at hd
    | standalone _ _ _ _ he => exact ⟨_, he⟩
    | comment => exact Bool.noConfusion hk

theorem isFaithful_ofLines (source : Text) (verify : Bool) :
    (Notes.ofLines source).IsFaithful source verify := by
  have hsound := notesOn_lineNotes [] none 1 ((splitLines source).map Line.text)
  refine ⟨fun n note hget hk => ?_, fun n note hget hk => ?_⟩
  · obtain ⟨i, line, hn, hline, hstart⟩ :=
      hsound.comment _ (get?_ofLines_eq_some_iff.1 hget) hk
    obtain ⟨hsign, heven⟩ := commentStart?_eq_some hstart
    have htext : lineText (splitLines source) n = line := by
      rw [List.getElem?_map] at hline
      obtain ⟨l, hl, rfl⟩ := Option.map_eq_some_iff.1 hline
      obtain rfl : n = i + 1 := by simp only at hn; omega
      rw [lineText, hl]
      rfl
    rw [htext]
    exact ⟨hsign, fun _ => heven⟩
  · exact hsound.literal _ (get?_ofLines_eq_some_iff.1 hget) hk

theorem isFaithful_baseNotes (source : Text) :
    (baseNotes source).1.IsFaithful source (!(baseNotes source).2) := by
  rw [baseNotes]
  split
  · next ts ht => exact isFaithful_ofTokens ht
  · exact isFaithful_ofLines source _

section Parser

variable (parse : Parser)

/-- The notes of an analysis are those of the tokens or the lines, with the docstrings laid over
them. -/
theorem notes_analyze (source : Text) : (analyze parse source).notes =
    (baseNotes source).1.withDocstrings (knownDocstrings parse source) := by
  rw [analyze, knownDocstrings]
  cases docstrings parse source <;> rfl

theorem tokens_reading_analyze (source : Text) :
    (analyze parse source).reading.tokens = (baseNotes source).2 := rfl

theorem strip_eq (source : Text) : strip parse source =
    rewrite source ((baseNotes source).1.withDocstrings (knownDocstrings parse source))
      (!(baseNotes source).2) := by
  rw [strip, notes_analyze, tokens_reading_analyze]

/-- The notes of an analysis are faithful, and quotes are verified when there are no tokens. -/
theorem isFaithful_analyze (source : Text) :
    (analyze parse source).notes.IsFaithful source (!(analyze parse source).reading.tokens) := by
  rw [notes_analyze, tokens_reading_analyze]
  exact (isFaithful_baseNotes source).withDocstrings _

/-! ## Settled sources -/

/-- The analysis shows no comment, and no literal that can go has left anything on its lines. -/
def IsSettled (source : Text) : Prop :=
  ∀ p ∈ (analyze parse source).notes.toList, p.2.kind.isString = true ∧
    ∀ e ∈ p.2.extent, isRemovable (splitLines source) e = true →
      lineText (splitLines source) p.1 = [] ∨ lineText (splitLines source) p.1 = [byteOrderMark]

theorem blanked_eq_self_iff {t : Text} : blanked t = t ↔ t = [] ∨ t = [byteOrderMark] := by
  constructor
  · intro h
    rw [← h]
    exact blanked_eq_or t
  · rintro (rfl | rfl) <;> rfl

/-- A comment that stands where its note says is cut off. -/
theorem rewriteLine_ne_of_comment {lines : List Line} {verify : Bool} {t : Text} {note : Note}
    (hk : note.kind.isString = false) (hsign : t[note.column]? = some '#')
    (heven : verify = true → hasEvenQuotes (t.take note.column) = true) :
    rewriteLine lines verify t note ≠ t := by
  have hlt := (List.getElem?_eq_some_iff.1 hsign).1
  simp only [rewriteLine, hk, Bool.false_eq_true, ↓reduceIte]
  split_ifs with hblank hverify
  · intro h
    rcases blanked_eq_self_iff.1 h with rfl | rfl
    · simp at hsign
    · have := List.mem_of_getElem? hsign
      exact absurd this (by decide)
  · rw [Bool.and_eq_true, Bool.not_eq_true'] at hverify
    rw [heven hverify.1] at hverify
    exact Bool.noConfusion hverify.2
  · intro h
    have := (Text.trimEnd_isPrefix isSpace (t.take note.column)).length_le
    rw [h, List.length_take] at this
    omega

/-- **The settled sources are those that stripping leaves as they are.** -/
theorem strip_eq_self_iff (source : Text) :
    ((strip parse source).content = source ∧ (strip parse source).removed = 0) ↔
      IsSettled parse source := by
  have hfaithful := isFaithful_analyze parse source
  rw [strip, content_rewrite_eq_iff, and_self_iff, removed_rewrite_eq_zero_iff]
  constructor
  · intro h p hp
    have hget := Notes.get?_eq_some_iff.2 hp
    have hsame := h _ _ hget
    cases hk : p.2.kind.isString with
    | false =>
      obtain ⟨hsign, heven⟩ := hfaithful.comment _ _ hget hk
      exact absurd hsame (rewriteLine_ne_of_comment hk hsign heven)
    | true =>
      refine ⟨rfl, fun e he hrem => ?_⟩
      rw [rewriteLine_of_removable hk he hrem] at hsame
      exact blanked_eq_self_iff.1 hsame
  · intro h n note hget
    obtain ⟨hk, hblank⟩ := h _ (Notes.get?_eq_some_iff.1 hget)
    obtain ⟨e, he⟩ := hfaithful.literal _ _ hget hk
    cases hrem : isRemovable (splitLines source) e with
    | false => exact rewriteLine_of_not_removable hk he hrem
    | true =>
      rw [rewriteLine_of_removable hk he hrem]
      exact blanked_eq_self_iff.2 (hblank e he hrem)

/-- **Stripping again and again comes to rest**, after no more passes than there are characters on
the lines. -/
theorem exists_isSettled_iterate (source : Text) : ∃ k ≤ letters (splitLines source),
    IsSettled parse ((fun t => (strip parse t).content)^[k] source) := by
  induction hm : letters (splitLines source) using Nat.strong_induction_on generalizing source with
  | _ m ih =>
    by_cases hsettled : IsSettled parse source
    · exact ⟨0, Nat.zero_le _, hsettled⟩
    · have hremoved : (strip parse source).removed ≠ 0 := fun h =>
        hsettled ((strip_eq_self_iff parse source).1 ⟨(content_rewrite_eq_iff ..).2 h, h⟩)
      -- each pass that removes something leaves fewer characters
      have hlt : letters (splitLines (strip parse source).content) < m := by
        rw [← hm]
        exact letters_rewrite_lt _ _ _ hremoved
      obtain ⟨k, hk, hsettled'⟩ := ih _ hlt (strip parse source).content rfl
      refine ⟨k + 1, by omega, ?_⟩
      rwa [Function.iterate_succ_apply]

end Parser

end Marginalia
