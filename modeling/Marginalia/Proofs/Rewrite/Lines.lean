import Mathlib.Algebra.BigOperators.Intervals
import Mathlib.Algebra.Order.BigOperators.Group.Finset
import Marginalia.Proofs.Text.Lines
import Marginalia.Proofs.Text.Trim
import Marginalia.Rewrite

/-!
# The lines of a rewritten source

Whatever the notes say, a rewritten source splits into the lines that were written
(`splitLines_rewrite`), one for each line of the source, and each is a front of the line it takes
the place of. What makes this work at the seams is that a line that was shortened does not end in
a carriage return (`rewrittenText_eq_or`), and that the last line is not lost when it becomes empty
(`isSplit_rewriteLines`). `rewrite_keepsLines` puts it together, with the counts.

The source stays as it is exactly if nothing is counted as removed (`content_rewrite_eq_iff`), and
what is removed is missing from the characters of the lines (`letters_rewrite_lt`).
-/

namespace Marginalia

/-! ## One line -/

theorem blanked_isPrefix (t : Text) : blanked t <+: t := by
  cases t with
  | nil => exact List.prefix_refl _
  | cons c r =>
    rw [blanked]
    split
    · next h => exact h ▸ ⟨r, rfl⟩
    · exact List.nil_prefix

/-- Nothing stays of an emptied line, or a byte order mark. -/
theorem blanked_eq_or (t : Text) : blanked t = [] ∨ blanked t = [byteOrderMark] := by
  cases t with
  | nil => exact Or.inl rfl
  | cons c r =>
    rw [blanked]
    split
    · exact Or.inr rfl
    · exact Or.inl rfl

/-- What can become of a line with a note: it stays, it is emptied, or it is cut. -/
theorem rewriteLine_cases (lines : List Line) (verify : Bool) (line : Text) (note : Note) :
    rewriteLine lines verify line note = line ∨ rewriteLine lines verify line note = blanked line ∨
      rewriteLine lines verify line note = Text.trimEnd isSpace (line.take note.column) := by
  simp only [rewriteLine]
  split_ifs <;> simp

theorem rewriteLine_isPrefix (lines : List Line) (verify : Bool) (line : Text) (note : Note) :
    rewriteLine lines verify line note <+: line := by
  rcases rewriteLine_cases lines verify line note with h | h | h <;> rw [h]
  · exact blanked_isPrefix line
  · exact (Text.trimEnd_isPrefix ..).trans (List.take_prefix ..)

theorem rewrittenText_isPrefix (lines : List Line) (ns : Notes) (verify : Bool) (n : ℕ)
    (line : Text) : rewrittenText lines ns verify n line <+: line := by
  rw [rewrittenText]
  split
  · exact rewriteLine_isPrefix ..
  · exact List.prefix_refl _

/-- A line that changes does not end in a carriage return. -/
theorem rewrittenText_eq_or (lines : List Line) (ns : Notes) (verify : Bool) (n : ℕ)
    (line : Text) : rewrittenText lines ns verify n line = line ∨
      (rewrittenText lines ns verify n line).getLast? ≠ some '\r' := by
  rw [rewrittenText]
  split
  · next note _ =>
    rcases rewriteLine_cases lines verify line note with h | h | h
    · exact Or.inl h
    · refine Or.inr ?_
      rw [h]
      rcases blanked_eq_or line with hb | hb <;> rw [hb] <;> decide
    · refine Or.inr fun hlast => ?_
      rw [h] at hlast
      exact absurd (Text.getLast?_trimEnd hlast) (by decide)
  · exact Or.inl rfl

/-! ## All lines -/

/-- The terminator of the line in front of line `i`, when the line in front of them all ends in
`previous`. -/
def terminatorBefore (previous : Terminator) : List Line → ℕ → Terminator
  | _, 0 => previous
  | [], _ + 1 => previous
  | l :: ls, i + 1 => terminatorBefore l.terminator ls i

section RewriteLines

variable (lines : List Line) (ns : Notes) (verify : Bool)

theorem length_rewriteLines (n : ℕ) (previous : Terminator) (ls : List Line) :
    (rewriteLines lines ns verify n previous ls).length = ls.length := by
  induction ls generalizing n previous with
  | nil => rfl
  | cons l ls ih => rw [rewriteLines, List.length_cons, List.length_cons, ih]

/-- What stands in the place of line `i`. -/
theorem getElem?_rewriteLines (n : ℕ) (previous : Terminator) (ls : List Line) (i : ℕ) :
    (rewriteLines lines ns verify n previous ls)[i]? = ls[i]?.map fun l =>
      ⟨rewrittenText lines ns verify (n + i) l.text,
        keptTerminator (terminatorBefore previous ls i) l.terminator
          (rewrittenText lines ns verify (n + i) l.text)⟩ := by
  induction ls generalizing n previous i with
  | nil => rfl
  | cons l ls ih =>
    rw [rewriteLines]
    cases i with
    | zero => rfl
    | succ i =>
      rw [List.getElem?_cons_succ, ih, List.getElem?_cons_succ, terminatorBefore,
        show n + 1 + i = n + (i + 1) by omega]

theorem isSound_rewritten {l : Line} (h : l.IsSound) {previous : Terminator}
    (hp : l.terminator = .none → previous ≠ .none) (n : ℕ) :
    Line.IsSound ⟨rewrittenText lines ns verify n l.text,
      keptTerminator previous l.terminator (rewrittenText lines ns verify n l.text)⟩ where
  lineFeed_notMem hmem :=
    h.lineFeed_notMem ((rewrittenText_isPrefix lines ns verify n l.text).subset hmem)
  ne_nil hterm hnil := by
    simp only [keptTerminator] at hterm hnil
    split at hterm
    · next hk => exact hp hk.1 hterm
    · next hk => exact hk ⟨hterm, hnil⟩
  getLast?_ne hterm := by
    simp only [keptTerminator] at hterm ⊢
    rcases rewrittenText_eq_or lines ns verify n l.text with heq | hne
    · split at hterm
      · next hk => rw [hk.2]; simp
      · rw [heq]
        exact h.getLast?_ne hterm
    · exact hne

/-- Rewritten lines are lines that a text can split into. -/
theorem isSplit_rewriteLines {ls : List Line} (h : IsSplit ls) {previous : Terminator}
    (hp : ls ≠ [] → previous ≠ .none) (n : ℕ) :
    IsSplit (rewriteLines lines ns verify n previous ls) := by
  induction ls generalizing n previous with
  | nil => trivial
  | cons l ls ih =>
    obtain ⟨hl, hlast, hls⟩ := h
    rw [rewriteLines]
    refine ⟨isSound_rewritten lines ns verify hl (fun _ => hp (by simp)) n, fun hne hterm => ?_,
      ih hls hlast (n + 1)⟩
    have hls' : ls ≠ [] := by
      rintro rfl
      exact hne rfl
    simp only [keptTerminator] at hterm
    split at hterm
    · next hk => exact hlast hls' hk.1
    · exact hlast hls' hterm

end RewriteLines

/-- **A rewritten source splits into the lines that were written.** -/
theorem splitLines_rewrite (source : Text) (ns : Notes) (verify : Bool) :
    splitLines (rewrite source ns verify).content =
      rewriteLines (splitLines source) ns verify 1 .lf (splitLines source) :=
  splitLines_joinLines
    (isSplit_rewriteLines _ ns verify (isSplit_splitLines source) (fun _ => by decide) 1)

theorem length_splitLines_rewrite (source : Text) (ns : Notes) (verify : Bool) :
    (splitLines (rewrite source ns verify).content).length = (splitLines source).length := by
  rw [splitLines_rewrite, length_rewriteLines]

/-- What stands in the place of a line of the source. -/
theorem getElem?_rewrite (source : Text) (ns : Notes) (verify : Bool) (i : ℕ) :
    (splitLines (rewrite source ns verify).content)[i]? = (splitLines source)[i]?.map fun l =>
      ⟨rewrittenText (splitLines source) ns verify (i + 1) l.text,
        keptTerminator (terminatorBefore .lf (splitLines source) i) l.terminator
          (rewrittenText (splitLines source) ns verify (i + 1) l.text)⟩ := by
  rw [splitLines_rewrite, getElem?_rewriteLines, Nat.add_comm 1 i]

/-- A line whose text stays the same stays as a whole. -/
theorem getElem?_rewrite_of_eq {source : Text} {ns : Notes} {verify : Bool} {i : ℕ} {l : Line}
    (hl : (splitLines source)[i]? = some l)
    (h : rewrittenText (splitLines source) ns verify (i + 1) l.text = l.text) :
    (splitLines (rewrite source ns verify).content)[i]? = some l := by
  have hsound := (isSplit_splitLines source).isSound (List.mem_of_getElem? hl)
  rw [getElem?_rewrite, hl, Option.map_some, h]
  simp only [keptTerminator]
  rw [if_neg fun hk => hsound.ne_nil hk.1 hk.2]

/-- The text of a line of the rewritten source. -/
theorem lineText_rewrite (source : Text) (ns : Notes) (verify : Bool) (n : ℕ) :
    lineText (splitLines (rewrite source ns verify).content) n =
      if n = 0 ∨ (splitLines source).length < n then [] else
        rewrittenText (splitLines source) ns verify n (lineText (splitLines source) n) := by
  split
  · next hn =>
    rw [← length_splitLines_rewrite source ns verify] at hn
    exact lineText_eq_nil hn
  · next hn =>
    rw [not_or, Nat.not_lt] at hn
    obtain ⟨i, l, rfl, hl⟩ := exists_getElem?_eq_some (Nat.pos_of_ne_zero hn.1) hn.2
    rw [lineText, lineText, getElem?_rewrite, hl]
    rfl

/-- A character of a line stands in the rewritten source if it stays in the text of the line, or
the line stays. -/
theorem standsAt_rewrite {source : Text} {ns : Notes} {verify : Bool} {i k : ℕ} {l : Line}
    {c : Char} (hl : (splitLines source)[i]? = some l) (hc : l.chars[k]? = some c)
    (h : rewrittenText (splitLines source) ns verify (i + 1) l.text = l.text ∨
      (rewrittenText (splitLines source) ns verify (i + 1) l.text)[k]? = some c) :
    Text.StandsAt (rewrite source ns verify).content [c] ⟨i + 1, k⟩ := by
  rw [← joinLines_splitLines (rewrite source ns verify).content,
    standsAt_joinLines_iff (isSplit_splitLines _)]
  rcases h with h | h
  · exact ⟨l, getElem?_rewrite_of_eq hl h, hc⟩
  · rw [getElem?_rewrite, hl, Option.map_some]
    refine ⟨_, rfl, ?_⟩
    rw [Line.chars, List.getElem?_append_left (List.getElem?_eq_some_iff.1 h).1, h]

theorem lineText_rewrite_isPrefix (source : Text) (ns : Notes) (verify : Bool) (n : ℕ) :
    lineText (splitLines (rewrite source ns verify).content) n <+:
      lineText (splitLines source) n := by
  rw [lineText_rewrite]
  split
  · exact List.nil_prefix
  · exact rewrittenText_isPrefix ..

/-! ## Counting -/

/-- The number of characters on the lines, their terminators not counted. -/
def letters (ls : List Line) : ℕ := ∑ n ∈ Finset.Icc 1 ls.length, (lineText ls n).length

theorem changedLines_eq_sum {old new : List Line} (h : new.length = old.length) :
    changedLines old new =
      ∑ i ∈ Finset.range old.length,
        if lineText new (i + 1) ≠ lineText old (i + 1) then 1 else 0 := by
  induction old generalizing new with
  | nil => rfl
  | cons l ls ih =>
    obtain ⟨m, ms, rfl⟩ := List.exists_cons_of_length_eq_add_one h
    have hrec := @ih ms (by simpa using h)
    have htail : ∀ i, lineText (m :: ms) (i + 1 + 1) = lineText ms (i + 1) ∧
        lineText (l :: ls) (i + 1 + 1) = lineText ls (i + 1) := fun i => ⟨rfl, rfl⟩
    simp only [List.length_cons, Finset.sum_range_succ', htail, ← hrec]
    by_cases hlm : l.text = m.text
    · simp [changedLines, lineText, hlm]
    · simp [changedLines, lineText, hlm, Ne.symm hlm]

/-- The lines that change, as a set of line numbers. -/
def changedNumbers (old new : List Line) : Finset ℕ :=
  (Finset.Icc 1 old.length).filter fun n => lineText new n ≠ lineText old n

theorem changedLines_eq_card {old new : List Line} (h : new.length = old.length) :
    changedLines old new = (changedNumbers old new).card := by
  rw [changedLines_eq_sum h, changedNumbers, Finset.card_filter, Finset.range_eq_Ico,
    Finset.sum_Ico_add' (fun n => if lineText new n ≠ lineText old n then 1 else 0)]
  rfl

section Rewrite

variable (source : Text) (ns : Notes) (verify : Bool)

theorem removed_rewrite : (rewrite source ns verify).removed =
    (changedNumbers (splitLines source) (splitLines (rewrite source ns verify).content)).card := by
  rw [← changedLines_eq_card (length_splitLines_rewrite source ns verify), splitLines_rewrite]
  rfl

/-- A line changes only if there is a note on it that changes it. -/
theorem mem_changedNumbers_rewrite {n : ℕ}
    (h : n ∈ changedNumbers (splitLines source)
      (splitLines (rewrite source ns verify).content)) :
    1 ≤ n ∧ n ≤ (splitLines source).length ∧ ∃ note, ns.get? n = some note ∧
      rewriteLine (splitLines source) verify (lineText (splitLines source) n) note ≠
        lineText (splitLines source) n := by
  obtain ⟨hrange, hne⟩ := Finset.mem_filter.1 h
  obtain ⟨hpos, hle⟩ := Finset.mem_Icc.1 hrange
  rw [lineText_rewrite, if_neg (by omega), rewrittenText] at hne
  refine ⟨hpos, hle, ?_⟩
  cases hget : ns.get? n with
  | none => simp [hget] at hne
  | some note => exact ⟨note, rfl, by simpa only [hget] using hne⟩

theorem removed_rewrite_le : (rewrite source ns verify).removed ≤
    (ns.toList.filter fun e => 1 ≤ e.1 ∧ e.1 ≤ (splitLines source).length).length := by
  rw [removed_rewrite]
  refine (Finset.card_le_card ?_).trans
    ((List.toFinset_card_le _).trans_eq (List.length_map Prod.fst))
  intro n hn
  obtain ⟨hpos, hle, note, hget, -⟩ := mem_changedNumbers_rewrite source ns verify hn
  rw [Notes.get?] at hget
  obtain ⟨e, hfind, -⟩ := Option.map_eq_some_iff.1 hget
  have hen : e.1 = n := by simpa using List.find?_some hfind
  refine List.mem_toFinset.2 (List.mem_map.2 ⟨e, List.mem_filter.2 ⟨?_, ?_⟩, hen⟩)
  · exact List.mem_of_find?_eq_some hfind
  · simp [hen, hpos, hle]

/-! ## Rewriting that changes nothing -/

theorem content_rewrite_eq_iff :
    (rewrite source ns verify).content = source ↔ (rewrite source ns verify).removed = 0 := by
  rw [removed_rewrite, Finset.card_eq_zero, changedNumbers, Finset.filter_eq_empty_iff]
  constructor
  · intro h n _
    rw [h]
    exact fun hne => hne rfl
  · intro h
    have hsame : splitLines (rewrite source ns verify).content = splitLines source := by
      refine List.ext_getElem? fun i => ?_
      cases hl : (splitLines source)[i]? with
      | none => rw [getElem?_rewrite, hl, Option.map_none]
      | some l =>
        have hi := (List.getElem?_eq_some_iff.1 hl).1
        have htext := not_not.1 (h (Finset.mem_Icc.2 ⟨Nat.succ_pos i, hi⟩))
        rw [lineText_rewrite, if_neg (by omega)] at htext
        refine getElem?_rewrite_of_eq hl ?_
        simpa [lineText, hl] using htext
    rw [← joinLines_splitLines (rewrite source ns verify).content, hsame, joinLines_splitLines]

/-- Nothing is removed exactly if no note changes its line. -/
theorem removed_rewrite_eq_zero_iff : (rewrite source ns verify).removed = 0 ↔
    ∀ n note, ns.get? n = some note →
      rewriteLine (splitLines source) verify (lineText (splitLines source) n) note =
        lineText (splitLines source) n := by
  rw [removed_rewrite, Finset.card_eq_zero, Finset.eq_empty_iff_forall_notMem]
  constructor
  · intro h n note hget
    by_contra hne
    by_cases hn : n = 0 ∨ (splitLines source).length < n
    · refine hne ?_
      rw [lineText_eq_nil hn]
      exact List.prefix_nil.1 (rewriteLine_isPrefix ..)
    · refine h n (Finset.mem_filter.2 ⟨Finset.mem_Icc.2 (by omega), ?_⟩)
      rwa [lineText_rewrite, if_neg hn, rewrittenText, hget]
  · intro h n hn
    obtain ⟨-, -, note, hget, hne⟩ := mem_changedNumbers_rewrite source ns verify hn
    exact hne (h n note hget)

/-- What is removed is missing from the characters of the lines. -/
theorem letters_rewrite_lt (h : (rewrite source ns verify).removed ≠ 0) :
    letters (splitLines (rewrite source ns verify).content) < letters (splitLines source) := by
  have hfront : ∀ n, lineText (splitLines (rewrite source ns verify).content) n <+:
      lineText (splitLines source) n := lineText_rewrite_isPrefix source ns verify
  rw [removed_rewrite, Ne, Finset.card_eq_zero, ← Ne, ← Finset.nonempty_iff_ne_empty] at h
  obtain ⟨n, hn⟩ := h
  obtain ⟨hrange, hne⟩ := Finset.mem_filter.1 hn
  rw [letters, letters, length_splitLines_rewrite]
  refine Finset.sum_lt_sum (fun m _ => (hfront m).length_le) ⟨n, hrange, ?_⟩
  exact (hfront n).length_le.lt_of_ne fun heq => hne ((hfront n).eq_of_length heq)

end Rewrite

/-! ## What is kept -/

/-- What `out`, in the place of `source`, keeps of its lines when `ns` are the notes taken out. -/
structure KeepsLines (source : Text) (ns : Notes) (out : Rewrite) : Prop where
  length_eq : (splitLines out.content).length = (splitLines source).length
  text_isPrefix : ∀ n, lineText (splitLines out.content) n <+: lineText (splitLines source) n
  /-- A line without a note stays, terminator included. -/
  line_eq : ∀ i, ns.get? (i + 1) = none → (splitLines out.content)[i]? = (splitLines source)[i]?
  /-- Only a last line can be without terminator. -/
  isLast : ∀ i l, (splitLines source)[i]? = some l → l.terminator = .none →
    i + 1 = (splitLines source).length
  /-- A line without terminator that becomes empty gets the one of the line before it. -/
  terminator_eq : ∀ i l l', (splitLines source)[i]? = some l →
    (splitLines out.content)[i]? = some l' →
      l'.terminator = if l.terminator = .none ∧ l'.text = [] then
        terminatorBefore .lf (splitLines source) i else l.terminator
  totalLines_eq : totalLines out.content = totalLines source
  total_eq : out.total = totalLines source
  removed_eq : out.removed = (changedNumbers (splitLines source) (splitLines out.content)).card
  removed_le : out.removed ≤
    (ns.toList.filter fun e => 1 ≤ e.1 ∧ e.1 ≤ (splitLines source).length).length

/-- **Rewriting keeps the lines**, whatever the notes are. -/
theorem rewrite_keepsLines (source : Text) (ns : Notes) (verify : Bool) :
    KeepsLines source ns (rewrite source ns verify) := by
  have hlength := length_splitLines_rewrite source ns verify
  refine ⟨hlength, lineText_rewrite_isPrefix source ns verify, fun i hget => ?_,
    fun i l hl => (isSplit_splitLines source).isLast hl, fun i l l' hl hl' => ?_, ?_, rfl,
    removed_rewrite source ns verify, removed_rewrite_le source ns verify⟩
  · cases hl : (splitLines source)[i]? with
    | none => rw [getElem?_rewrite, hl, Option.map_none]
    | some l => exact getElem?_rewrite_of_eq hl (by rw [rewrittenText, hget])
  · rw [getElem?_rewrite, hl, Option.map_some, Option.some_inj] at hl'
    subst hl'
    rfl
  · rw [totalLines, totalLines, hlength]

end Marginalia
