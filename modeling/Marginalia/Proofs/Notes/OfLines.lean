import Marginalia.Notes.OfLines
import Marginalia.Proofs.Notes

/-!
# The notes of physical lines

What the reading by lines records is sound in itself (`NotesOn`): its lines ascend, a comment
stands where its line has a number sign after an even number of quotes, and a literal has a note
with one and the same extent on each of its lines. The reading is put together from pieces
(`lineNotes_induction`) of which this holds, a comment (`notesOn_comment`) and a literal with all
its lines (`notesOn_block`), so it holds of the whole (`notesOn_lineNotes`).
-/

namespace Marginalia

/-! ## Comments -/

theorem commentStartFrom?_eq_some {even : Bool} {t : Text} {n : ℕ}
    (h : commentStartFrom? even t = some n) :
    t[n]? = some '#' ∧ ((t.take n).filter isQuote).length % 2 = if even then 0 else 1 := by
  induction t generalizing even n with
  | nil => simp [commentStartFrom?] at h
  | cons c r ih =>
    rw [commentStartFrom?] at h
    split at h
    · next hc =>
      obtain rfl : 0 = n := by simpa using h
      simp [hc]
    · obtain ⟨m, hm, rfl⟩ := Option.map_eq_some_iff.1 h
      obtain ⟨hsign, hparity⟩ := ih hm
      refine ⟨hsign, ?_⟩
      rw [List.take_succ_cons, List.filter_cons]
      by_cases hq : isQuote c = true
      · rw [if_pos hq] at hparity ⊢
        rw [List.length_cons]
        cases even <;> simp at hparity ⊢ <;> omega
      · rwa [if_neg hq] at hparity ⊢

/-- A comment starts with a number sign, after an even number of quotes. -/
theorem commentStart?_eq_some {t : Text} {n : ℕ} (h : commentStart? t = some n) :
    t[n]? = some '#' ∧ hasEvenQuotes (t.take n) = true := by
  obtain ⟨hsign, hparity⟩ := commentStartFrom?_eq_some h
  exact ⟨hsign, by simpa [hasEvenQuotes] using hparity⟩

/-! ## Soundness of notes -/

/-- The entries are sound for `lines`, the first of which is line `n`. -/
structure NotesOn (n : ℕ) (lines : List Text) (es : List (ℕ × Note)) : Prop where
  range : ∀ e ∈ es, n ≤ e.1 ∧ e.1 < n + lines.length
  ascending : es.Pairwise (·.1 < ·.1)
  comment : ∀ e ∈ es, e.2.kind.isString = false →
    ∃ i line, e.1 = n + i ∧ lines[i]? = some line ∧ commentStart? line = some e.2.column
  literal : ∀ e ∈ es, e.2.kind.isString = true → ∃ x, e.2.extent = some x
  /-- All lines of a literal have a note of it. -/
  whole : ∀ e ∈ es, ∀ x, e.2.extent = some x →
    n ≤ x.start.line ∧ x.stop.line < n + lines.length ∧
      ∀ k, x.start.line ≤ k → k ≤ x.stop.line →
        ∃ note, (k, note) ∈ es ∧ note.kind.isString = true ∧ note.extent = some x

theorem notesOn_nil (n : ℕ) (lines : List Text) : NotesOn n lines [] :=
  ⟨by simp, .nil, by simp, by simp, by simp⟩

/-- Notes on consecutive stretches of lines. -/
theorem NotesOn.append {n : ℕ} {ls ms : List Text} {es fs : List (ℕ × Note)}
    (h : NotesOn n ls es) (h' : NotesOn (n + ls.length) ms fs) :
    NotesOn n (ls ++ ms) (es ++ fs) where
  range e he := by
    rw [List.length_append]
    rcases List.mem_append.1 he with he | he
    · have := h.range e he
      omega
    · have := h'.range e he
      omega
  ascending := by
    refine List.pairwise_append.2 ⟨h.ascending, h'.ascending, fun e he f hf => ?_⟩
    have := h.range e he
    have := h'.range f hf
    omega
  comment e he hk := by
    rcases List.mem_append.1 he with he | he
    · obtain ⟨i, line, hi, hline, hstart⟩ := h.comment e he hk
      have hlt := (List.getElem?_eq_some_iff.1 hline).1
      exact ⟨i, line, hi, by rwa [List.getElem?_append_left hlt], hstart⟩
    · obtain ⟨i, line, hi, hline, hstart⟩ := h'.comment e he hk
      refine ⟨ls.length + i, line, by omega, ?_, hstart⟩
      rwa [List.getElem?_append_right (Nat.le_add_right ..), Nat.add_sub_cancel_left]
  literal e he := (List.mem_append.1 he).elim (h.literal e) (h'.literal e)
  whole e he x hx := by
    rw [List.length_append]
    rcases List.mem_append.1 he with he | he
    · obtain ⟨hstart, hstop, hall⟩ := h.whole e he x hx
      refine ⟨hstart, by omega, fun k hk hk' => ?_⟩
      obtain ⟨note, hmem, hnote⟩ := hall k hk hk'
      exact ⟨note, List.mem_append_left _ hmem, hnote⟩
    · obtain ⟨hstart, hstop, hall⟩ := h'.whole e he x hx
      refine ⟨by omega, by omega, fun k hk hk' => ?_⟩
      obtain ⟨note, hmem, hnote⟩ := hall k hk hk'
      exact ⟨note, List.mem_append_right _ hmem, hnote⟩

theorem notesOn_comment (n : ℕ) (line : Text) :
    NotesOn n [line] (commentNote? n line).toList := by
  rw [commentNote?]
  cases hstart : commentStart? line with
  | none => exact notesOn_nil n [line]
  | some column =>
    refine ⟨?_, List.pairwise_singleton .., ?_, ?_, ?_⟩
    · simp
    · intro e he _
      obtain rfl := List.mem_singleton.1 he
      exact ⟨0, line, rfl, rfl, hstart⟩
    · intro e he hk
      obtain rfl := List.mem_singleton.1 he
      exact Bool.noConfusion hk
    · intro e he x hx
      obtain rfl := List.mem_singleton.1 he
      simp at hx

/-- The notes of a literal on its lines. -/
theorem mem_blockNotes {n column m : ℕ} {first : Text} {below : List Text} {extent : Extent}
    {note : Note} (h : (m, note) ∈ blockNotes n column first below extent) :
    n ≤ m ∧ m ≤ n + below.length ∧ note.kind = .standaloneString ∧ note.extent = some extent := by
  rcases List.mem_cons.1 h with heq | h
  · obtain ⟨rfl, rfl⟩ := Prod.mk.inj heq
    exact ⟨Nat.le_refl _, Nat.le_add_right .., rfl, rfl⟩
  · obtain ⟨i, hi, heq⟩ := List.mem_mapIdx.1 h
    obtain ⟨rfl, rfl⟩ := Prod.mk.inj heq
    exact ⟨by omega, by omega, rfl, rfl⟩

theorem exists_mem_blockNotes {n k : ℕ} (column : ℕ) (first : Text) {below : List Text}
    (extent : Extent) (hn : n ≤ k) (hk : k ≤ n + below.length) :
    ∃ note, (k, note) ∈ blockNotes n column first below extent := by
  rcases Nat.eq_or_lt_of_le hn with rfl | hlt
  · exact ⟨_, List.mem_cons_self⟩
  · obtain ⟨i, rfl⟩ := Nat.exists_eq_add_of_le hlt
    exact ⟨_, List.mem_cons_of_mem _ (List.mem_mapIdx.2 ⟨i, by omega, rfl⟩)⟩

theorem notesOn_block {n column : ℕ} {first line : Text} {below : List Text} {extent : Extent}
    (hstart : extent.start.line = n) (hstop : extent.stop.line = n + below.length) :
    NotesOn n (line :: below) (blockNotes n column first below extent) where
  range e he := by
    have := mem_blockNotes he
    rw [List.length_cons]
    omega
  ascending := by
    refine List.pairwise_cons.2 ⟨fun e he => ?_, ?_⟩
    · obtain ⟨i, hi, rfl⟩ := List.mem_mapIdx.1 he
      simp only
      omega
    · rw [List.pairwise_iff_getElem]
      intro i j hi hj hij
      simp only [List.getElem_mapIdx]
      omega
  comment e he hk := by
    rw [(mem_blockNotes he).2.2.1] at hk
    exact Bool.noConfusion hk
  literal e he _ := ⟨extent, (mem_blockNotes he).2.2.2⟩
  whole e he x hx := by
    rw [(mem_blockNotes he).2.2.2, Option.some_inj] at hx
    subst hx
    rw [List.length_cons]
    refine ⟨by omega, by omega, fun k hk hk' => ?_⟩
    obtain ⟨note, hmem⟩ := exists_mem_blockNotes column first extent
      (hstart ▸ hk) (hstop ▸ hk')
    obtain ⟨-, -, hkind, hextent⟩ := mem_blockNotes hmem
    exact ⟨note, hmem, by rw [hkind]; rfl, hextent⟩

/-! ## The reading -/

theorem closingLine?_lt {quotes : Text} {ls : List Text} {k column : ℕ}
    (h : closingLine? quotes ls = some (k, column)) : k < ls.length := by
  induction ls generalizing k column with
  | nil => simp [closingLine?] at h
  | cons l ls ih =>
    rw [closingLine?] at h
    split at h
    · obtain ⟨rfl, -⟩ : 0 = k ∧ _ := by simpa using h
      exact Nat.succ_pos _
    · obtain ⟨⟨m, column'⟩, hm, heq⟩ := Option.map_eq_some_iff.1 h
      obtain ⟨rfl, -⟩ := Prod.mk.inj heq
      exact Nat.succ_lt_succ (ih hm)

/-- A literal ends on one of the lines of the source. -/
theorem closing_le (quotes line : Text) (bodyAt : ℕ) (after : List Text) :
    (closing quotes line bodyAt after).1 ≤ after.length := by
  rw [closing]
  split
  · exact Nat.zero_le _
  · split
    · next h => exact closingLine?_lt h
    · exact Nat.le_refl _

/-- **The reading is put together** from the notes of stretches of lines: of lines without notes,
of a line with a comment, and of a literal with all its lines. -/
theorem lineNotes_induction {P : ℕ → List Text → List (ℕ × Note) → Prop}
    (nil : ∀ n lines, P n lines [])
    (append : ∀ {n ls ms es fs}, P n ls es → P (n + ls.length) ms fs → P n (ls ++ ms) (es ++ fs))
    (comment : ∀ n line, P n [line] (commentNote? n line).toList)
    (block : ∀ {n column line below extent}, extent.start.line = n →
      extent.stop.line = n + below.length →
        P n (line :: below) (blockNotes n column (line.drop column) below extent))
    (before : List Text) (inCode : Option Text) (n : ℕ) (lines : List Text) :
    P n lines (lineNotes before inCode n lines) := by
  fun_induction lineNotes before inCode n lines with
  | case1 => exact nil _ _
  | case2 before n line after quotes ih => exact append (nil n [line]) ih
  | case3 before n line after quotes column hopen k stopColumn hclosing extent ih =>
    have hk : k ≤ after.length := by
      have := closing_le quotes line (column + quotes.length) after
      rwa [hclosing] at this
    have hlen : (after.take k).length = k := List.length_take_of_le hk
    have hblock : P n (line :: after.take k)
        (blockNotes n column (line.drop column) (after.take k) extent) :=
      block rfl (by rw [hlen])
    have hrest : P (n + (line :: after.take k).length) (after.drop k)
        (lineNotes ((after.take k).reverse ++ line :: before) none (n + k + 1)
          (after.drop k)) := by
      rw [List.length_cons, hlen]
      exact ih
    have happend := append hblock hrest
    rwa [List.cons_append, List.take_append_drop] at happend
  | case4 before n line after hopen ih => exact append (comment n line) ih

/-- **The notes that lines give are sound.** -/
theorem notesOn_lineNotes (before : List Text) (inCode : Option Text) (n : ℕ) (lines : List Text) :
    NotesOn n lines (lineNotes before inCode n lines) :=
  lineNotes_induction notesOn_nil NotesOn.append notesOn_comment notesOn_block before inCode n lines

theorem get?_ofLines_eq_some_iff {source : Text} {n : ℕ} {note : Note} :
    (Notes.ofLines source).get? n = some note ↔
      (n, note) ∈ lineNotes [] none 1 ((splitLines source).map Line.text) := by
  rw [Notes.ofLines, Notes.get?_insertAll, Notes.get?_empty, Option.or_none]
  exact Notes.lastAt?_eq_some_iff (notesOn_lineNotes ..).ascending

end Marginalia
