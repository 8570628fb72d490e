import Mathlib.Data.List.TakeWhile
import Mathlib.Order.Bounds.Defs
import Marginalia.Proofs.Notes.OfLines
import Marginalia.Proofs.Position
import Marginalia.Proofs.Text.Trim

/-!
# The literals that lines are read to have

The reading by lines goes on in steps (`LineState.step?`), each of which takes at least one line, so
there are no more steps than lines (`LineState.exists_steps`). A step that takes a literal finds its
opening quotes behind blank characters only (`openingBlock?_spec`) and ends it at the first place
where its quotes stand again, or with the last line (`endsAt_closing`). What is recorded of the
literals is therefore exact, and no two of them share a line (`areBlocks_ofLines`).
-/

namespace Marginalia

/-! ## Where quotes stand -/

/-- The quotes stand at a position of the lines, the first of which is line 1. -/
def QuotesAt (quotes : Text) (lines : List Text) (p : Position) : Prop :=
  ∃ i line, p.line = i + 1 ∧ lines[i]? = some line ∧ quotes <+: line.drop p.column

/-- The literal with these quotes that opens at `start` ends at `stop`: just past the first place
behind its opening quotes where they stand again, or else behind the last line. -/
inductive EndsAt (quotes : Text) (lines : List Text) (start : Position) : Position → Prop
  | closed {p : Position}
      (h : IsLeast
        {p | ⟨start.line, start.column + quotes.length⟩ ≤ p ∧ QuotesAt quotes lines p} p) :
      EndsAt quotes lines start ⟨p.line, p.column + quotes.length⟩
  | unclosed {last : Text}
      (h : ∀ p, ⟨start.line, start.column + quotes.length⟩ ≤ p → ¬ QuotesAt quotes lines p)
      (hlast : lines.getLast? = some last) : EndsAt quotes lines start ⟨lines.length, last.length⟩

/-- A literal in triple quotes that stands on the lines from `x.start` to `x.stop`, with nothing but
blank characters in front of it. -/
structure IsBlock (quotes : Text) (lines : List Text) (x : Extent) : Prop where
  mem : quotes ∈ tripleQuotes
  opens : QuotesAt quotes lines x.start
  blank : ∀ i line, x.start.line = i + 1 → lines[i]? = some line →
    ∀ c ∈ line.take x.start.column, isBlankChar c = true
  ends : EndsAt quotes lines x.start x.stop

/-- The note on line `n` is a comment, or belongs to a literal in triple quotes that has this
line. -/
inductive Recorded (lines : List Text) (n : ℕ) (note : Note) : Prop
  | comment (hk : note.kind = .comment) (hx : note.extent = none)
  | literal {quotes : Text} {x : Extent} (hk : note.kind = .standaloneString)
      (hx : note.extent = some x) (hstart : x.start.line ≤ n) (hstop : n ≤ x.stop.line)
      (hblock : IsBlock quotes lines x)

/-! ## Searching for quotes -/

theorem Text.find?_eq_none {needle t : Text} (hne : needle ≠ []) (h : Text.find? needle t = none)
    (n : ℕ) : ¬ needle <+: t.drop n := by
  induction t generalizing n with
  | nil =>
    rw [List.drop_nil, List.prefix_nil]
    exact hne
  | cons c r ih =>
    rw [Text.find?] at h
    split at h
    · simp at h
    · next hc =>
      cases n with
      | zero => rwa [List.drop_zero, ← List.isPrefixOf_iff_prefix]
      | succ n => exact ih (Option.map_eq_none_iff.1 h) n

theorem Text.find?_eq_some {needle t : Text} {n : ℕ} (hne : needle ≠ [])
    (h : Text.find? needle t = some n) :
    needle <+: t.drop n ∧ ∀ m, needle <+: t.drop m → n ≤ m := by
  induction t generalizing n with
  | nil => simp [Text.find?, hne] at h
  | cons c r ih =>
    rw [Text.find?] at h
    split at h
    · next hc =>
      obtain rfl : 0 = n := by simpa using h
      exact ⟨List.isPrefixOf_iff_prefix.1 hc, fun m _ => Nat.zero_le m⟩
    · next hc =>
      obtain ⟨n, hn, rfl⟩ := Option.map_eq_some_iff.1 h
      obtain ⟨hat, hfirst⟩ := ih hn
      refine ⟨hat, fun m hm => ?_⟩
      cases m with
      | zero => exact absurd (List.isPrefixOf_iff_prefix.2 hm) hc
      | succ m => exact Nat.succ_le_succ (hfirst m hm)

theorem closingLine?_eq_none {quotes : Text} {ls : List Text} (h : closingLine? quotes ls = none) :
    ∀ l ∈ ls, Text.find? quotes l = none := by
  induction ls with
  | nil => simp
  | cons l ls ih =>
    rw [closingLine?] at h
    split at h
    · simp at h
    · next hl => exact List.forall_mem_cons.2 ⟨hl, ih (Option.map_eq_none_iff.1 h)⟩

theorem closingLine?_eq_some {quotes : Text} {ls : List Text} {k column : ℕ}
    (h : closingLine? quotes ls = some (k, column)) :
    ∃ l n, ls[k]? = some l ∧ Text.find? quotes l = some n ∧ column = n + quotes.length ∧
      ∀ j l, j < k → ls[j]? = some l → Text.find? quotes l = none := by
  induction ls generalizing k column with
  | nil => simp [closingLine?] at h
  | cons l ls ih =>
    rw [closingLine?] at h
    split at h
    · next n hn =>
      obtain ⟨rfl, rfl⟩ : 0 = k ∧ n + quotes.length = column := by simpa using h
      exact ⟨l, n, rfl, hn, rfl, fun j _ hj => absurd hj (Nat.not_lt_zero j)⟩
    · next hl =>
      obtain ⟨⟨k, column⟩, hk, heq⟩ := Option.map_eq_some_iff.1 h
      obtain ⟨rfl, rfl⟩ := Prod.mk.inj heq
      obtain ⟨l', n, hl', hn, rfl, hbefore⟩ := ih hk
      refine ⟨l', n, hl', hn, rfl, fun j m hj hm => ?_⟩
      cases j with
      | zero =>
        obtain rfl : l = m := by simpa using hm
        exact hl
      | succ j => exact hbefore j m (by omega) hm

/-! ## Where a literal starts and ends -/

theorem ne_nil_of_mem_tripleQuotes {quotes : Text} (h : quotes ∈ tripleQuotes) : quotes ≠ [] := by
  rintro rfl
  simp [tripleQuotes] at h

/-- The opening quotes of a literal stand behind blank characters. -/
theorem openingBlock?_spec {before : List Text} {line quotes : Text} {column : ℕ}
    (h : openingBlock? before line = some (quotes, column)) :
    quotes ∈ tripleQuotes ∧ quotes <+: line.drop column ∧
      ∀ c ∈ line.take column, isBlankChar c = true := by
  simp only [openingBlock?] at h
  split at h
  · next q hq =>
    split at h
    · obtain ⟨rfl, rfl⟩ := Prod.mk.inj (Option.some.inj h)
      have hlength := congrArg List.length
        (List.takeWhile_append_dropWhile (p := isBlankChar) (l := line))
      rw [List.length_append] at hlength
      have hcolumn : line.length - (line.dropWhile isBlankChar).length =
          (line.takeWhile isBlankChar).length := by omega
      have hstarts := List.find?_some hq
      rw [hcolumn, Text.drop_takeWhile, Text.take_takeWhile]
      exact ⟨List.mem_of_find?_eq_some hq, List.isPrefixOf_iff_prefix.1 hstarts,
        fun c hc => List.mem_takeWhile_imp hc⟩
    · simp at h
  · simp at h

/-- Where the quotes stand from a place on: behind it on its line, or on a line further down. -/
theorem QuotesAt.cases {quotes line : Text} {before after : List Text} {p : Position} {bodyAt : ℕ}
    (hle : (⟨before.length + 1, bodyAt⟩ : Position) ≤ p)
    (h : QuotesAt quotes (before ++ line :: after) p) :
    (p.line = before.length + 1 ∧ ∃ m, p.column = bodyAt + m ∧
      quotes <+: (line.drop bodyAt).drop m) ∨
    ∃ j l, p.line = before.length + 1 + (j + 1) ∧ after[j]? = some l ∧
      quotes <+: l.drop p.column := by
  obtain ⟨i, l, hi, hl, hat⟩ := h
  rw [Position.le_iff] at hle
  simp only at hle
  obtain ⟨j, rfl⟩ := Nat.exists_eq_add_of_le (show before.length ≤ i by omega)
  rw [List.getElem?_append_right (Nat.le_add_right ..), Nat.add_sub_cancel_left] at hl
  cases j with
  | zero =>
    obtain rfl : line = l := by simpa using hl
    obtain ⟨m, hm⟩ := Nat.exists_eq_add_of_le (show bodyAt ≤ p.column by omega)
    rw [hm, ← List.drop_drop] at hat
    exact Or.inl ⟨by omega, m, hm, hat⟩
  | succ j => exact Or.inr ⟨j, l, by omega, hl, hat⟩

section Closing

variable {quotes : Text} (hne : quotes ≠ []) (before : List Text) (line : Text) (bodyAt : ℕ)
  (after : List Text)
include hne

/-- The quotes stand first on the line itself. -/
theorem isLeast_of_find? {n : ℕ} (hn : Text.find? quotes (line.drop bodyAt) = some n) :
    IsLeast {p | ⟨before.length + 1, bodyAt⟩ ≤ p ∧ QuotesAt quotes (before ++ line :: after) p}
      ⟨before.length + 1, bodyAt + n⟩ := by
  obtain ⟨hat, hfirst⟩ := Text.find?_eq_some hne hn
  refine ⟨⟨?_, before.length, line, rfl, by simp, ?_⟩, ?_⟩
  · exact Position.le_iff.2 (Or.inr ⟨rfl, Nat.le_add_right ..⟩)
  · rwa [← List.drop_drop]
  · rintro p ⟨hle, hp⟩
    rw [Position.le_iff]
    rcases hp.cases hle with ⟨hline, m, hm, hat'⟩ | ⟨j, l, hline, -, -⟩
    · have := hfirst m hat'
      simp only
      omega
    · simp only
      omega

section Below

variable (hnone : Text.find? quotes (line.drop bodyAt) = none)
include hnone

/-- The quotes stand first on a line further down. -/
theorem isLeast_of_closingLine? {k column : ℕ} (h : closingLine? quotes after = some (k, column)) :
    ∃ n, column = n + quotes.length ∧
      IsLeast {p | ⟨before.length + 1, bodyAt⟩ ≤ p ∧ QuotesAt quotes (before ++ line :: after) p}
        ⟨before.length + 1 + (k + 1), n⟩ := by
  obtain ⟨l, n, hl, hn, hcolumn, hbefore⟩ := closingLine?_eq_some h
  obtain ⟨hat, hfirst⟩ := Text.find?_eq_some hne hn
  refine ⟨n, hcolumn, ⟨?_, before.length + (k + 1), l, by simp only; omega, ?_, hat⟩, ?_⟩
  · exact Position.le_iff.2 (Or.inl (by simp only; omega))
  · rw [List.getElem?_append_right (Nat.le_add_right ..), Nat.add_sub_cancel_left]
    exact hl
  · rintro p ⟨hle, hp⟩
    rw [Position.le_iff]
    rcases hp.cases hle with ⟨-, m, -, hat'⟩ | ⟨j, l', hline, hl', hat'⟩
    · exact absurd hat' (Text.find?_eq_none hne hnone m)
    · rcases Nat.lt_trichotomy j k with hlt | rfl | hgt
      · exact absurd hat' (Text.find?_eq_none hne (hbefore j l' hlt hl') p.column)
      · obtain rfl : l = l' := Option.some.inj (hl.symm.trans hl')
        have := hfirst p.column hat'
        simp only
        omega
      · simp only
        omega

/-- The quotes stand nowhere any more. -/
theorem not_quotesAt_of_closingLine? (h : closingLine? quotes after = none) (p : Position)
    (hle : ⟨before.length + 1, bodyAt⟩ ≤ p) : ¬ QuotesAt quotes (before ++ line :: after) p := by
  intro hp
  rcases hp.cases hle with ⟨-, m, -, hat⟩ | ⟨j, l, -, hl, hat⟩
  · exact Text.find?_eq_none hne hnone m hat
  · exact Text.find?_eq_none hne (closingLine?_eq_none h l (List.mem_of_getElem? hl)) p.column hat

end Below

/-- **A literal ends at the first place where its quotes stand again**, or with the last line. -/
theorem endsAt_closing (column : ℕ) {k stopColumn : ℕ}
    (h : closing quotes line (column + quotes.length) after = (k, stopColumn)) :
    EndsAt quotes (before ++ line :: after) ⟨before.length + 1, column⟩
      ⟨before.length + 1 + k, stopColumn⟩ := by
  rw [closing] at h
  split at h
  · next n hn =>
    obtain ⟨rfl, rfl⟩ := Prod.mk.inj h
    exact @EndsAt.closed _ _ ⟨_, column⟩ _ (isLeast_of_find? hne before line _ after hn)
  · next hnone =>
    split at h
    · next hk =>
      obtain ⟨rfl, rfl⟩ := Prod.mk.inj h
      obtain ⟨n, rfl, hleast⟩ := isLeast_of_closingLine? hne before line _ after hnone hk
      exact @EndsAt.closed _ _ ⟨_, column⟩ _ hleast
    · next hk =>
      obtain ⟨rfl, rfl⟩ := Prod.mk.inj h
      have hlength : before.length + 1 + after.length = (before ++ line :: after).length := by
        simp only [List.length_append, List.length_cons]
        omega
      rw [hlength]
      refine .unclosed (not_quotesAt_of_closingLine? hne before line _ after hnone hk) ?_
      rw [List.getLast?_append, List.getLast?_cons]
      rfl

end Closing

/-! ## Reading in steps -/

/-- How far the reading has come: the lines read (nearest first), the quotes of a string of code
that are open, the lines to read, and the notes found. -/
structure LineState where
  before : List Text
  inCode : Option Text
  rest : List Text
  found : List (ℕ × Note)

namespace LineState

/-- Before the first line. -/
def start (lines : List Text) : LineState := ⟨[], none, lines, []⟩

/-- The number of the next line. -/
def line (s : LineState) : ℕ := s.before.length + 1

/-- One step of the reading; `none` when no line is left. -/
def step? (s : LineState) : Option LineState :=
  match s.rest with
  | [] => none
  | line :: after =>
    match s.inCode with
    | some quotes =>
      some ⟨line :: s.before, if Text.hasInfix line quotes then none else some quotes, after,
        s.found⟩
    | none =>
      match openingBlock? s.before line with
      | some (quotes, column) =>
        let (k, stopColumn) := closing quotes line (column + quotes.length) after
        let extent : Extent := ⟨⟨s.line, column⟩, ⟨s.line + k, stopColumn⟩⟩
        some ⟨(after.take k).reverse ++ line :: s.before, none, after.drop k,
          s.found ++ blockNotes s.line column (line.drop column) (after.take k) extent⟩
      | none =>
        some ⟨line :: s.before, openQuotes? (codePart line), after,
          s.found ++ (commentNote? s.line line).toList⟩

/-- What one step does: it passes a line of a string of code, or a line with perhaps a comment, or
all the lines of a literal. -/
inductive Step (s : LineState) : LineState → Prop
  | inCode {line quotes : Text} {after : List Text} (hrest : s.rest = line :: after)
      (hin : s.inCode = some quotes) :
      Step s ⟨line :: s.before, if Text.hasInfix line quotes then none else some quotes, after,
        s.found⟩
  | comment {line : Text} {after : List Text} (hrest : s.rest = line :: after)
      (hin : s.inCode = none) (hopen : openingBlock? s.before line = none) :
      Step s ⟨line :: s.before, openQuotes? (codePart line), after,
        s.found ++ (commentNote? s.line line).toList⟩
  | block {line quotes : Text} {after : List Text} {column k stopColumn : ℕ}
      (hrest : s.rest = line :: after) (hin : s.inCode = none)
      (hopen : openingBlock? s.before line = some (quotes, column))
      (hclosing : closing quotes line (column + quotes.length) after = (k, stopColumn)) :
      Step s ⟨(after.take k).reverse ++ line :: s.before, none, after.drop k,
        s.found ++ blockNotes s.line column (line.drop column) (after.take k)
          ⟨⟨s.line, column⟩, ⟨s.line + k, stopColumn⟩⟩⟩

variable {s s' : LineState} {lines : List Text}

theorem step_of_step? (h : s.step? = some s') : s.Step s' := by
  rw [step?] at h
  split at h
  · simp at h
  · next line after hrest =>
    split at h
    · next quotes hin =>
      obtain rfl := Option.some.inj h
      exact .inCode hrest hin
    · next hin =>
      split at h
      · next quotes column hopen =>
        obtain rfl := Option.some.inj h
        exact .block hrest hin hopen rfl
      · next hopen =>
        obtain rfl := Option.some.inj h
        exact .comment hrest hin hopen

theorem step?_eq_none : s.step? = none ↔ s.rest = [] := by
  rw [step?]
  cases hrest : s.rest with
  | nil => simp
  | cons line after =>
    simp only [reduceCtorEq, iff_false]
    split
    · simp
    · split <;> simp

/-- A step takes at least one line. -/
theorem Step.length_lt (h : s.Step s') : s'.rest.length < s.rest.length := by
  cases h with
  | inCode hrest _ | comment hrest _ _ =>
    rw [hrest]
    exact Nat.lt_succ_self _
  | block hrest _ _ _ =>
    rw [hrest, List.length_drop]
    exact Nat.lt_succ_of_le (Nat.sub_le ..)

/-- All that will have been found at the end. -/
def notes (s : LineState) : List (ℕ × Note) :=
  s.found ++ lineNotes s.before s.inCode s.line s.rest

/-- The steps are those of the reading. -/
theorem Step.notes_eq (h : s.Step s') : s'.notes = s.notes := by
  cases h with
  | inCode hrest hin =>
    rw [notes, notes, hrest, hin, lineNotes]
    rfl
  | comment hrest hin hopen =>
    rw [notes, notes, hrest, hin, lineNotes, hopen, List.append_assoc]
    rfl
  | @block line quotes after column k stopColumn hrest hin hopen hclosing =>
    have hk : k ≤ after.length := by
      have := closing_le quotes line (column + quotes.length) after
      rwa [hclosing] at this
    have hline : ((after.take k).reverse ++ line :: s.before).length + 1 = s.line + k + 1 := by
      rw [LineState.line, List.length_append, List.length_reverse, List.length_take_of_le hk,
        List.length_cons]
      omega
    rw [notes, notes, hrest, hin, lineNotes, hopen, List.append_assoc]
    simp only [hclosing, LineState.line] at hline ⊢
    rw [hline]

/-- The reading has come this far through the lines, and what it has found is right. -/
structure Sound (lines : List Text) (s : LineState) : Prop where
  lines_eq : s.before.reverse ++ s.rest = lines
  recorded : ∀ e ∈ s.found, Recorded lines e.1 e.2

theorem sound_start (lines : List Text) : (start lines).Sound lines :=
  ⟨rfl, by simp [start]⟩

/-- A step keeps the reading sound. -/
theorem Sound.step (h : s.Sound lines) (hstep : s.Step s') : s'.Sound lines := by
  obtain ⟨rfl, hfound⟩ := h
  cases hstep with
  | inCode hrest hin => exact ⟨by simp [hrest], hfound⟩
  | @comment line after hrest hin hopen =>
    refine ⟨by simp [hrest], List.forall_mem_append.2 ⟨hfound, fun e he => ?_⟩⟩
    rw [commentNote?, Option.mem_toList, Option.map_eq_some_iff] at he
    obtain ⟨column, -, rfl⟩ := he
    exact .comment rfl rfl
  | @block line quotes after column k stopColumn hrest hin hopen hclosing =>
    refine ⟨by simp [hrest], List.forall_mem_append.2 ⟨hfound, fun e he => ?_⟩⟩
    obtain ⟨hmem, hat, hblank⟩ := openingBlock?_spec hopen
    have hends := endsAt_closing (ne_nil_of_mem_tripleQuotes hmem) s.before.reverse line after
      column hclosing
    rw [List.length_reverse] at hends
    have hline : (s.before.reverse ++ s.rest)[s.before.length]? = some line := by
      simp [hrest]
    have hblock : IsBlock quotes (s.before.reverse ++ s.rest)
        ⟨⟨s.line, column⟩, ⟨s.line + k, stopColumn⟩⟩ :=
      { mem := hmem
        opens := ⟨s.before.length, line, rfl, hline, hat⟩
        blank := fun i l hi hl => by
          obtain rfl : s.before.length = i := Nat.succ.inj hi
          obtain rfl : line = l := Option.some.inj (hline.symm.trans hl)
          exact hblank
        ends := by rw [hrest]; exact hends }
    obtain ⟨hn, hle, hk, hx⟩ := mem_blockNotes he
    refine .literal hk hx hn (hle.trans ?_) hblock
    exact Nat.add_le_add_left (List.length_take_le ..) _

/-- `Steps k s s'`: `k` steps lead from `s` to `s'`. -/
inductive Steps : ℕ → LineState → LineState → Prop
  | zero {s : LineState} : Steps 0 s s
  | succ {k : ℕ} {s s' s'' : LineState} (h : s.step? = some s') (h' : Steps k s' s'') :
      Steps (k + 1) s s''

theorem Steps.sound {k : ℕ} (h : Steps k s s') (hs : s.Sound lines) : s'.Sound lines := by
  induction h with
  | zero => exact hs
  | succ hstep _ ih => exact ih (hs.step (step_of_step? hstep))

theorem Steps.notes_eq {k : ℕ} (h : Steps k s s') : s'.notes = s.notes := by
  induction h with
  | zero => rfl
  | succ hstep _ ih => rw [ih, (step_of_step? hstep).notes_eq]

/-- **There are no more steps than lines.** -/
theorem exists_steps (s : LineState) :
    ∃ k s', k ≤ s.rest.length ∧ Steps k s s' ∧ s'.step? = none := by
  induction hn : s.rest.length using Nat.strong_induction_on generalizing s with
  | _ n ih =>
    cases hstep : s.step? with
    | none => exact ⟨0, s, Nat.zero_le n, .zero, hstep⟩
    | some s₁ =>
      have hlt := (step_of_step? hstep).length_lt
      rw [hn] at hlt
      obtain ⟨k, s', hk, hsteps, hend⟩ := ih _ hlt s₁ rfl
      exact ⟨k + 1, s', by omega, .succ hstep hsteps, hend⟩

/-- At the end all notes have been found. -/
theorem notes_of_step? (h : s.step? = none) : s.notes = s.found := by
  rw [notes, step?_eq_none.1 h, lineNotes, List.append_nil]

end LineState

/-! ## The notes of a source -/

/-- Line `n` has a note of the literal with extent `x`. -/
def Notes.HasLiteral (ns : Notes) (n : ℕ) (x : Extent) : Prop :=
  ∃ note, ns.get? n = some note ∧ note.kind = .standaloneString ∧ note.extent = some x

/-- The notes are comments and literals in triple quotes. A literal has a note on each of its lines,
and shares no line with another literal or a comment. -/
structure AreBlocks (lines : List Text) (ns : Notes) : Prop where
  recorded : ∀ n note, ns.get? n = some note → Recorded lines n note
  whole : ∀ n x, ns.HasLiteral n x → ∀ k, x.start.line ≤ k → k ≤ x.stop.line → ns.HasLiteral k x
  apart : ∀ n m x y, ns.HasLiteral n x → ns.HasLiteral m y →
    x = y ∨ x.stop.line < y.start.line ∨ y.stop.line < x.start.line

section OfLines

variable {source : Text} {n m : ℕ} {x y : Extent}

theorem recorded_of_get? {note : Note} (h : (Notes.ofLines source).get? n = some note) :
    Recorded ((splitLines source).map Line.text) n note := by
  obtain ⟨k, s, -, hsteps, hend⟩ :=
    LineState.exists_steps (.start ((splitLines source).map Line.text))
  have hfound := LineState.notes_of_step? hend
  rw [hsteps.notes_eq] at hfound
  have hmem : (n, note) ∈ s.found := by
    rw [← hfound]
    exact get?_ofLines_eq_some_iff.1 h
  exact (hsteps.sound (LineState.sound_start _)).recorded _ hmem

/-- A note with an extent is that of a literal on the line. -/
theorem Recorded.of_extent {lines : List Text} {note : Note} (h : Recorded lines n note)
    (hx : note.extent = some x) :
    note.kind = .standaloneString ∧ x.start.line ≤ n ∧ n ≤ x.stop.line := by
  cases h with
  | comment _ hnone => simp [hx] at hnone
  | literal hk hx' hstart hstop _ =>
    obtain rfl := Option.some.inj (hx.symm.trans hx')
    exact ⟨hk, hstart, hstop⟩

theorem line_of_hasLiteral (h : (Notes.ofLines source).HasLiteral n x) :
    x.start.line ≤ n ∧ n ≤ x.stop.line := by
  obtain ⟨note, hn, -, hx⟩ := h
  exact ((recorded_of_get? hn).of_extent hx).2

/-- All lines of a literal have a note of it. -/
theorem hasLiteral_of_hasLiteral (h : (Notes.ofLines source).HasLiteral n x)
    (hstart : x.start.line ≤ m) (hstop : m ≤ x.stop.line) :
    (Notes.ofLines source).HasLiteral m x := by
  obtain ⟨note, hn, -, hx⟩ := h
  have hsound := notesOn_lineNotes [] none 1 ((splitLines source).map Line.text)
  obtain ⟨-, -, hall⟩ := hsound.whole _ (get?_ofLines_eq_some_iff.1 hn) x hx
  obtain ⟨note', hm, -, hx'⟩ := hall m hstart hstop
  have hm' := get?_ofLines_eq_some_iff.2 hm
  exact ⟨note', hm', ((recorded_of_get? hm').of_extent hx').1, hx'⟩

theorem Notes.HasLiteral.eq {ns : Notes} (hx : ns.HasLiteral n x) (hy : ns.HasLiteral n y) :
    x = y := by
  obtain ⟨note, hn, -, hx⟩ := hx
  obtain ⟨note', hn', -, hy⟩ := hy
  obtain rfl := Option.some.inj (hn.symm.trans hn')
  exact Option.some.inj (hx.symm.trans hy)

/-- Two literals have no line in common. -/
theorem apart_of_hasLiteral (hx : (Notes.ofLines source).HasLiteral n x)
    (hy : (Notes.ofLines source).HasLiteral m y) :
    x = y ∨ x.stop.line < y.start.line ∨ y.stop.line < x.start.line := by
  have hn := line_of_hasLiteral hx
  have hm := line_of_hasLiteral hy
  by_cases hapart : x.stop.line < y.start.line ∨ y.stop.line < x.start.line
  · exact Or.inr hapart
  · -- the line where the later of the two starts has a note of both
    left
    rcases Nat.le_total x.start.line y.start.line with hle | hle
    · exact (hasLiteral_of_hasLiteral hx hle (by omega)).eq
        (hasLiteral_of_hasLiteral hy (Nat.le_refl _) (by omega))
    · exact (hasLiteral_of_hasLiteral hx (Nat.le_refl _) (by omega)).eq
        (hasLiteral_of_hasLiteral hy hle (by omega))

end OfLines

/-- **What is recorded of the literals is exact**, and the reading makes at most one step for each
line. -/
theorem areBlocks_ofLines (source : Text) :
    AreBlocks ((splitLines source).map Line.text) (Notes.ofLines source) ∧
    ∃ k s, k ≤ (splitLines source).length ∧
      LineState.Steps k (.start ((splitLines source).map Line.text)) s ∧ s.step? = none ∧
        Notes.ofLines source = Notes.empty.insertAll s.found := by
  constructor
  · exact {
      recorded := fun n note => recorded_of_get?
      whole := fun n x h k => hasLiteral_of_hasLiteral h
      apart := fun n m x y => apart_of_hasLiteral }
  · obtain ⟨k, s, hk, hsteps, hend⟩ :=
      LineState.exists_steps (.start ((splitLines source).map Line.text))
    have hfound := LineState.notes_of_step? hend
    rw [hsteps.notes_eq] at hfound
    refine ⟨k, s, by simpa [LineState.start] using hk, hsteps, hend, ?_⟩
    rw [← hfound]
    rfl

/-- The first of four quotes in a row end a literal. -/
example : (Notes.ofLines "x = 1\n\ufeff '''a\nb''''c\n".toList).get? 3 =
    some ⟨"b''''c".toList, .standaloneString, 0, some ⟨⟨2, 2⟩, ⟨3, 4⟩⟩⟩ := by
  decide +kernel

end Marginalia
