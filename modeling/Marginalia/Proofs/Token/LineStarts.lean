import Mathlib.Data.List.Chain
import Marginalia.Proofs.Text.Lines
import Marginalia.Proofs.Token.Acceptance

/-!
# Where logical lines may start

A logical line may start on the first line of a source, and behind each line break outside brackets.
`lineStarts` reads these lines off the tokens, keeping count of the brackets, and `startColumns`
gives the columns at which they are measured. What one piece adds to them is known from the layout
in front of it and behind it (`lineStartsFrom_place`): the tokens know of brackets and line breaks
all that the scanner knows.
-/

namespace Marginalia

/-! ## Lines and their columns -/

/-- The number of open brackets behind the token, when there are `depth` in front of it. -/
def Token.depthBehind (depth : ℕ) (u : Token) : ℕ :=
  if u.kind = .op then ((depthAfter depth u.start.line u.text).toOption).getD depth else depth

/-- The lines behind the line breaks outside brackets, when `depth` brackets are open in front of
the tokens. -/
def lineStartsFrom : ℕ → List Token → List ℕ
  | _, [] => []
  | depth, u :: us =>
    (if u.text = ['\n'] ∧ depth = 0 then [u.start.line + 1] else []) ++
      lineStartsFrom (u.depthBehind depth) us

/-- The lines on which a logical line may start. -/
def lineStarts (ts : List Token) : List ℕ := 1 :: lineStartsFrom 0 ts

/-- The columns at which those of the lines start that are neither blank nor a comment. -/
def startColumns (lines : List Line) (starts : List ℕ) : List ℕ :=
  starts.filterMap fun n => indentOf? (lineText lines n)

/-- The same lines with their columns. -/
def measured (lines : List Line) (starts : List ℕ) : List (ℕ × ℕ) :=
  starts.filterMap fun n => (indentOf? (lineText lines n)).map (n, ·)

/-- No deeper line follows an old line that is not among the new ones any more. -/
def CarriesNoBlock (old new : List Line) (starts : List ℕ) : Prop :=
  (measured old starts).IsChain fun a b => indentOf? (lineText new a.1) = none → b.2 ≤ a.2

instance (old new : List Line) (starts : List ℕ) : Decidable (CarriesNoBlock old new starts) :=
  inferInstanceAs (Decidable (List.IsChain _ _))

theorem startColumns_cons (lines : List Line) (n : ℕ) (starts : List ℕ) :
    startColumns lines (n :: starts) =
      (indentOf? (lineText lines n)).toList ++ startColumns lines starts := by
  rw [startColumns, List.filterMap_cons]
  cases indentOf? (lineText lines n) <;> rfl

theorem startColumns_eq (lines : List Line) (starts : List ℕ) :
    startColumns lines starts = (measured lines starts).map Prod.snd := by
  rw [startColumns, measured, List.map_filterMap]
  refine List.filterMap_congr fun n _ => ?_
  cases indentOf? (lineText lines n) <;> rfl

/-! ## Lines that are cut -/

/-- What is measured of a line is the white space in front of its first character. -/
theorem indentOf?_append_cons {x : Text} (hx : ∀ c ∈ x, isInlineSpace c = true) {c : Char}
    (hc : isInlineSpace c = false) (t : Text) :
    indentOf? (x ++ c :: t) = if isLineIdle [c] then none else some (indentWidth x) := by
  have hidle : isLineIdle (c :: t) = isLineIdle [c] := rfl
  rw [indentOf?, List.takeWhile_append_of_pos hx, List.dropWhile_append_of_pos hx,
    List.takeWhile_cons_of_neg (by simp [hc]), List.dropWhile_cons_of_neg (by simp [hc]),
    List.append_nil, hidle]

/-- A text begins with white space, and goes on with something else. -/
theorem exists_spaces_append (t : Text) : ∃ x z, t = x ++ z ∧
    (∀ c ∈ x, isInlineSpace c = true) ∧ ∀ c ∈ z.head?, isInlineSpace c = false := by
  refine ⟨_, _, List.takeWhile_append_dropWhile.symm, fun c hc => List.mem_takeWhile_imp hc, ?_⟩
  intro c hc
  have hhead := List.head?_dropWhile_not isInlineSpace t
  rwa [Option.mem_def.1 hc] at hhead

/-- What is left of a line starts where the line did. -/
theorem indentOf?_of_isPrefix {x y : Text} (h : y <+: x) :
    indentOf? y = none ∨ indentOf? y = indentOf? x := by
  obtain ⟨r, rfl⟩ := h
  obtain ⟨ws, z, rfl, hws, hz⟩ := exists_spaces_append y
  cases z with
  | nil => exact Or.inl (indentOf?_eq_none hws rfl)
  | cons c z =>
    right
    rw [List.append_assoc, List.cons_append, indentOf?_append_cons hws (hz c rfl),
      indentOf?_append_cons hws (hz c rfl)]

/-- A line is measured without those that follow it. -/
theorem indentOf?_firstLine (t : Text) : indentOf? (firstLine t) = indentOf? t := by
  obtain ⟨ws, z, rfl, hws, hz⟩ := exists_spaces_append t
  by_cases hidle : z.head? = none ∨ z.head? = some '\n'
  · have hnone : indentOf? (ws ++ z) = none := by
      refine indentOf?_eq_none hws ?_
      cases z with
      | nil => rfl
      | cons c z =>
        obtain rfl : c = '\n' := by simpa using hidle
        rfl
    have hfront := indentOf?_of_isPrefix (firstLine_isPrefix (ws ++ z))
    rw [hnone] at hfront ⊢
    exact hfront.elim id id
  · rw [not_or] at hidle
    cases z with
    | nil => exact absurd rfl hidle.1
    | cons c z =>
      have hc : isInlineSpace c = false := hz c rfl
      have hlf : c ≠ '\n' := fun h => hidle.2 (congrArg some h)
      have hcr : c ≠ '\r' := by
        rintro rfl
        exact absurd hc (by decide)
      have hws' : '\n' ∉ ws := fun hmem => absurd (hws _ hmem) (by decide)
      rw [firstLine_append hws' hidle.2, firstLine_cons hlf hcr, indentOf?_append_cons hws hc,
        indentOf?_append_cons hws hc]

/-- **Lines that carry no block can go**, and the others are still nested. -/
theorem isNested_startColumns {old new : List Line} {starts indents : List ℕ}
    (hsame : ∀ n ∈ starts, indentOf? (lineText new n) = none ∨
      indentOf? (lineText new n) = indentOf? (lineText old n))
    (hcarry : CarriesNoBlock old new starts)
    (h : isNested indents (startColumns old starts) = true) :
    isNested indents (startColumns new starts) = true := by
  induction starts generalizing indents with
  | nil => rfl
  | cons n starts ih =>
    obtain ⟨hn, hsame'⟩ := List.forall_mem_cons.1 hsame
    have ih := fun {indents} => @ih indents hsame'
    rw [startColumns_cons] at h ⊢
    rw [CarriesNoBlock, measured, List.filterMap_cons] at hcarry
    cases hold : indentOf? (lineText old n) with
    | none =>
      rw [hold] at h hcarry hn
      rw [hn.elim id id]
      exact ih hcarry h
    | some v =>
      simp only [hold, Option.map_some] at h hcarry
      obtain ⟨hnext, hcarry'⟩ := List.isChain_cons.1 hcarry
      cases hnew : indentOf? (lineText new n) with
      | none =>
        refine ih hcarry' (isNested_of_cons h fun w hw => ?_)
        rw [startColumns_eq, List.head?_map] at hw
        obtain ⟨b, hb, rfl⟩ := Option.map_eq_some_iff.1 hw
        exact hnext b hb hnew
      | some w =>
        obtain rfl : w = v := by simpa [hnew, hold] using hn
        rw [Option.toList_some, List.singleton_append, isNested, Option.any_eq_true] at h ⊢
        obtain ⟨opened, hopened, hnested⟩ := h
        exact ⟨opened, hopened, ih hcarry' hnested⟩

/-! ## Line starts in the scanner -/

theorem lineStartsFrom_cons_of_ne {u : Token} (h : u.text ≠ ['\n']) (depth : ℕ)
    (ts : List Token) :
    lineStartsFrom depth (u :: ts) = lineStartsFrom (u.depthBehind depth) ts := by
  rw [lineStartsFrom, if_neg fun hu => h hu.1, List.nil_append]

theorem lineStartsFrom_append {us : List Token}
    (h : ∀ u ∈ us, u.text ≠ ['\n'] ∧ u.kind ≠ .op) (depth : ℕ) (ts : List Token) :
    lineStartsFrom depth (us ++ ts) = lineStartsFrom depth ts := by
  induction us with
  | nil => rfl
  | cons u us ih =>
    obtain ⟨⟨htext, hkind⟩, h'⟩ := List.forall_mem_cons.1 h
    rw [List.cons_append, lineStartsFrom_cons_of_ne htext, Token.depthBehind, if_neg hkind, ih h']

/-- The lines that may still start a logical line, this one among them if it does so here. -/
def pendingStarts (l : Layout) (p : Position) (ts : List Token) : List ℕ :=
  (if l.atLineStart then [p.line] else []) ++ lineStartsFrom l.depth ts

theorem pendingStarts_of_atLineStart {l : Layout} (hl : l.atLineStart = true) (p : Position)
    (ts : List Token) : pendingStarts l p ts = p.line :: lineStartsFrom l.depth ts := by
  rw [pendingStarts, if_pos hl]
  rfl

theorem pendingStarts_of_not_atLineStart {l : Layout} (hl : l.atLineStart = false) (p : Position)
    (ts : List Token) : pendingStarts l p ts = lineStartsFrom l.depth ts := by
  rw [pendingStarts, if_neg (by simp [hl])]
  rfl

theorem lineStartsFrom_openLine {indents opened : List ℕ} {p : Position} {ws rest : Text}
    {us : List Token} (hws : ∀ c ∈ ws, isInlineSpace c = true)
    (h : openLine indents p ws rest = .ok (us, opened)) (depth : ℕ) (ts : List Token) :
    lineStartsFrom depth (us ++ ts) = lineStartsFrom depth ts := by
  refine lineStartsFrom_append (fun u hu => ?_) depth ts
  obtain ⟨-, hsub, hkind⟩ := of_mem_openLine h hu
  refine ⟨fun htext => ?_, fun hop => ?_⟩
  · exact absurd (hws '\n' (hsub (by simp [htext]))) (by decide)
  · simp [hop, TokenKind.isLayout] at hkind

theorem lineStartsFrom_finish {l : Layout} {p : Position} {ts : List Token}
    (h : finish l p = .ok ts) (depth : ℕ) : l.depth = 0 ∧ lineStartsFrom depth ts = [] := by
  have hdepth : l.depth = 0 := by
    rw [finish] at h
    split at h
    · simp at h
    · next hdepth => exact Nat.eq_zero_of_not_pos hdepth
  refine ⟨hdepth, ?_⟩
  rw [← List.append_nil ts]
  refine lineStartsFrom_append (fun u hu => ?_) depth []
  obtain ⟨hkind, htext⟩ := of_mem_finish h hu
  refine ⟨by simp [htext], fun hop => ?_⟩
  simp [hop, TokenKind.isLayout] at hkind

/-- The token of a piece begins where the piece does. -/
theorem of_place {l l' : Layout} {p : Position} {x : Text} {k : Piece} {u : Token}
    (h : place l p x k = .ok (some u, l')) : u.start = p ∧ u.text <+: x := by
  cases k with
  | space | continuation => simp [place] at h
  | comment =>
    obtain ⟨rfl, -⟩ : Token.at .comment (Text.trimEnd (· == '\r') x) p = u ∧ _ := by
      simpa [place] using h
    exact ⟨rfl, Text.trimEnd_isPrefix ..⟩
  | lineBreak =>
    obtain ⟨rfl, -⟩ : _ = u ∧ _ := by simpa [place] using h
    exact ⟨rfl, List.prefix_refl x⟩
  | string | name | number =>
    obtain ⟨rfl, -⟩ : Token.at _ x p = u ∧ _ := by simpa [place] using h
    exact ⟨rfl, List.prefix_refl x⟩
  | op =>
    simp only [place] at h
    split at h
    · obtain ⟨rfl, -⟩ : Token.at .op x p = u ∧ _ := by simpa using h
      exact ⟨rfl, List.prefix_refl x⟩
    · simp at h

/-- Only a line break comes in front of a line. -/
theorem eq_lineFeed_of_place {l l' : Layout} (hl : l.atLineStart = false) {p : Position}
    {x rest : Text} {k : Piece} {u : Option Token} (hk : k.Fits x rest)
    (h : place l p x k = .ok (u, l')) (hl' : l'.atLineStart = true) : x = ['\n'] := by
  cases k with
  | lineBreak =>
    cases hk with
    | lineBreak => rfl
    | code hk => simp at hk
  | space | continuation | comment =>
    obtain ⟨-, rfl⟩ : _ ∧ l = l' := by simpa [place] using h
    simp [hl] at hl'
  | string | name | number =>
    obtain ⟨-, rfl⟩ : _ ∧ { l with inStatement := true } = l' := by simpa [place] using h
    simp [hl] at hl'
  | op =>
    simp only [place] at h
    split at h
    · obtain ⟨-, rfl⟩ : _ ∧ { l with inStatement := true, depth := _ } = l' := by simpa using h
      simp [hl] at hl'
    · simp at h

/-- **The tokens know where lines start**: what a piece adds is what its token does. -/
theorem lineStartsFrom_place {l l' : Layout} (hl : l.atLineStart = false) {p : Position}
    {x rest : Text} {k : Piece} {u : Option Token} (hk : k.Fits x rest)
    (h : place l p x k = .ok (u, l')) (ts : List Token) :
    lineStartsFrom l.depth (u.toList ++ ts) = pendingStarts l' (p.advanceBy x) ts := by
  cases hk with
  | space | continuation =>
    obtain ⟨rfl, rfl⟩ : none = u ∧ l = l' := by simpa [place] using h
    exact (pendingStarts_of_not_atLineStart hl ..).symm
  | @comment y _ hy hrest =>
    obtain ⟨rfl, rfl⟩ : some (Token.at .comment (Text.trimEnd (· == '\r') ('#' :: y)) p) = u ∧
        l = l' := by
      simpa [place] using h
    have hne : Text.trimEnd (· == '\r') ('#' :: y) ≠ ['\n'] := by
      rw [Text.trimEnd_cons, if_neg (by simp)]
      simp
    rw [pendingStarts_of_not_atLineStart hl]
    exact lineStartsFrom_cons_of_ne (u := Token.at .comment _ p) hne l.depth ts
  | lineBreak =>
    obtain ⟨rfl, rfl⟩ : some _ = u ∧ _ = l' := by simpa [place] using h
    have hbehind : Token.depthBehind l.depth
        ⟨if l.depth = 0 ∧ l.inStatement then .newline else .lineBreak, ['\n'], p,
          ⟨p.line, p.column + 1⟩⟩ = l.depth := by
      rw [Token.depthBehind, if_neg]
      simp only
      split <;> simp
    rw [Option.toList_some, List.singleton_append, lineStartsFrom, hbehind]
    by_cases hdepth : l.depth = 0
    · simp [hdepth, pendingStarts, Position.advanceBy, Position.advance]
    · simp [hdepth, hl, pendingStarts]
  | code hk hx =>
    have hne : ∀ k' : TokenKind, (Token.at k' x p).text ≠ ['\n'] := by
      rintro k' htext
      obtain ⟨c, hc, hblank, -⟩ := hx.head
      rw [show x = ['\n'] from htext] at hc
      obtain rfl : '\n' = c := by simpa using hc
      exact absurd hblank (by decide)
    have hcode : ∀ (k' : TokenKind) (l' : Layout), l'.atLineStart = false →
        (Token.at k' x p).depthBehind l.depth = l'.depth →
        lineStartsFrom l.depth (Token.at k' x p :: ts) = pendingStarts l' (p.advanceBy x) ts := by
      intro k' l' hl' hbehind
      rw [lineStartsFrom_cons_of_ne (hne k'), hbehind, pendingStarts_of_not_atLineStart hl']
    rcases hk with rfl | rfl | rfl | rfl
    · obtain ⟨rfl, rfl⟩ : some _ = u ∧ _ = l' := by simpa [place] using h
      exact hcode .string _ hl rfl
    · obtain ⟨rfl, rfl⟩ : some _ = u ∧ _ = l' := by simpa [place] using h
      exact hcode .name _ hl rfl
    · obtain ⟨rfl, rfl⟩ : some _ = u ∧ _ = l' := by simpa [place] using h
      exact hcode .number _ hl rfl
    · simp only [place] at h
      split at h
      · next depth hdepth =>
        obtain ⟨rfl, rfl⟩ : some _ = u ∧ _ = l' := by simpa using h
        exact hcode .op _ hl (by simp [Token.depthBehind, Token.at, hdepth, Except.toOption])
      · simp at h

end Marginalia
