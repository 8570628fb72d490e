import Marginalia.Proofs.Token.LineBreaks
import Marginalia.Proofs.Token.Tiling
import Marginalia.Text.Line

/-!
# Texts that can be cut into tokens

Whether the scanner gets through a text depends on the open blocks and brackets it comes with, and
not on where the text stands (`accepts_iff_scan`). So `Accepts` is a property of a layout and a
text, and this module has one lemma for each thing that may stand in front of the text: white
space, a line break, a comment, any piece, and the white space of a line that may start a logical
line (`accepts_iff_of_atLineStart`). White space and comments change nothing, and nor do line breaks
before the end of a line (`accepts_lineBreaks_append_iff`).

The blocks are told apart from the rest: a list of columns is nested (`isNested`) if each is the
column of an open block or opens one further to the right, and `indentOf?` is the column that a line
is measured at, if it is.
-/

namespace Marginalia

/-! ## Columns -/

/-- The open blocks when a line starts at column `width`, if that is the column of an open one or
further to the right than all. -/
def openBlock? (width : ℕ) (indents : List ℕ) : Option (List ℕ) :=
  if indents.headD 0 < width then some (width :: indents)
  else if width = (keptIndents width indents).headD 0 then some (keptIndents width indents)
  else none

/-- Whether lines may start at these columns, one after the other. -/
def isNested : List ℕ → List ℕ → Bool
  | _, [] => true
  | indents, width :: widths => (openBlock? width indents).any fun opened => isNested opened widths

/-- The column at which the line at the front of the text starts, unless it is blank or a
comment. -/
def indentOf? (t : Text) : Option ℕ :=
  if isLineIdle (t.dropWhile isInlineSpace) then none
  else some (indentWidth (t.takeWhile isInlineSpace))

/-- The open blocks behind the white space in front of a line. -/
def openedBy? (indents : List ℕ) (t : Text) : Option (List ℕ) :=
  match indentOf? t with
  | none => some indents
  | some width => openBlock? width indents

theorem isNested_toList_append (indents : List ℕ) (t : Text) (widths : List ℕ) :
    isNested indents ((indentOf? t).toList ++ widths) =
      (openedBy? indents t).any fun opened => isNested opened widths := by
  rw [openedBy?]
  cases indentOf? t <;> rfl

/-- Closing blocks in two steps comes to the same. -/
theorem keptIndents_keptIndents {v w : ℕ} (hle : w ≤ v) (indents : List ℕ) :
    keptIndents w (keptIndents v indents) = keptIndents w indents := by
  simp only [keptIndents]
  induction indents with
  | nil => rfl
  | cons a indents ih =>
    by_cases ha : v < a
    · have ha' : w < a := hle.trans_lt ha
      rw [List.dropWhile_cons_of_pos (by simpa using ha), ih,
        List.dropWhile_cons_of_pos (by simpa using ha')]
    · rw [List.dropWhile_cons_of_neg (a := a) (by simpa using ha)]

theorem openBlock?_eq_some_iff {width : ℕ} {indents opened : List ℕ} :
    openBlock? width indents = some opened ↔
      indents.headD 0 < width ∧ opened = width :: indents ∨
        width ≤ indents.headD 0 ∧ width = opened.headD 0 ∧ opened = keptIndents width indents := by
  rw [openBlock?]
  split_ifs with hlt heq
  · rw [Option.some.injEq]
    constructor
    · rintro rfl
      exact Or.inl ⟨hlt, rfl⟩
    · rintro (⟨-, rfl⟩ | ⟨hle, -⟩)
      · rfl
      · exact absurd hlt (not_lt.2 hle)
  · rw [Option.some.injEq]
    constructor
    · rintro rfl
      exact Or.inr ⟨not_lt.1 hlt, heq, rfl⟩
    · rintro (⟨h, -⟩ | ⟨-, -, rfl⟩)
      · exact absurd h hlt
      · rfl
  · simp only [false_iff, not_or, not_and]
    exact ⟨fun h => absurd h hlt, fun _ h hkept => heq (hkept ▸ h)⟩

/-- A line in front of one that is no deeper can be left out. -/
theorem openBlock?_of_le {indents opened opened' : List ℕ} {v w : ℕ} (hle : w ≤ v)
    (hv : openBlock? v indents = some opened) (hw : openBlock? w opened = some opened') :
    openBlock? w indents = some opened' := by
  rw [openBlock?_eq_some_iff] at hv hw ⊢
  rcases hv with ⟨hlt, rfl⟩ | ⟨hv, hhead, rfl⟩
  · rw [List.headD_cons] at hw
    obtain ⟨-, hw, rfl⟩ := hw.resolve_left fun h => absurd h.1 (not_lt.2 hle)
    rcases hle.lt_or_eq with hlt' | rfl
    · have hkept : keptIndents w (v :: indents) = keptIndents w indents := by
        rw [keptIndents, List.dropWhile_cons_of_pos (by simpa using hlt'), keptIndents]
      rw [hkept] at hw ⊢
      refine Or.inr ⟨?_, hw, rfl⟩
      cases indents with
      | nil => exact hw.le
      | cons a indents =>
        by_contra hwa
        rw [keptIndents, List.dropWhile_cons_of_neg (by simpa using (not_le.1 hwa).le)] at hw
        exact hwa hw.le
    · left
      rw [keptIndents, List.dropWhile_cons_of_neg (by simp)]
      exact ⟨hlt, rfl⟩
  · rw [← hhead] at hw
    obtain ⟨-, hw, rfl⟩ := hw.resolve_left fun h => absurd h.1 (not_lt.2 hle)
    rw [keptIndents_keptIndents hle] at hw ⊢
    exact Or.inr ⟨hle.trans hv, hw, rfl⟩

/-- So a line that is left out need not be nested, if the next one is no deeper. -/
theorem isNested_of_cons {indents widths : List ℕ} {v : ℕ}
    (h : isNested indents (v :: widths) = true) (hle : ∀ w ∈ widths.head?, w ≤ v) :
    isNested indents widths = true := by
  cases widths with
  | nil => rfl
  | cons w widths =>
    simp only [isNested, Option.any_eq_true] at h ⊢
    obtain ⟨opened, hv, opened', hw, hnested⟩ := h
    exact ⟨opened', openBlock?_of_le (hle w rfl) hv hw, hnested⟩

/-- Where a line stands is of no account for the blocks. -/
theorem exists_openLine_iff {indents opened : List ℕ} {p : Position} {t : Text} :
    (∃ us, openLine indents p (t.takeWhile isInlineSpace) (t.dropWhile isInlineSpace) =
      .ok (us, opened)) ↔ openedBy? indents t = some opened := by
  simp only [openLine, openedBy?, indentOf?]
  split
  · simp
  · simp only [openBlock?]
    split
    · simp
    · split <;> simp

/-! ## Places -/

/-- The scanner gets through the text, when it comes to it with the layout `l`. -/
def Accepts (l : Layout) (t : Text) : Prop := ∃ us, scan l .origin t = .ok us

/-- A piece has the same effect on the layout elsewhere, and between other blocks. -/
theorem exists_place_of_place {l l' : Layout} {p : Position} {x : Text} {k : Piece}
    {u : Option Token} (h : place l p x k = .ok (u, l')) (q : Position) (indents : List ℕ)
    (s : Bool) : l'.indents = l.indents ∧
      ∃ v s', place { l with indents, inStatement := s } q x k =
        .ok (v, { l' with indents, inStatement := s' }) := by
  cases k with
  | space | continuation =>
    obtain ⟨-, rfl⟩ : none = u ∧ l = l' := by simpa [place] using h
    exact ⟨rfl, _, _, rfl⟩
  | comment =>
    obtain ⟨-, rfl⟩ : _ ∧ l = l' := by simpa [place] using h
    exact ⟨rfl, _, _, rfl⟩
  | string | name | number =>
    obtain ⟨-, rfl⟩ : _ ∧ { l with inStatement := true } = l' := by simpa [place] using h
    exact ⟨rfl, _, _, rfl⟩
  | lineBreak =>
    by_cases hdepth : l.depth = 0
    · simp only [place, if_pos hdepth] at h ⊢
      obtain ⟨-, rfl⟩ : _ ∧ { l with inStatement := false, atLineStart := true } = l' := by
        simpa using h
      exact ⟨rfl, _, _, rfl⟩
    · simp only [place, if_neg hdepth] at h ⊢
      obtain ⟨-, rfl⟩ : _ ∧ l = l' := by simpa using h
      exact ⟨rfl, _, _, rfl⟩
  | op =>
    have hline : depthAfter l.depth q.line x = depthAfter l.depth p.line x ∨
        ∃ e, depthAfter l.depth p.line x = .error e := by
      fun_cases depthAfter l.depth p.line x <;> simp_all [depthAfter]
    simp only [place] at h ⊢
    cases hdepth : depthAfter l.depth p.line x with
    | error e => simp [hdepth] at h
    | ok depth =>
      obtain ⟨-, rfl⟩ : _ ∧ { l with inStatement := true, depth } = l' := by
        simpa [hdepth] using h
      rw [hdepth] at hline
      refine ⟨rfl, ?_⟩
      simp only [hline.resolve_right (by simp)]
      exact ⟨_, _, rfl⟩

theorem exists_scan_of_scan {l : Layout} {p : Position} {t : Text} {ts : List Token}
    (h : scan l p t = .ok ts) (q : Position) (s : Bool) :
    ∃ us, scan { l with inStatement := s } q t = .ok us := by
  fun_induction scan l p t generalizing ts q s with
  | case1 => simp at h
  | case2 l p t hl ws rest us indents hopen =>
    rename_i ih
    obtain ⟨ts', hts, -⟩ := exists_of_map_eq_ok h
    obtain ⟨vs, hvs⟩ := (exists_openLine_iff (p := q)).2 (exists_openLine_iff.1 ⟨us, hopen⟩)
    obtain ⟨us', hus⟩ := ih hts (q.advanceBy ws) s
    refine ⟨vs ++ us', ?_⟩
    rw [scan_lineStart (l := { l with inStatement := s }) hl, hvs]
    simp only [Except.bind]
    rw [hus]
    rfl
  | case3 l p hl =>
    rw [scan_nil (by simpa using hl), finish]
    rw [finish] at h
    split at h
    · simp at h
    · next hdepth => exact ⟨_, if_neg hdepth⟩
  | case4 => simp at h
  | case5 => simp at h
  | case6 l p hl c r k n hread x u l' hplace =>
    rename_i ih
    obtain ⟨ts', hts, -⟩ := exists_of_map_eq_ok h
    obtain ⟨hindents, v, s', hv⟩ := exists_place_of_place hplace q l.indents s
    obtain ⟨us', hus⟩ := ih hts (q.advanceBy x) s'
    refine ⟨v.toList ++ us', ?_⟩
    rw [scan_cons (l := { l with inStatement := s }) (by simpa using hl), hread]
    simp only [Except.mapError, Except.bind]
    rw [hv]
    simp only
    rw [← hindents, hus]
    rfl

/-- **Where a text stands is of no account**, nor whether a logical line has begun. -/
theorem accepts_iff_scan {l : Layout} {t : Text} (p : Position) (s : Bool) :
    Accepts l t ↔ ∃ us, scan { l with inStatement := s } p t = .ok us := by
  constructor
  · rintro ⟨us, hus⟩
    exact exists_scan_of_scan hus p s
  · rintro ⟨us, hus⟩
    exact exists_scan_of_scan hus .origin l.inStatement

theorem accepts_inStatement_iff {l : Layout} {t : Text} (s : Bool) :
    Accepts { l with inStatement := s } t ↔ Accepts l t :=
  (accepts_iff_scan .origin s).symm

/-! ## What stands in front -/

theorem exists_map_eq_ok_iff {ε α β : Type} {f : α → β} {x : Except ε α} :
    (∃ b, x.map f = .ok b) ↔ ∃ a, x = .ok a := by
  cases x <;> simp [Except.map]

section Piece

variable {l : Layout} (hl : l.atLineStart = false)
include hl

/-- Behind the last line, all brackets must be closed. -/
theorem accepts_nil_iff : Accepts l [] ↔ l.depth = 0 := by
  rw [Accepts, scan_nil hl, finish]
  by_cases hdepth : l.depth = 0
  · simp [hdepth]
  · simp [hdepth, Nat.pos_of_ne_zero hdepth]

/-- A piece leaves the rest to be accepted. -/
theorem accepts_cons_iff {c : Char} {r : Text} {k : Piece} {n : ℕ}
    (hread : Piece.read c r = .ok (k, n)) {p : Position} {u : Option Token} {l' : Layout}
    (hplace : place l p (c :: r.take n) k = .ok (u, l')) :
    Accepts l (c :: r) ↔ Accepts l' (r.drop n) := by
  rw [accepts_iff_scan p l.inStatement,
    accepts_iff_scan (p.advanceBy (c :: r.take n)) l'.inStatement, scan_cons hl, hread]
  simp only [Except.mapError, Except.bind, hplace]
  exact exists_map_eq_ok_iff

theorem accepts_space_cons_iff {c : Char} (hc : isInlineSpace c = true) {t : Text} :
    Accepts l (c :: t) ↔ Accepts l t :=
  accepts_cons_iff hl (Piece.read.eq_1 c t ▸ if_pos hc) (p := .origin) rfl

theorem accepts_spaces_append_iff {x : Text} (hx : ∀ c ∈ x, isInlineSpace c = true) {t : Text} :
    Accepts l (x ++ t) ↔ Accepts l t := by
  induction x with
  | nil => exact Iff.rfl
  | cons c x ih =>
    obtain ⟨hc, hx⟩ := List.forall_mem_cons.1 hx
    rw [List.cons_append, accepts_space_cons_iff hl hc, ih hx]

theorem accepts_lineFeed_cons_iff {t : Text} :
    Accepts l ('\n' :: t) ↔ Accepts { l with atLineStart := l.depth = 0 } t := by
  have hread : Piece.read '\n' t = .ok (.lineBreak, 0) := rfl
  by_cases hdepth : l.depth = 0
  · rw [accepts_cons_iff hl hread (p := .origin) (by simp only [place, if_pos hdepth]; rfl)]
    rw [decide_eq_true hdepth]
    exact accepts_inStatement_iff false (l := { l with atLineStart := true })
  · rw [accepts_cons_iff hl hread (p := .origin) (by simp only [place, if_neg hdepth]; rfl)]
    rw [decide_eq_false hdepth, ← hl]
    rfl

/-- A comment goes on to the end of its line. -/
theorem accepts_comment_iff {y : Text} (hy : '\n' ∉ y) {t : Text} (ht : EndsLine t) :
    Accepts l ('#' :: (y ++ t)) ↔ Accepts l t := by
  obtain ⟨x, z, rfl, hx, hz⟩ := ht
  have hyx : '\n' ∉ y ++ x := by
    intro h
    rcases List.mem_append.1 h with h | h
    · exact hy h
    · exact absurd (hx _ h) (by decide)
  rw [accepts_spaces_append_iff hl fun c hc => by rw [hx c hc]; rfl, ← List.append_assoc,
    accepts_cons_iff hl (Piece.read_comment hyx hz) (p := .origin) rfl, List.drop_left]

end Piece

/-! ## The ends of lines -/

/-- A blank line or a comment is not measured. -/
theorem indentOf?_eq_none {x z : Text} (hx : ∀ c ∈ x, isInlineSpace c = true)
    (hz : isLineIdle z = true) : indentOf? (x ++ z) = none := by
  have hdrop : z.dropWhile isInlineSpace = z := by
    cases z with
    | nil => rfl
    | cons c z =>
      simp only [isLineIdle, Bool.or_eq_true, beq_iff_eq] at hz
      rcases hz with rfl | rfl <;> rfl
  rw [indentOf?, List.dropWhile_append_of_pos hx, hdrop, if_pos hz]

theorem indentOf?_of_endsLine {t : Text} (h : EndsLine t) : indentOf? t = none := by
  obtain ⟨x, z, rfl, hx, hz⟩ := h
  refine indentOf?_eq_none (fun c hc => by rw [hx c hc]; rfl) ?_
  cases z with
  | nil => rfl
  | cons c z =>
    obtain rfl := hz c rfl
    rfl

/-- **A line that may start a logical line** opens or closes blocks, as its column says. -/
theorem accepts_iff_of_atLineStart {l : Layout} (hl : l.atLineStart = true) {t : Text} :
    Accepts l t ↔ ∃ opened, openedBy? l.indents t = some opened ∧
      Accepts { l with indents := opened, atLineStart := false } t := by
  have hws : ∀ c ∈ t.takeWhile isInlineSpace, isInlineSpace c = true :=
    fun c hc => List.mem_takeWhile_imp hc
  have hrest : ∀ opened, Accepts { l with indents := opened, atLineStart := false } t ↔
      ∃ us, scan { l with indents := opened, atLineStart := false }
        (Position.origin.advanceBy (t.takeWhile isInlineSpace)) (t.dropWhile isInlineSpace) =
          .ok us := by
    intro opened
    have hspaces := accepts_spaces_append_iff
      (l := { l with indents := opened, atLineStart := false }) rfl hws
      (t := t.dropWhile isInlineSpace)
    rw [List.takeWhile_append_dropWhile] at hspaces
    rw [hspaces]
    exact accepts_iff_scan _ l.inStatement
  simp only [hrest, ← exists_openLine_iff (p := .origin)]
  rw [Accepts, scan_lineStart hl]
  cases openLine l.indents .origin (t.takeWhile isInlineSpace) (t.dropWhile isInlineSpace) with
  | error e => simp [Except.bind]
  | ok v =>
    simp only [Except.bind, exists_map_eq_ok_iff]
    constructor
    · rintro h
      exact ⟨v.2, ⟨v.1, rfl⟩, h⟩
    · rintro ⟨opened, ⟨us, hv⟩, h⟩
      obtain rfl : v.2 = opened := by
        rw [Except.ok.inj hv]
      exact h

/-- The line is the first of those that are to be nested. -/
theorem accepts_iff_isNested {l : Layout} (hl : l.atLineStart = true) {t : Text} {widths : List ℕ}
    (h : ∀ opened, Accepts { l with indents := opened, atLineStart := false } t ↔
      isNested opened widths = true) :
    Accepts l t ↔ isNested l.indents ((indentOf? t).toList ++ widths) = true := by
  rw [accepts_iff_of_atLineStart hl, isNested_toList_append]
  simp only [h]
  cases openedBy? l.indents t <;> simp

/-- Where a line has ended, it makes no difference whether it has begun. -/
theorem accepts_endsLine_iff {l : Layout} {t : Text} (ht : EndsLine t) (s : Bool) :
    Accepts { l with atLineStart := s } t ↔ Accepts { l with atLineStart := false } t := by
  cases s with
  | false => exact Iff.rfl
  | true =>
    rw [accepts_iff_of_atLineStart (l := { l with atLineStart := true }) rfl, openedBy?,
      indentOf?_of_endsLine ht]
    simp

theorem endsLine_nil : EndsLine [] := ⟨[], [], rfl, by simp, by simp⟩

theorem endsLine_lineFeed_cons (t : Text) : EndsLine ('\n' :: t) :=
  ⟨[], '\n' :: t, rfl, by simp, by simp⟩

theorem EndsLine.carriageReturn_cons {t : Text} (h : EndsLine t) : EndsLine ('\r' :: t) := by
  obtain ⟨x, z, rfl, hx, hz⟩ := h
  exact ⟨'\r' :: x, z, rfl, List.forall_mem_cons.2 ⟨rfl, hx⟩, hz⟩

theorem endsLine_append {x t : Text} (hx : ∀ c ∈ x, c = '\r' ∨ c = '\n') (ht : EndsLine t) :
    EndsLine (x ++ t) := by
  induction x with
  | nil => exact ht
  | cons c x ih =>
    obtain ⟨hc, hx'⟩ := List.forall_mem_cons.1 hx
    rcases hc with rfl | rfl
    · exact (ih hx').carriageReturn_cons
    · exact endsLine_lineFeed_cons _

theorem endsLine_terminator (e : Terminator) : EndsLine e.text := by
  have h := endsLine_append (x := e.text) (by cases e <;> simp [Terminator.text]) endsLine_nil
  rwa [List.append_nil] at h

/-- Line breaks before the end of a line leave the blocks as they are. -/
theorem accepts_lineBreaks_append_iff {l : Layout} (hl : l.atLineStart = false) {x t : Text}
    (hx : ∀ c ∈ x, c = '\r' ∨ c = '\n') (ht : EndsLine t) : Accepts l (x ++ t) ↔ Accepts l t := by
  induction x with
  | nil => exact Iff.rfl
  | cons c x ih =>
    obtain ⟨hc, hx'⟩ := List.forall_mem_cons.1 hx
    rw [List.cons_append, ← ih hx']
    rcases hc with rfl | rfl
    · exact accepts_space_cons_iff hl (by decide)
    · rw [accepts_lineFeed_cons_iff hl, accepts_endsLine_iff (endsLine_append hx' ht), ← hl]

/-- A line break may follow behind the last line. -/
theorem accepts_terminator {l : Layout} (hdepth : l.depth = 0) (e : Terminator) :
    Accepts l e.text := by
  have hbreaks : ∀ c ∈ e.text, c = '\r' ∨ c = '\n' := by
    cases e <;> simp [Terminator.text]
  refine (accepts_endsLine_iff (endsLine_terminator e) l.atLineStart).2 ?_
  rw [← List.append_nil e.text, accepts_lineBreaks_append_iff rfl hbreaks endsLine_nil,
    accepts_nil_iff rfl]
  exact hdepth

end Marginalia
