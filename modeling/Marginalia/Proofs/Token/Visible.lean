import Marginalia.Proofs.Token.Cut

/-!
# The code and the comments of a text

Blocks and line ends take their tokens from the lines around them. Code and comments do not: which
of them a text has is known from the text, from the place where it stands and from the number of
brackets that are open in front of it. `Shows` is this fact about a text, and this module has one
lemma for each thing that may stand in front of the text: white space, line breaks, and any piece
whose line may be cut behind it (`Shows.take_append`).
-/

namespace Marginalia

/-- Whether the token is code or a comment, and not there for blocks and line ends. -/
def Token.isVisible (u : Token) : Bool := u.kind.isCode || u.kind == .comment

/-- Where the text stands at `p` with `depth` brackets open, the code and the comments in it are the
tokens `us`, whatever else the scanner comes with. -/
def Shows (depth : ℕ) (p : Position) (t : Text) (us : List Token) : Prop :=
  ∀ l ts, l.depth = depth → scan l p t = .ok ts → ts.filter Token.isVisible = us

/-- Layout and the end marker are not visible. -/
theorem filter_isVisible_eq_nil {us : List Token}
    (h : ∀ u ∈ us, u.kind.isLayout = true ∨ u.kind = .endMarker) :
    us.filter Token.isVisible = [] := by
  refine List.filter_eq_nil_iff.2 fun u hu => ?_
  have hkind := h u hu
  cases hk : u.kind <;>
    simp_all [Token.isVisible, TokenKind.isCode, TokenKind.isLayout]

/-- White space in front of a text moves the text. -/
theorem scan_spaces_append {l : Layout} (hl : l.atLineStart = false) {x : Text}
    (hx : ∀ c ∈ x, isInlineSpace c = true) (p : Position) (t : Text) :
    scan l p (x ++ t) = scan l (p.advanceBy x) t := by
  induction x generalizing p with
  | nil => rfl
  | cons c x ih =>
    obtain ⟨hc, hx⟩ := List.forall_mem_cons.1 hx
    have hread : Piece.read c (x ++ t) = .ok (.space, 0) := Piece.read.eq_1 c (x ++ t) ▸ if_pos hc
    rw [List.cons_append, scan_cons hl, hread, Position.advanceBy_cons, ← ih hx]
    simp only [Except.mapError, Except.bind, place, List.take_zero, List.drop_zero]
    rw [Position.advanceBy_cons, Position.advanceBy_nil]
    cases scan l (p.advance c) (x ++ t) <;> rfl

section Shows

variable {depth : ℕ} {p : Position} {t : Text} {us : List Token}

/-- It is enough to look at a scanner that is past the white space of a line. -/
theorem shows_of_not_atLineStart
    (h : ∀ l ts, l.depth = depth → l.atLineStart = false → scan l p t = .ok ts →
      ts.filter Token.isVisible = us) : Shows depth p t us := by
  intro l ts hdepth hscan
  cases hl : l.atLineStart with
  | false => exact h l ts hdepth hl hscan
  | true =>
    rw [scan_lineStart hl] at hscan
    cases hopen : openLine l.indents p (t.takeWhile isInlineSpace) (t.dropWhile isInlineSpace) with
    | error e => simp [hopen, Except.bind] at hscan
    | ok opened =>
      obtain ⟨opening, indents⟩ := opened
      simp only [hopen, Except.bind] at hscan
      obtain ⟨rest, hrest, rfl⟩ := exists_of_map_eq_ok hscan
      have hws : ∀ c ∈ t.takeWhile isInlineSpace, isInlineSpace c = true :=
        fun c hc => List.mem_takeWhile_imp hc
      have hspaces := scan_spaces_append (l := { l with indents, atLineStart := false }) rfl hws p
        (t.dropWhile isInlineSpace)
      rw [List.takeWhile_append_dropWhile] at hspaces
      rw [List.filter_append, filter_isVisible_eq_nil fun u hu =>
        Or.inl (of_mem_openLine hopen hu).2.2, List.nil_append]
      exact h { l with indents, atLineStart := false } rest hdepth rfl (hspaces.trans hrest)

theorem shows_nil (depth : ℕ) (p : Position) : Shows depth p [] [] := by
  refine shows_of_not_atLineStart fun l ts _ hl hscan => ?_
  rw [scan_nil hl] at hscan
  exact filter_isVisible_eq_nil fun u hu => (of_mem_finish hscan hu).1

theorem shows_spaces_append_iff {x : Text} (hx : ∀ c ∈ x, isInlineSpace c = true) :
    Shows depth p (x ++ t) us ↔ Shows depth (p.advanceBy x) t us := by
  constructor
  · refine fun h => shows_of_not_atLineStart fun l ts hdepth hl hscan => h l ts hdepth ?_
    rwa [scan_spaces_append hl hx]
  · refine fun h => shows_of_not_atLineStart fun l ts hdepth hl hscan => h l ts hdepth ?_
    rwa [scan_spaces_append hl hx] at hscan

/-- A piece has the same token in the same place, between other blocks and in another statement.
Where it has no visible one, its place is of no account. -/
theorem exists_place_of_depth_eq {l l' : Layout} {x : Text} {k : Piece} {u : Option Token}
    (hplace : place l p x k = .ok (u, l')) {q : Position}
    (hq : (∃ v ∈ u, v.isVisible = true) → q = p) {m : Layout} (hm : m.depth = l.depth) :
    ∃ v m', place m q x k = .ok (v, m') ∧ m'.depth = l'.depth ∧
      v.toList.filter Token.isVisible = u.toList.filter Token.isVisible := by
  cases k with
  | space | continuation =>
    obtain ⟨rfl, rfl⟩ : none = u ∧ l = l' := by simpa [place] using hplace
    exact ⟨none, m, rfl, hm, rfl⟩
  | lineBreak =>
    obtain ⟨rfl, rfl⟩ : some _ = u ∧ _ = l' := by simpa [place] using hplace
    refine ⟨_, _, rfl, by split_ifs <;> exact hm, ?_⟩
    rw [filter_isVisible_eq_nil, filter_isVisible_eq_nil] <;>
      · intro v hv
        obtain rfl := List.mem_singleton.1 hv
        left
        simp only
        split_ifs <;> rfl
  | comment | string | name | number =>
    obtain ⟨rfl, rfl⟩ : some _ = u ∧ _ = l' := by simpa [place] using hplace
    obtain rfl := hq ⟨_, rfl, rfl⟩
    exact ⟨_, _, rfl, hm, rfl⟩
  | op =>
    simp only [place] at hplace ⊢
    cases hdepth : depthAfter l.depth p.line x with
    | error e => simp [hdepth] at hplace
    | ok depth' =>
      obtain ⟨rfl, rfl⟩ : some _ = u ∧ { l with inStatement := true, depth := depth' } = l' := by
        simpa [hdepth] using hplace
      obtain rfl := hq ⟨_, rfl, rfl⟩
      rw [hm, hdepth]
      exact ⟨_, _, rfl, rfl, rfl⟩

/-- A piece that is read shows its token. -/
theorem Shows.cons {l l' : Layout} {c : Char} {r : Text} {k : Piece} {n : ℕ}
    (hread : Piece.read c r = .ok (k, n)) {u : Option Token}
    (hplace : place l p (c :: r.take n) k = .ok (u, l')) {q : Position}
    (hq : (∃ v ∈ u, v.isVisible = true) → q = p)
    (h : Shows l'.depth (q.advanceBy (c :: r.take n)) (r.drop n) us) :
    Shows l.depth q (c :: r) (u.toList.filter Token.isVisible ++ us) := by
  refine shows_of_not_atLineStart fun m ts hdepth hm hscan => ?_
  obtain ⟨v, m', hplace', hdepth', hvisible⟩ := exists_place_of_depth_eq hplace hq hdepth
  rw [scan_cons hm, hread] at hscan
  simp only [Except.mapError, Except.bind, hplace'] at hscan
  obtain ⟨rest, hrest, rfl⟩ := exists_of_map_eq_ok hscan
  rw [List.filter_append, hvisible, h m' rest hdepth' hrest]

theorem Shows.lineFeed_cons (h : Shows depth (p.advance '\n') t us) :
    Shows depth p ('\n' :: t) us := by
  have hread : Piece.read '\n' t = .ok (.lineBreak, 0) := rfl
  refine shows_of_not_atLineStart fun l ts hdepth hl hscan => ?_
  subst hdepth
  have hcons : Shows l.depth p ('\n' :: t) (_ ++ us) :=
    Shows.cons hread (l := l) rfl (fun _ => rfl) (by split_ifs <;> exact h)
  rw [filter_isVisible_eq_nil, List.nil_append] at hcons
  · exact hcons l ts rfl hscan
  · intro v hv
    obtain rfl := List.mem_singleton.1 hv
    left
    simp only
    split_ifs <;> rfl

/-- Line breaks show nothing. -/
theorem Shows.lineBreaks_append {x : Text} (hx : ∀ c ∈ x, c = '\r' ∨ c = '\n')
    (h : Shows depth (p.advanceBy x) t us) : Shows depth p (x ++ t) us := by
  induction x generalizing p with
  | nil => exact h
  | cons c x ih =>
    obtain ⟨hc, hx'⟩ := List.forall_mem_cons.1 hx
    have h' := ih hx' h
    rcases hc with rfl | rfl
    · exact (shows_spaces_append_iff (List.forall_mem_singleton.2 rfl)).2 h'
    · exact h'.lineFeed_cons

/-- A comment goes on to the end of its line, and its text ends in front of the line break. -/
theorem Shows.comment_append {y : Text} (hy : '\n' ∉ y) (ht : EndsLine t)
    (h : Shows depth (p.advanceBy ('#' :: y)) t us) : Shows depth p ('#' :: (y ++ t))
      (Token.at .comment (Text.trimEnd (· == '\r') ('#' :: y)) p :: us) := by
  obtain ⟨x, z, rfl, hx, hz⟩ := ht
  have hyx : '\n' ∉ y ++ x := by
    rw [List.mem_append, not_or]
    exact ⟨hy, fun hmem => absurd (hx _ hmem) (by decide)⟩
  have hspaces : ∀ c ∈ x, isInlineSpace c = true := fun c hc => by rw [hx c hc]; rfl
  rw [shows_spaces_append_iff hspaces, ← Position.advanceBy_append] at h
  have htrim : Text.trimEnd (· == '\r') ('#' :: y ++ x) = Text.trimEnd (· == '\r') ('#' :: y) :=
    Text.trimEnd_append_of_forall (fun c hc => by rw [hx c hc]; rfl) _
  refine shows_of_not_atLineStart fun l ts hdepth hl hscan => ?_
  rw [← List.append_assoc, scan_comment hl p hyx hz, ← List.cons_append, htrim] at hscan
  obtain ⟨rest, hrest, rfl⟩ := exists_of_map_eq_ok hscan
  rw [List.filter_cons_of_pos rfl, h l rest hdepth hrest]

/-- **A piece in front of a line that is cut** shows its token as it did. -/
theorem Shows.take_append {l l' : Layout} {c : Char} {r : Text} {k : Piece} {n : ℕ}
    (hread : Piece.read c r = .ok (k, n)) {u : Option Token}
    (hplace : place l p (c :: r.take n) k = .ok (u, l')) {q : Position}
    (hq : (∃ v ∈ u, v.isVisible = true) → q = p) (ht : IsCutOf t (r.drop n))
    (h : Shows l'.depth (q.advanceBy (c :: r.take n)) t us) :
    Shows l.depth q (c :: (r.take n ++ t)) (u.toList.filter Token.isVisible ++ us) := by
  obtain ⟨hle, hfits⟩ := Piece.fits_of_read hread
  by_cases hk : k = .comment
  · subst hk
    obtain ⟨rfl, rfl⟩ : some _ = u ∧ l = l' := by simpa [place] using hplace
    obtain rfl := hq ⟨_, rfl, rfl⟩
    generalize hx : c :: r.take n = x at hfits
    cases hfits with
    | comment hy hrest =>
      obtain ⟨rfl, rfl⟩ := List.cons.inj hx
      exact h.comment_append hy (ht.endsLine hrest)
    | code hk => simp at hk
  · have hread' := Piece.read_take_append hread hk ht
    have hlength := List.length_take_of_le hle
    have hplace' : place l p (c :: (r.take n ++ t).take n) k = .ok (u, l') := by
      rwa [List.take_left' hlength]
    refine Shows.cons hread' hplace' hq ?_
    rwa [List.take_left' hlength, List.drop_left' hlength]

end Shows

end Marginalia
