import Marginalia.Proofs.ByteOrderMark
import Marginalia.Proofs.Token.LineStarts
import Marginalia.Proofs.Token.Lookahead
import Marginalia.Proofs.Token.Outline

/-!
# Sources one behind the other

A source that ends in a line break of its own, outside brackets and with no block open, can be cut
into tokens without the one behind it: the tokens of both together are those of the first and then
those of the second, further down (`tokenize_append`). That the line break is such a one is told by
the tokens, because it is the last of them in front of the end marker (`EndsInLineBreak`).

Nothing that the scanner reads of the first source depends on the second. A piece that is read in
front of the last line break is read with it in sight, and sees no further (`Piece.read_append`);
behind the last line break the scanner starts afresh (`eq_initial_of_scan`).
-/

namespace Marginalia

/-! ## Further down -/

/-- The position, `n` lines further down. -/
def Position.moveDown (n : ℕ) (p : Position) : Position := ⟨p.line + n, p.column⟩

theorem Position.isMove_moveDown (n : ℕ) : IsMove (moveDown n) n where
  line_eq _ := rfl
  advance_eq p c _ := by
    rw [advance, advance]
    split
    · exact congrArg (Position.mk · 0) (Nat.add_right_comm ..)
    · rfl

/-- Behind a line break a text starts as a source does, so many lines further down. -/
theorem Position.origin_advanceBy_lineFeed (x : Text) :
    origin.advanceBy (x ++ ['\n']) = origin.moveDown (List.count '\n' (x ++ ['\n'])) := by
  have hline := line_advanceBy origin (x ++ ['\n'])
  rw [advanceBy_append] at hline ⊢
  exact congrArg (Position.mk · 0) hline

/-! ## The last line break -/

/-- The last token in front of the end marker is the line break that the text ends in, when the text
stands at `p`. -/
def EndsInLineBreak (p : Position) (t : Text) (ts : List Token) : Prop :=
  ∃ x c us u e, t = x ++ [c] ∧ ts = us ++ [u, e] ∧ (u.kind = .newline ∨ u.kind = .lineBreak) ∧
    u.text = ['\n'] ∧ u.start = p.advanceBy x

theorem EndsInLineBreak.eq_lineFeed {p : Position} {t : Text} {ts : List Token}
    (h : EndsInLineBreak p t ts) (htiles : Tiles p t ts) : ∃ x, t = x ++ ['\n'] := by
  obtain ⟨x, c, us, u, e, rfl, rfl, -, htext, hstart⟩ := h
  obtain ⟨a, b, hab, ha, -⟩ := htiles.split (i := us.length) (u := u) (by simp)
  rw [htext, List.append_assoc] at hab
  obtain rfl := Position.eq_of_advanceBy_eq hab (hstart.symm.trans ha.symm)
  obtain ⟨rfl, -⟩ : c = '\n' ∧ [] = b := by simpa using List.append_cancel_left hab
  exact ⟨x, rfl⟩

theorem EndsInLineBreak.ne_nil {p : Position} {t : Text} {ts : List Token}
    (h : EndsInLineBreak p t ts) : t ≠ [] := by
  obtain ⟨x, c, -, -, -, rfl, -⟩ := h
  simp

/-- When two lists together end in a pair, the second one does, unless the first of the pair is in
the first one. -/
theorem exists_append_pair {α : Type} {us vs ws : List α} {u e : α}
    (h : us ++ vs = ws ++ [u, e]) :
    (∃ ws', vs = ws' ++ [u, e]) ∨ ∃ zs, us = ws ++ u :: zs ∧ zs ++ vs = [e] := by
  rcases List.append_eq_append_iff.1 h with ⟨w, rfl, rfl⟩ | ⟨w, rfl, hw⟩
  · exact Or.inl ⟨w, rfl⟩
  · cases w with
    | nil => exact Or.inl ⟨[], hw.symm⟩
    | cons d w =>
      obtain ⟨rfl, hend⟩ := List.cons.inj hw
      exact Or.inr ⟨w, rfl, hend.symm⟩

/-- What stands behind the front of a text ends in the same line break. -/
theorem EndsInLineBreak.of_append {p : Position} {x r : Text} {us vs : List Token} {u e : Token}
    (h : EndsInLineBreak p (x ++ r) (us ++ (vs ++ [u, e])))
    (htiles : Tiles (p.advanceBy x) r (vs ++ [u, e])) :
    EndsInLineBreak (p.advanceBy x) r (vs ++ [u, e]) := by
  obtain ⟨x', c, us', u', e', ht, hts, hkind, htext, hstart⟩ := h
  rw [← List.append_assoc] at hts
  obtain ⟨rfl, htail⟩ := List.append_inj' hts rfl
  obtain ⟨rfl, -⟩ := List.cons.inj htail
  -- The rest is not empty, because the line break is a token of it.
  obtain ⟨a, b, hr, -⟩ := htiles.split (i := vs.length) (u := u) (by simp)
  have hne : r ≠ [] := by
    rintro rfl
    simp [htext] at hr
  obtain ⟨y, c', rfl⟩ := (List.eq_nil_or_concat' r).resolve_left hne
  rw [← List.append_assoc] at ht
  obtain ⟨rfl, -⟩ := List.append_inj' ht rfl
  rw [Position.advanceBy_append] at hstart
  exact ⟨y, c', vs, u, e, rfl, rfl, hkind, htext, hstart⟩

/-- A piece whose token is the last line break is the whole text. -/
theorem EndsInLineBreak.eq_lineBreak {l l' : Layout} {p : Position} {c : Char} {r : Text}
    {k : Piece} {m : ℕ} {u e : Token} (h : EndsInLineBreak p (c :: r) [u, e])
    (hread : Piece.read c r = .ok (k, m))
    (hplace : place l p (c :: r.take m) k = .ok (some u, l')) :
    c = '\n' ∧ r = [] ∧ k = .lineBreak ∧ m = 0 := by
  obtain ⟨y, c', us, u', e', ht, hts, -, htext, hstart⟩ := h
  obtain ⟨-, htail⟩ := List.append_inj' (show [] ++ [u, e] = us ++ [u', e'] from hts) rfl
  obtain ⟨rfl, -⟩ := List.cons.inj htail
  obtain ⟨hu, hprefix⟩ := of_place hplace
  obtain rfl : y = [] := by
    by_contra hy
    exact (Position.lt_advanceBy p hy).ne (hu.symm.trans hstart)
  obtain ⟨rfl, rfl⟩ : c = c' ∧ r = [] := by simpa using ht
  obtain rfl : c = '\n' := by simpa [htext, eq_comm] using hprefix
  obtain ⟨rfl, rfl⟩ : Piece.lineBreak = k ∧ 0 = m := by
    simpa [Piece.read, isInlineSpace] using hread
  exact ⟨rfl, rfl, rfl, rfl⟩

/-- **Behind the last line break** nothing is open, if only the end marker follows. -/
theorem eq_initial_of_scan {l l' : Layout} {p q : Position} {x : Text} {u e : Token}
    (hplace : place l p x .lineBreak = .ok (some u, l')) (h : scan l' q [] = .ok [e])
    (hl : l.atLineStart = false) : l' = .initial := by
  obtain ⟨-, hl'⟩ : _ ∧ (if l.depth = 0 then { l with inStatement := false, atLineStart := true }
      else l) = l' := by
    simpa [place] using hplace
  by_cases hdepth : l.depth = 0
  · rw [if_pos hdepth] at hl'
    subst hl'
    rw [scan_lineStart rfl] at h
    obtain ⟨us, hfinish, hus⟩ := exists_of_map_eq_ok h
    obtain rfl : us = [e] := hus
    have hlast := (scan_nil rfl).symm.trans hfinish
    have hindents : l.indents = [] := by
      have hlength := congrArg (Except.map List.length) hlast
      simpa [finish, hdepth, Except.map] using hlength
    rw [Layout.initial, hindents, hdepth]
  · rw [if_neg hdepth] at hl'
    subst hl'
    rw [scan_nil hl, finish, if_pos (Nat.pos_of_ne_zero hdepth)] at h
    cases h

/-! ## Reading in front of the last line break -/

/-- A piece that is read in front of the last line break is read so in front of another text. -/
theorem Piece.read_append {c : Char} {r y : Text} {k : Piece} {n : ℕ}
    (h : read c r = .ok (k, n)) (hrest : r.drop n = y ++ ['\n']) (b : Text) :
    read c (r ++ b) = .ok (k, n) := by
  refine read_append_of_ne_nil (by simp [hrest]) b h fun _ d hd => ?_
  obtain ⟨-, htail⟩ := List.append_inj' (show y ++ ['\n'] = [] ++ [d] from hrest.symm.trans hd) rfl
  obtain rfl : '\n' = d := by simpa using htail
  decide

/-- **In front of another text** the scanner finds the same tokens, and then starts afresh. -/
theorem scan_append {l : Layout} {p : Position} {a : Text} {us : List Token}
    (h : scan l p a = .ok us) (hend : EndsInLineBreak p a us) (b : Text) :
    scan l p (a ++ b) = (scan .initial (p.advanceBy a) b).map (us.dropLast ++ ·) := by
  -- by induction on the scan: what is left of the text ends in the same line break
  fun_induction scan l p a generalizing us with
  | case1 => cases h
  | case2 l p t hl ws rest ts indents hopen =>
    rename_i ih
    obtain ⟨us', hscan, rfl⟩ := exists_of_map_eq_ok h
    have htiles := tiles_of_scan hscan
    obtain ⟨-, -, vs, u, e, -, hts, -, htext, -⟩ := id hend
    rcases exists_append_pair hts with ⟨vs', rfl⟩ | ⟨zs, rfl, -⟩
    · rw [← List.takeWhile_append_dropWhile (p := isInlineSpace) (l := t)] at hend
      have hrest := hend.of_append htiles
      have hne : t.dropWhile isInlineSpace ≠ [] := hrest.ne_nil
      rw [scan_lineStart hl, takeWhile_append_of_dropWhile hne, dropWhile_append_of_dropWhile hne,
        openLine_append _ _ _ hne, hopen]
      simp only [Except.bind]
      rw [ih hscan hrest, ← Position.advanceBy_append, List.takeWhile_append_dropWhile,
        List.dropLast_append_of_ne_nil (by simp)]
      cases scan .initial (p.advanceBy t) b <;> simp [Except.map]
    · have hsub := (of_mem_openLine hopen (List.mem_append_right vs List.mem_cons_self)).2.1
      exact absurd (List.mem_takeWhile_imp (hsub (by simp [htext] : '\n' ∈ u.text))) (by decide)
  | case3 => exact absurd rfl hend.ne_nil
  | case4 => cases h
  | case5 => cases h
  | case6 l p hl c r k m hread x v l' hplace =>
    rename_i ih
    obtain ⟨us', hscan, rfl⟩ := exists_of_map_eq_ok h
    have hstart : l.atLineStart = false := by simpa using hl
    have htiles := tiles_of_scan hscan
    simp only [x] at hplace ih htiles
    obtain ⟨-, -, vs, u, e, -, hts, -⟩ := id hend
    rcases exists_append_pair hts with ⟨vs', rfl⟩ | ⟨zs, hv, hzs⟩
    · have hcut : c :: r = (c :: r.take m) ++ r.drop m := by simp
      rw [hcut] at hend
      have hrest := hend.of_append htiles
      obtain ⟨z, hz⟩ := hrest.eq_lineFeed htiles
      have hle := (Piece.fits_of_read hread).1
      rw [List.cons_append, scan_cons hstart, Piece.read_append hread hz]
      simp only [Except.mapError, Except.bind, List.take_append_of_le_length hle,
        List.drop_append_of_le_length hle, hplace]
      rw [ih hscan hrest, ← Position.advanceBy_append, ← hcut,
        List.dropLast_append_of_ne_nil (by simp)]
      cases scan .initial (p.advanceBy (c :: r)) b <;> simp [Except.map]
    · -- the piece is the last line break, and all that is left of the text
      obtain ⟨rfl, rfl⟩ : v = some u ∧ us' = [e] := by
        cases v <;> simp_all [List.singleton_eq_append_iff]
      obtain ⟨rfl, rfl, rfl, rfl⟩ := EndsInLineBreak.eq_lineBreak hend hread hplace
      obtain rfl := eq_initial_of_scan hplace hscan hstart
      rw [List.take_zero] at hplace
      rw [List.cons_append, scan_cons hstart]
      simp [Piece.read, isInlineSpace, Except.mapError, Except.bind, hplace]

/-! ## Whole sources -/

/-- What a source that is not empty starts with decides where the scanner starts. -/
theorem exists_tokenize_append_eq {a : Text} (ha : a ≠ []) :
    ∃ m t, a = m ++ t ∧
      ∀ b, tokenize (m ++ t ++ b) = scan .initial (Position.origin.advanceBy m) (t ++ b) := by
  obtain ⟨c, r, rfl⟩ := List.exists_cons_of_ne_nil ha
  by_cases hc : c = byteOrderMark
  · subst hc
    exact ⟨[byteOrderMark], r, rfl, fun b => rfl⟩
  · refine ⟨[], c :: r, rfl, fun b => ?_⟩
    rw [tokenize, splitByteOrderMark_of_head? (by simpa using hc)]
    rfl

/-- A source further down has its tokens there. -/
theorem scan_moveDown {b : Text} (hb : b.head? ≠ some byteOrderMark) (n : ℕ) :
    scan .initial (Position.origin.moveDown n) b =
      ((tokenize b).mapError (·.moveDown n)).map (List.map (Token.move (Position.moveDown n))) := by
  rw [scan_move (Position.isMove_moveDown n) (Nat.le_refl 1), tokenize,
    splitByteOrderMark_of_head? hb]
  rfl

/-- **Sources one behind the other** have their tokens one behind the other: without the end marker
of the first source, and so many lines further down as the first source takes up. The second source
fails as it does alone. -/
theorem tokenize_append {a b : Text} {us : List Token} (h : tokenize a = .ok us)
    (ha : a = [] ∨ EndsInLineBreak .origin a us) (hb : b.head? ≠ some byteOrderMark) :
    ∃ vs e, us = vs ++ [e] ∧ e.kind = .endMarker ∧
      tokenize (a ++ b) =
        ((tokenize b).mapError (·.moveDown (List.count '\n' a))).map fun ws =>
          vs ++ ws.map (Token.move (Position.moveDown (List.count '\n' a))) := by
  obtain ⟨vs, e, rfl, hkind, -⟩ := (outlines_of_tokenize h).exists_endMarker
  refine ⟨vs, e, rfl, hkind, ?_⟩
  rcases ha with rfl | ha
  · have hfinish : tokenize [] = .ok [⟨.endMarker, [], .origin, .origin⟩] := by decide +kernel
    obtain ⟨rfl, -⟩ : [] = vs ∧ _ = [e] :=
      List.append_inj' (Except.ok.inj (hfinish.symm.trans h)) rfl
    refine Eq.trans ?_ (scan_moveDown hb 0)
    rw [List.nil_append, tokenize, splitByteOrderMark_of_head? hb]
    rfl
  obtain ⟨m, t, rfl, htokenize⟩ := exists_tokenize_append_eq ha.ne_nil
  have hscan : scan .initial (Position.origin.advanceBy m) t = .ok (vs ++ [e]) := by
    rw [← h, ← List.append_nil (m ++ t), htokenize, List.append_nil]
  have htiles := tiles_of_scan hscan
  have hend : EndsInLineBreak (Position.origin.advanceBy m) t (vs ++ [e]) := by
    obtain ⟨-, -, us, u, e', -, hus, -⟩ := id ha
    rw [hus] at ha htiles ⊢
    rw [← List.nil_append (us ++ [u, e'])] at ha
    exact ha.of_append htiles
  obtain ⟨x, rfl⟩ := hend.eq_lineFeed htiles
  rw [htokenize, scan_append hscan hend, ← Position.advanceBy_append, ← List.append_assoc,
    Position.origin_advanceBy_lineFeed, scan_moveDown hb, List.dropLast_concat]
  cases tokenize b <;> rfl

/-- A source whose block and brackets are closed in front of its last line break. -/
def closedSource : Text := "\ufeffif x:\n\ty\n[\n]  # c\r\n\n".toList

/-- The tokens of `closedSource` in front of its last line break. -/
def closedTokens : List Token :=
  [.at .name "if".toList ⟨1, 1⟩, .at .name ['x'] ⟨1, 4⟩, .at .op [':'] ⟨1, 5⟩,
   ⟨.newline, ['\n'], ⟨1, 6⟩, ⟨1, 7⟩⟩, .at .indent ['\t'] ⟨2, 0⟩, .at .name ['y'] ⟨2, 1⟩,
   ⟨.newline, ['\n'], ⟨2, 2⟩, ⟨2, 3⟩⟩, .at .dedent [] ⟨3, 0⟩, .at .op ['['] ⟨3, 0⟩,
   ⟨.lineBreak, ['\n'], ⟨3, 1⟩, ⟨3, 2⟩⟩, .at .op [']'] ⟨4, 0⟩, .at .comment "# c".toList ⟨4, 3⟩,
   ⟨.newline, ['\n'], ⟨4, 7⟩, ⟨4, 8⟩⟩]

/-- The last line break of `closedSource`. -/
def closingLineBreak : Token := ⟨.lineBreak, ['\n'], ⟨5, 0⟩, ⟨5, 1⟩⟩

theorem tokenize_closedSource : tokenize closedSource =
    .ok (closedTokens ++ [closingLineBreak, .at .endMarker [] ⟨6, 0⟩]) := by
  decide +kernel

theorem endsInLineBreak_closedSource : EndsInLineBreak .origin closedSource
    (closedTokens ++ [closingLineBreak, .at .endMarker [] ⟨6, 0⟩]) :=
  ⟨closedSource.dropLast, '\n', closedTokens, closingLineBreak, .at .endMarker [] ⟨6, 0⟩,
    rfl, rfl, Or.inr rfl, rfl, rfl⟩

/-- Behind `closedSource` a line has its tokens, and a literal that does not end is an error on its
line. -/
theorem tokenize_append_closedSource :
    tokenize (closedSource ++ "z\n".toList) = .ok (closedTokens ++ [closingLineBreak,
      .at .name ['z'] ⟨6, 0⟩, ⟨.newline, ['\n'], ⟨6, 1⟩, ⟨6, 2⟩⟩, .at .endMarker [] ⟨7, 0⟩]) ∧
    tokenize (closedSource ++ "\n'z".toList) = .error (.unterminatedString 7) := by
  have hz : tokenize "z\n".toList = .ok [.at .name ['z'] ⟨1, 0⟩,
      ⟨.newline, ['\n'], ⟨1, 1⟩, ⟨1, 2⟩⟩, .at .endMarker [] ⟨2, 0⟩] := by
    decide +kernel
  have hopen : tokenize "\n'z".toList = .error (.unterminatedString 2) := by decide +kernel
  have happend := fun b => tokenize_append (b := b) tokenize_closedSource
    (Or.inr endsInLineBreak_closedSource)
  obtain ⟨vs, e, hvs, -, htokens⟩ := happend "z\n".toList (by decide)
  obtain ⟨_, _, -, -, herror⟩ := happend "\n'z".toList (by decide)
  rw [List.append_cons] at hvs
  obtain ⟨rfl, -⟩ := List.append_inj' hvs rfl
  rw [htokens, herror, hz, hopen]
  exact ⟨by decide +kernel, rfl⟩

end Marginalia
