import Marginalia.Proofs.Token.Append

/-!
# Errors that later text cannot undo

A line that returns to no open block, a bracket that closes nothing and a character that starts no
token are wrong whatever comes after them (`LexicalError.IsDefinite`): the source with any text
behind it has the same error, on the same line (`tokenize_append_eq_error`). The other errors are
about what is missing: the end of a literal, a closing bracket, the line break behind a backslash.

The proof follows the scanner. All that it reads in front of the offence is read in the same way in
the longer text, because the offending character stands behind each piece
(`Piece.read_append_of_ne_nil`), and it is in no operator that could take it in
(`notMem_of_scan_singleton`).
-/

namespace Marginalia

/-- The error is at a character, and not at the lack of one. -/
def LexicalError.IsDefinite : LexicalError → Prop
  | inconsistentDedent _ | unbalancedBracket _ _ => True
  | unexpectedCharacter _ c => c ≠ '\\'
  | unterminatedString _ | unclosedBracket _ => False

theorem exists_of_map_eq_error {ε α β : Type} {f : α → β} {x : Except ε α} {e : ε}
    (h : x.map f = .error e) : x = .error e := by
  cases x with
  | error e' =>
    obtain rfl : e' = e := by simpa [Except.map] using h
    rfl
  | ok a => simp [Except.map] at h

/-! ## Where the offence stands -/

theorem ne_nil_of_openLine {indents : List ℕ} {p : Position} {ws rest : Text} {e : LexicalError}
    (h : openLine indents p ws rest = .error e) : rest ≠ [] := by
  rintro rfl
  simp [openLine, isLineIdle] at h

/-- What misplaces a piece is a closing bracket. -/
theorem of_place_eq_error {l : Layout} {p : Position} {x : Text} {k : Piece} {e : LexicalError}
    (h : place l p x k = .error e) :
    ∃ c, x = [c] ∧ isClosing c = true ∧ k = .op := by
  cases k with
  | op =>
    simp only [place] at h
    split at h
    · simp at h
    · next e' he =>
      rw [depthAfter.eq_def] at he
      split at he
      · next c =>
        split at he
        · simp at he
        · split at he
          · next hc => exact ⟨c, rfl, hc, rfl⟩
          · simp at he
      · simp at he
  | lineBreak | space | continuation | comment | string | name | number => simp [place] at h

/-- An operator ends no line. -/
theorem atLineStart_of_place {l l' : Layout} {p : Position} {x : Text} {u : Option Token}
    (h : place l p x .op = .ok (u, l')) : l'.atLineStart = l.atLineStart := by
  simp only [place] at h
  split at h
  · obtain ⟨-, rfl⟩ := Prod.mk.inj (Except.ok.inj h)
    rfl
  · simp at h

section Definite

variable {l : Layout} {p : Position} {e : LexicalError} (he : e.IsDefinite)
include he

/-- The end of a text is no offence. -/
theorem ne_nil_of_scan {t : Text} (h : scan l p t = .error e) : t ≠ [] := by
  rintro rfl
  have hfinish : ∀ {l p}, finish l p ≠ .error e := by
    intro l p hfinish
    rw [finish] at hfinish
    split at hfinish
    · obtain rfl := Except.error.inj hfinish
      exact he
    · simp at hfinish
  cases hl : l.atLineStart with
  | false => exact hfinish (scan_nil hl ▸ h)
  | true =>
    rw [scan_lineStart hl] at h
    have hrest := exists_of_map_eq_error h
    rw [List.dropWhile_nil, scan_nil rfl] at hrest
    exact hfinish hrest

theorem exists_of_pieceError {e' : PieceError} (h : e'.at p = e) :
    ∃ c, e' = .unexpectedCharacter c ∧ c ≠ '\\' := by
  cases e' with
  | unterminatedString =>
    subst h
    exact he.elim
  | unexpectedCharacter c =>
    subst h
    exact ⟨c, rfl, he⟩

/-- An offending character does not belong to an operator that starts in front of it. -/
theorem notMem_of_scan_singleton (hl : l.atLineStart = false) {d : Char}
    (h : scan l p [d] = .error e) : ∀ o ∈ threeCharOperators, d ∉ o := by
  rw [scan_cons hl] at h
  cases hread : Piece.read d [] with
  | error e' =>
    rw [hread] at h
    obtain ⟨c, rfl, hc⟩ := exists_of_pieceError he (Except.error.inj h)
    intro o ho hd
    exact (Piece.read_eq_of_unexpectedCharacter hread hc).2.1
      (mem_oneCharOperators_of_mem (List.mem_append_left _ ho) hd)
  | ok kn =>
    rw [hread] at h
    simp only [Except.mapError, Except.bind, List.take_nil] at h
    split at h
    · next hplace =>
      obtain ⟨c, hx, hc, -⟩ := of_place_eq_error hplace
      obtain rfl : d = c := by simpa using hx
      have hcases : d = ')' ∨ d = ']' ∨ d = '\x7d' := by
        simpa [isClosing, or_assoc] using hc
      rcases hcases with rfl | rfl | rfl <;> decide
    · exact absurd (List.drop_nil) (ne_nil_of_scan he (exists_of_map_eq_error h))

/-- **An offence stays** when more text follows. -/
theorem scan_append_eq_error {t : Text} (h : scan l p t = .error e) (b : Text) :
    scan l p (t ++ b) = .error e := by
  -- by induction on the scan: the offence is in what is left of the text
  fun_induction scan l p t with
  | case1 l p t hl ws rest e' hopen =>
    have hne : t.dropWhile isInlineSpace ≠ [] := ne_nil_of_openLine hopen
    rw [scan_lineStart hl, takeWhile_append_of_dropWhile hne, dropWhile_append_of_dropWhile hne,
      openLine_append _ _ _ hne, hopen]
    exact h
  | case2 l p t hl ws rest us indents hopen ih =>
    have hrest := exists_of_map_eq_error h
    have hne : t.dropWhile isInlineSpace ≠ [] := ne_nil_of_scan he hrest
    rw [scan_lineStart hl, takeWhile_append_of_dropWhile hne, dropWhile_append_of_dropWhile hne,
      openLine_append _ _ _ hne, hopen]
    simp only [Except.bind]
    rw [ih hrest]
    rfl
  | case3 l p hl => exact absurd rfl (ne_nil_of_scan he (scan_nil (by simpa using hl) ▸ h))
  | case4 l p hl c r e' hread =>
    obtain ⟨x, rfl, hx⟩ := exists_of_pieceError he (Except.error.inj h)
    obtain ⟨rfl, -, hall⟩ := Piece.read_eq_of_unexpectedCharacter hread hx
    rw [List.cons_append, scan_cons (by simpa using hl), hall]
    exact h
  | case5 l p hl c r k n hread x e' hplace =>
    obtain ⟨d, hx, hd, rfl⟩ := of_place_eq_error hplace
    obtain ⟨rfl, -⟩ : c = d ∧ _ := by simpa [x] using hx
    have hclosing := Piece.read_of_isClosing hd
    obtain rfl : 0 = n := by simpa using (hclosing r).symm.trans hread
    rw [List.cons_append, scan_cons (by simpa using hl), hclosing]
    simp only [x] at hplace
    simp only [Except.mapError, Except.bind, List.take_zero] at hplace ⊢
    rw [hplace]
    exact h
  | case6 l p hl c r k n hread x u l' hplace ih =>
    have hrest := exists_of_map_eq_error h
    have hne := ne_nil_of_scan he hrest
    have hle := (Piece.fits_of_read hread).1
    simp only [x] at hplace ih hrest
    have hread' : Piece.read c (r ++ b) = .ok (k, n) := by
      refine Piece.read_append_of_ne_nil hne b hread fun hk d hd => ?_
      subst hk
      rw [hd] at hrest
      exact notMem_of_scan_singleton he (atLineStart_of_place hplace ▸ by simpa using hl) hrest
    rw [List.cons_append, scan_cons (by simpa using hl), hread']
    simp only [Except.mapError, Except.bind, List.take_append_of_le_length hle,
      List.drop_append_of_le_length hle, hplace]
    rw [ih hrest]
    rfl

end Definite

/-- **Later text does not undo a definite error**: the source with any text behind it has the same
error. -/
theorem tokenize_append_eq_error {source : Text} {e : LexicalError}
    (h : tokenize source = .error e) (he : e.IsDefinite) (rest : Text) :
    tokenize (source ++ rest) = .error e := by
  have hne : source ≠ [] := by
    rintro rfl
    exact ne_nil_of_scan he (t := []) h rfl
  obtain ⟨m, t, rfl, htokenize⟩ := exists_tokenize_append_eq hne
  have hscan : scan .initial (Position.origin.advanceBy m) t = .error e := by
    rw [← h, ← List.append_nil (m ++ t), htokenize, List.append_nil]
  rw [htokenize]
  exact scan_append_eq_error he hscan rest

/-- A line that is indented less than its block, a bracket that closes nothing behind two points,
and a sign behind a literal stay the error when a second offence follows them. -/
theorem tokenize_append_eq_error_offences :
    (tokenize "if x:\n    y\n  z".toList = .error (.inconsistentDedent 3) ∧
      tokenize "\ufeffx = ..)".toList = .error (.unbalancedBracket 1 ')') ∧
      tokenize "y = '''a\n'''$".toList = .error (.unexpectedCharacter 2 '$')) ∧
    tokenize ("if x:\n    y\n  z".toList ++ "\n(".toList) = .error (.inconsistentDedent 3) ∧
    tokenize ("\ufeffx = ..)".toList ++ ".$".toList) = .error (.unbalancedBracket 1 ')') ∧
    tokenize ("y = '''a\n'''$".toList ++ "='".toList) = .error (.unexpectedCharacter 2 '$') := by
  have hdedent : tokenize "if x:\n    y\n  z".toList = .error (.inconsistentDedent 3) := by
    decide +kernel
  have hbracket : tokenize "\ufeffx = ..)".toList = .error (.unbalancedBracket 1 ')') := by
    decide +kernel
  have hsign : tokenize "y = '''a\n'''$".toList = .error (.unexpectedCharacter 2 '$') := by
    decide +kernel
  have hdollar : LexicalError.IsDefinite (.unexpectedCharacter 2 '$') := by
    change '$' ≠ '\\'
    decide
  exact ⟨⟨hdedent, hbracket, hsign⟩, tokenize_append_eq_error hdedent trivial _,
    tokenize_append_eq_error hbracket trivial _, tokenize_append_eq_error hsign hdollar _⟩

/-- The other errors may be undone. -/
example : tokenize "('".toList = .error (.unterminatedString 1) ∧
    tokenize "(''".toList = .error (.unclosedBracket 1) ∧
    tokenize "('')\\".toList = .error (.unexpectedCharacter 1 '\\') ∧
    (tokenize "('')\\\n".toList).isOk = true := by
  decide +kernel

end Marginalia
