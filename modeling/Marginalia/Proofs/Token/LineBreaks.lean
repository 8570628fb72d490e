import Marginalia.Proofs.Token.Piece
import Marginalia.Proofs.Token.Scan

/-!
# Tokens of a text with the other line break

`Text.toCrlf` puts a carriage return in front of every line feed. The scanner looks at a carriage
return in many places, as white space, behind a backslash and at the end of a comment, and
`scan_toCrlf` proves that it does so to the same effect everywhere: the tokens are the same, except
that a line feed stands behind its carriage return and a literal over several lines contains them.

Where a piece ends before the carriage return of its line and the next one begins behind it, the
scanner skips it (`scan_carriageReturn`).
-/

namespace Marginalia

namespace Text

/-! ## Line breaks -/

/-- The text with a carriage return in front of every line feed. -/
def toCrlf (t : Text) : Text :=
  t.flatMap fun c => if c = '\n' then ['\r', '\n'] else [c]

@[simp]
theorem toCrlf_nil : toCrlf [] = [] := rfl

@[simp]
theorem toCrlf_lineFeed_cons (r : Text) : toCrlf ('\n' :: r) = '\r' :: '\n' :: toCrlf r := rfl

theorem toCrlf_cons {c : Char} (hc : c ≠ '\n') (r : Text) : toCrlf (c :: r) = c :: toCrlf r := by
  rw [toCrlf, List.flatMap_cons, if_neg hc]
  rfl

theorem toCrlf_append (x y : Text) : toCrlf (x ++ y) = toCrlf x ++ toCrlf y :=
  List.flatMap_append

theorem toCrlf_of_notMem {t : Text} (h : '\n' ∉ t) : toCrlf t = t := by
  induction t with
  | nil => rfl
  | cons c r ih =>
    obtain ⟨hc, hr⟩ := not_or.1 (mt List.mem_cons.2 h)
    rw [toCrlf_cons (Ne.symm hc), ih hr]

theorem length_le_toCrlf (t : Text) : t.length ≤ (toCrlf t).length := by
  induction t with
  | nil => exact Nat.le_refl _
  | cons c r ih =>
    by_cases hc : c = '\n'
    · rw [hc, toCrlf_lineFeed_cons, List.length_cons, List.length_cons, List.length_cons]
      omega
    · rw [toCrlf_cons hc, List.length_cons, List.length_cons]
      omega

theorem take_toCrlf (t : Text) (n : ℕ) :
    (toCrlf t).take (toCrlf (t.take n)).length = toCrlf (t.take n) := by
  conv_lhs => rw [← List.take_append_drop n t, toCrlf_append]
  rw [List.take_append_drop, List.take_left]

theorem drop_toCrlf (t : Text) (n : ℕ) :
    (toCrlf t).drop (toCrlf (t.take n)).length = toCrlf (t.drop n) := by
  conv_lhs => rw [← List.take_append_drop n t, toCrlf_append]
  rw [List.take_append_drop, List.drop_left]

theorem drop_toCrlf_of_notMem {t : Text} {n : ℕ} (hn : n ≤ t.length) (h : '\n' ∉ t.take n) :
    (toCrlf t).drop n = toCrlf (t.drop n) := by
  have hdrop := drop_toCrlf t n
  rwa [toCrlf_of_notMem h, List.length_take_of_le hn] at hdrop

section TakeWhile

variable {p : Char → Bool} (hlf : p '\n' = false) (hcr : p '\r' = false)
include hlf hcr

theorem takeWhile_toCrlf (t : Text) : (toCrlf t).takeWhile p = t.takeWhile p := by
  induction t with
  | nil => rfl
  | cons c r ih =>
    by_cases hc : c = '\n'
    · simp [hc, hlf, hcr]
    · rw [toCrlf_cons hc, List.takeWhile_cons, List.takeWhile_cons, ih]

theorem dropWhile_toCrlf (t : Text) : (toCrlf t).dropWhile p = toCrlf (t.dropWhile p) := by
  induction t with
  | nil => rfl
  | cons c r ih =>
    by_cases hc : c = '\n'
    · simp [hc, hlf, hcr]
    · rw [toCrlf_cons hc, List.dropWhile_cons, List.dropWhile_cons, ih]
      split
      · rfl
      · rw [toCrlf_cons hc]

theorem head?_toCrlf (t : Text) :
    ((toCrlf t).head?.map p).getD false = (t.head?.map p).getD false := by
  cases t with
  | nil => rfl
  | cons c r =>
    by_cases hc : c = '\n'
    · rw [hc, toCrlf_lineFeed_cons]
      simp [hlf, hcr]
    · rw [toCrlf_cons hc]
      rfl

end TakeWhile

/-- What has no line break is not affected. -/
theorem isPrefixOf_toCrlf {x : Text} (hlf : '\n' ∉ x) (hcr : '\r' ∉ x) (t : Text) :
    x.isPrefixOf (toCrlf t) = x.isPrefixOf t := by
  induction x generalizing t with
  | nil => simp
  | cons c x ih =>
    obtain ⟨hc, hx⟩ := not_or.1 (mt List.mem_cons.2 hlf)
    obtain ⟨hc', hx'⟩ := not_or.1 (mt List.mem_cons.2 hcr)
    cases t with
    | nil => rfl
    | cons d r =>
      by_cases hd : d = '\n'
      · have hne : (c == '\r') = false := beq_eq_false_iff_ne.2 (Ne.symm hc')
        have hne' : (c == '\n') = false := beq_eq_false_iff_ne.2 (Ne.symm hc)
        rw [hd, toCrlf_lineFeed_cons, List.isPrefixOf, List.isPrefixOf, hne, hne']
        rfl
      · rw [toCrlf_cons hd, List.isPrefixOf, List.isPrefixOf, ih hx hx']

end Text

/-! ## Pieces -/

open Text

theorem nameLength_toCrlf (t : Text) : nameLength (toCrlf t) = nameLength t := by
  rw [nameLength, takeWhile_toCrlf (by decide) (by decide), nameLength]

theorem numberLength_toCrlf (radix : Bool) (prev : Char) (t : Text) :
    numberLength radix prev (toCrlf t) = numberLength radix prev t := by
  induction t generalizing prev with
  | nil => rfl
  | cons c r ih =>
    by_cases hc : c = '\n'
    · have hstop : ∀ d r, d = '\n' ∨ d = '\r' → numberLength radix prev (d :: r) = 0 := by
        rintro d r (rfl | rfl) <;> rfl
      rw [hc, toCrlf_lineFeed_cons, hstop _ _ (.inr rfl), hstop _ _ (.inl rfl)]
    · rw [toCrlf_cons hc, numberLength, numberLength, ih]

theorem isRadixNumber_toCrlf (c : Char) (r : Text) :
    isRadixNumber (c :: toCrlf r) = isRadixNumber (c :: r) := by
  cases r with
  | nil => rfl
  | cons d r =>
    by_cases hd : d = '\n'
    · rw [hd, toCrlf_lineFeed_cons]
      by_cases hc : c = '0'
      · rw [hc]
        rfl
      · simp [isRadixNumber, hc]
    · rw [toCrlf_cons hd]
      by_cases hc : c = '0'
      · rw [hc]
        rfl
      · simp [isRadixNumber, hc]

/-! ### String literals -/

theorem ne_backslash {c : Char} {r : Text} (hnil : c = '\\' → r = [] → False)
    (hcons : ∀ d s, c = '\\' → r = d :: s → False) : c ≠ '\\' := by
  intro hc
  cases r with
  | nil => exact hnil hc rfl
  | cons d s => exact hcons d s hc rfl

theorem shortBody?_cons (q : Char) {c : Char} (hc : c ≠ '\\') (r : Text) :
    shortBody? q (c :: r) =
      if c = '\n' then none else if c = q then some 1 else (shortBody? q r).map (· + 1) :=
  shortBody?.eq_5 _ _ _ (fun h => absurd h hc) (fun _ h => absurd h hc) (fun _ _ h => absurd h hc)

theorem longBody?_cons (q : Char) {c : Char} (hc : c ≠ '\\') (r : Text) :
    longBody? q (c :: r) =
      if c = q ∧ [q, q].isPrefixOf r then some 3 else (longBody? q r).map (· + 1) :=
  longBody?.eq_5 _ _ _ (fun h => absurd h hc) (fun _ h => absurd h hc) (fun _ _ h => absurd h hc)

section Strings

variable {q : Char} (hlf : q ≠ '\n') (hcr : q ≠ '\r')
include hlf hcr

omit hlf in
theorem shortBody?_toCrlf {t : Text} (ht : '\r' ∉ t) :
    shortBody? q (toCrlf t) = (shortBody? q t).map fun n => (toCrlf (t.take n)).length := by
  fun_induction shortBody? q t with
  | case1 => rfl
  | case2 => rfl
  | case3 => simp at ht
  | case4 d r hd ih =>
    have ih := ih fun h => ht (by simp [h])
    by_cases hd : d = '\n'
    · rw [hd, toCrlf_cons (by decide), toCrlf_lineFeed_cons, shortBody?, ih]
      cases shortBody? q r <;> simp [toCrlf_cons]
    · have hd' : d ≠ '\r' := fun h => ht (by simp [h])
      rw [toCrlf_cons (by decide), toCrlf_cons hd, shortBody?.eq_4 _ _ _ (by simp [hd']), ih]
      cases shortBody? q r <;> simp [toCrlf_cons, hd]
  | case5 r =>
    rw [toCrlf_lineFeed_cons, shortBody?_cons q (by decide), if_neg (by decide), if_neg hcr.symm,
      shortBody?_cons q (by decide), if_pos rfl]
    rfl
  | case6 r hnil _ hcons hc =>
    rw [toCrlf_cons hc, shortBody?_cons q (ne_backslash hnil hcons), if_neg hc, if_pos rfl]
    simp [toCrlf_cons hc]
  | case7 c r hnil _ hcons hc hq ih =>
    have ih := ih fun h => ht (List.mem_cons_of_mem c h)
    rw [toCrlf_cons hc, shortBody?_cons q (ne_backslash hnil hcons), if_neg hc, if_neg hq, ih]
    cases shortBody? q r <;> simp [toCrlf_cons hc]

theorem longBody?_toCrlf {t : Text} (ht : '\r' ∉ t) :
    longBody? q (toCrlf t) = (longBody? q t).map fun n => (toCrlf (t.take n)).length := by
  have hquotes : ∀ r, [q, q].isPrefixOf (toCrlf r) = [q, q].isPrefixOf r :=
    isPrefixOf_toCrlf (by simp [hlf.symm]) (by simp [hcr.symm])
  fun_induction longBody? q t with
  | case1 => rfl
  | case2 => rfl
  | case3 => simp at ht
  | case4 d r hd ih =>
    have ih := ih fun h => ht (by simp [h])
    by_cases hd : d = '\n'
    · rw [hd, toCrlf_cons (by decide), toCrlf_lineFeed_cons, longBody?, ih]
      cases longBody? q r <;> simp [toCrlf_cons]
    · have hd' : d ≠ '\r' := fun h => ht (by simp [h])
      rw [toCrlf_cons (by decide), toCrlf_cons hd, longBody?.eq_4 _ _ _ (by simp [hd']), ih]
      cases longBody? q r <;> simp [toCrlf_cons, hd]
  | case5 c r hnil _ hcons hq =>
    obtain ⟨rfl, hprefix⟩ := hq
    obtain ⟨z, rfl⟩ := List.isPrefixOf_iff_prefix.1 hprefix
    rw [toCrlf_cons hlf, longBody?_cons c (ne_backslash hnil hcons), hquotes, if_pos ⟨rfl, hprefix⟩]
    simp [toCrlf_cons hlf]
  | case6 c r hnil _ hcons hq ih =>
    have ih := ih fun h => ht (List.mem_cons_of_mem c h)
    by_cases hc : c = '\n'
    · rw [hc, toCrlf_lineFeed_cons, longBody?_cons q (by decide), if_neg fun h => hcr h.1.symm,
        longBody?_cons q (by decide), if_neg fun h => hlf h.1.symm, ih]
      cases longBody? q r <;> simp
    · rw [toCrlf_cons hc, longBody?_cons q (ne_backslash hnil hcons), hquotes, if_neg hq, ih]
      cases longBody? q r <;> simp [toCrlf_cons hc]

theorem stringLength?_toCrlf {t : Text} (ht : '\r' ∉ t) :
    stringLength? q (toCrlf t) = (stringLength? q t).map fun n => (toCrlf (t.take n)).length := by
  rw [stringLength?, stringLength?, isPrefixOf_toCrlf (by simp [hlf.symm]) (by simp [hcr.symm])]
  split
  · next hprefix =>
    obtain ⟨z, rfl⟩ := List.isPrefixOf_iff_prefix.1 hprefix
    have hz : '\r' ∉ z := fun h => ht (List.mem_append_right _ h)
    simp only [List.cons_append, List.nil_append, toCrlf_cons hlf, List.drop_succ_cons,
      List.drop_zero, longBody?_toCrlf hlf hcr hz]
    cases longBody? q z <;> simp [toCrlf_cons hlf]
  · exact shortBody?_toCrlf hcr ht

end Strings

/-! ### All pieces -/

theorem contains_take_iff {ops : List Text} {k : ℕ} (hops : ∀ o ∈ ops, o.length = k) (t : Text) :
    ops.contains (t.take k) = true ↔ ∃ o ∈ ops, o <+: t := by
  rw [List.contains_iff_mem]
  refine ⟨fun h => ⟨_, h, List.take_prefix k t⟩, fun ⟨o, ho, ht⟩ => ?_⟩
  rw [List.prefix_iff_eq_take, hops o ho] at ht
  exact ht ▸ ho

theorem contains_take_toCrlf {ops : List Text} {k : ℕ}
    (hops : ∀ o ∈ ops, o.length = k ∧ '\n' ∉ o ∧ '\r' ∉ o) (t : Text) :
    ops.contains ((toCrlf t).take k) = ops.contains (t.take k) := by
  have hlength : ∀ o ∈ ops, o.length = k := fun o ho => (hops o ho).1
  rw [Bool.eq_iff_iff, contains_take_iff hlength, contains_take_iff hlength]
  refine exists_congr fun o => and_congr_right fun ho => ?_
  obtain ⟨-, hlf, hcr⟩ := hops o ho
  rw [← List.isPrefixOf_iff_prefix, isPrefixOf_toCrlf hlf hcr, List.isPrefixOf_iff_prefix]

theorem operatorLength?_toCrlf {c : Char} (hc : c ≠ '\n') (r : Text) :
    operatorLength? (c :: toCrlf r) = operatorLength? (c :: r) := by
  rw [operatorLength?, operatorLength?, ← toCrlf_cons hc,
    contains_take_toCrlf (by decide), contains_take_toCrlf (by decide), toCrlf_cons hc]
  rfl

/-- There is no line break in an operator. -/
theorem lineFeed_notMem_of_operatorLength? {t : Text} {n : ℕ} (h : operatorLength? t = some n) :
    '\n' ∉ t.take n := by
  have hall : ∀ o ∈ Piece.operators, '\n' ∉ o := by decide
  exact hall _ (Piece.take_mem_operators h).1

namespace Piece

theorem readString_toCrlf {q : Char} (hq : q = '"' ∨ q = '\'') {skip : ℕ} {r : Text}
    (hskip : skip ≤ r.length) (hlf : '\n' ∉ r.take skip) (hcr : '\r' ∉ r) :
    readString q skip (toCrlf r) =
      (readString q skip r).map (Prod.map id fun n => (toCrlf (r.take n)).length) := by
  have hcr' : '\r' ∉ r.drop skip := fun h => hcr (List.mem_of_mem_drop h)
  have hlength : ∀ n, (toCrlf (r.take (skip + n))).length =
      skip + (toCrlf ((r.drop skip).take n)).length := by
    intro n
    rw [List.take_add, toCrlf_append, toCrlf_of_notMem hlf, List.length_append,
      List.length_take_of_le hskip]
  rw [readString, readString, drop_toCrlf_of_notMem hskip hlf,
    stringLength?_toCrlf (by rcases hq with rfl | rfl <;> decide)
      (by rcases hq with rfl | rfl <;> decide) hcr']
  cases stringLength? q (r.drop skip) with
  | none => rfl
  | some n => simp [Except.map, hlength]

theorem readName_toCrlf {c : Char} {r : Text} (hcr : '\r' ∉ r) :
    readName c (toCrlf r) =
      (readName c r).map (Prod.map id fun n => (toCrlf (r.take n)).length) := by
  have hle : nameLength r ≤ r.length := (List.takeWhile_prefix _).length_le
  have htake : r.take (nameLength r) = r.takeWhile isNameContinue :=
    (List.prefix_iff_eq_take.1 (List.takeWhile_prefix _)).symm
  have hlf : '\n' ∉ r.take (nameLength r) := by
    rw [htake]
    exact fun h => absurd (List.mem_takeWhile_imp h) (by decide)
  have hdrop := drop_toCrlf_of_notMem hle hlf
  have hlength : (toCrlf (r.take (nameLength r))).length = nameLength r := by
    rw [toCrlf_of_notMem hlf, List.length_take_of_le hle]
  have htake' : (toCrlf r).take (nameLength r) = r.take (nameLength r) := by
    have htake' := take_toCrlf r (nameLength r)
    rwa [hlength, toCrlf_of_notMem hlf] at htake'
  simp only [readName, nameLength_toCrlf, hdrop, htake']
  cases hr : r.drop (nameLength r) with
  | nil => simp [Except.map, hlength]
  | cons q s =>
    by_cases hq : q = '\n'
    · simp [hq, Except.map, hlength]
    · rw [toCrlf_cons hq]
      simp only
      split
      · next hstring =>
        refine readString_toCrlf hstring.1 ?_ ?_ hcr
        · have := congrArg List.length hr
          rw [List.length_drop, List.length_cons] at this
          omega
        · rw [List.take_add, hr]
          simpa [Ne.symm hq] using hlf
      · simp [Except.map, hlength]

theorem readContinuation_toCrlf {r : Text} (hcr : '\r' ∉ r) :
    readContinuation (toCrlf r) =
      (readContinuation r).map (Prod.map id fun n => (toCrlf (r.take n)).length) := by
  cases r with
  | nil => rfl
  | cons c r =>
    by_cases hc : c = '\n'
    · rw [hc]
      rfl
    · have hc' : c ≠ '\r' := fun h => hcr (by simp [h])
      rw [toCrlf_cons hc]
      have herror : ∀ s, readContinuation (c :: s) = .error (.unexpectedCharacter '\\') := by
        intro s
        rw [readContinuation]
        · simp [hc]
        · simp [hc']
      rw [herror, herror]
      rfl

/-- **The same piece stands in front**, with the line breaks in it, except that a comment takes a
carriage return at its end with it. -/
theorem read_toCrlf {c : Char} (hc : c ≠ '\n') (hsign : c ≠ '#') {r : Text} (hcr : '\r' ∉ r) :
    read c (toCrlf r) = (read c r).map (Prod.map id fun n => (toCrlf (r.take n)).length) := by
  rw [read, read]
  by_cases hspace : isInlineSpace c = true
  · rw [if_pos hspace, if_pos hspace]
    rfl
  rw [if_neg hspace, if_neg hspace, if_neg hc, if_neg hc, if_neg hsign, if_neg hsign]
  by_cases hbackslash : c = '\\'
  · rw [if_pos hbackslash, if_pos hbackslash, readContinuation_toCrlf hcr]
  rw [if_neg hbackslash, if_neg hbackslash]
  by_cases hquote : c = '"' ∨ c = '\''
  · rw [if_pos hquote, if_pos hquote, readString_toCrlf hquote (Nat.zero_le _) (by simp) hcr]
  rw [if_neg hquote, if_neg hquote, head?_toCrlf (by decide) (by decide), isRadixNumber_toCrlf,
    numberLength_toCrlf]
  have hlength : ∀ n ≤ r.length, '\n' ∉ r.take n → (toCrlf (r.take n)).length = n := by
    intro n hn hlf
    rw [toCrlf_of_notMem hlf, List.length_take_of_le hn]
  by_cases hdigit : c.isDigit ∨ c = '.' ∧ (r.head?.map Char.isDigit).getD false
  · rw [if_pos hdigit, if_pos hdigit, Except.map, Prod.map, id,
      hlength _ (numberLength_le ..) fun h => absurd (isNumberChar_of_mem_take h) (by decide)]
  rw [if_neg hdigit, if_neg hdigit]
  by_cases hname : isNameStart c = true
  · rw [if_pos hname, if_pos hname, readName_toCrlf hcr]
  rw [if_neg hname, if_neg hname, readOperator, readOperator, operatorLength?_toCrlf hc]
  cases hoperator : operatorLength? (c :: r) with
  | none => rfl
  | some n =>
    obtain ⟨hpos, hle, -⟩ := isCodeText_operator hoperator
    obtain ⟨m, rfl⟩ := Nat.exists_eq_add_of_lt hpos
    have hlf := lineFeed_notMem_of_operatorLength? hoperator
    rw [Nat.zero_add, List.take_succ_cons] at hlf
    rw [Nat.zero_add, List.length_cons] at hle
    simp only [Nat.zero_add, Nat.add_sub_cancel, Except.map, Prod.map, id,
      hlength m (Nat.le_of_succ_le_succ hle) fun h => hlf (List.mem_cons_of_mem c h)]

/-- Line breaks and comments are told by their first character. -/
theorem ne_of_read {c : Char} {r : Text} {k : Piece} {n : ℕ} (h : read c r = .ok (k, n)) :
    (c ≠ '\n' → k ≠ .lineBreak) ∧ (c ≠ '#' → k ≠ .comment) := by
  have hfits := (fits_of_read h).2
  generalize hx : c :: r.take n = x at hfits
  cases hfits with
  | lineBreak => exact ⟨fun hc => absurd (List.cons.inj hx).1 hc, fun _ h => Piece.noConfusion h⟩
  | comment => exact ⟨fun _ h => Piece.noConfusion h, fun hc => absurd (List.cons.inj hx).1 hc⟩
  | space | continuation => exact ⟨fun _ h => Piece.noConfusion h, fun _ h => Piece.noConfusion h⟩
  | code hk => constructor <;> rintro - rfl <;> simp at hk

theorem read_comment {y z : Text} (hy : '\n' ∉ y) (hz : ∀ c ∈ z.head?, c = '\n') :
    read '#' (y ++ z) = .ok (.comment, y.length) := by
  have hstop : z.takeWhile (· ≠ '\n') = [] := by
    cases z with
    | nil => rfl
    | cons c z =>
      obtain rfl := hz c rfl
      rfl
  have htake : (y ++ z).takeWhile (· ≠ '\n') = y := by
    rw [List.takeWhile_append_of_pos, hstop, List.append_nil]
    intro c hc
    rw [decide_eq_true_iff]
    rintro rfl
    exact hy hc
  show Except.ok (Piece.comment, ((y ++ z).takeWhile (· ≠ '\n')).length) = _
  rw [htake]

end Piece

/-! ## Tokens -/

namespace Position

/-- A line feed leads to the same place from both sides of a carriage return. -/
theorem advanceBy_toCrlf (p : Position) (t : Text) : p.advanceBy (toCrlf t) = p.advanceBy t := by
  induction t generalizing p with
  | nil => rfl
  | cons c r ih =>
    by_cases hc : c = '\n'
    · rw [hc, toCrlf_lineFeed_cons, advanceBy_cons, advanceBy_cons, ih]
      rfl
    · rw [toCrlf_cons hc, advanceBy_cons, advanceBy_cons, ih]

end Position

/-- The token with the other line break: one that is a line break stands behind its carriage
return. -/
def Token.toCrlf (t : Token) : Token :=
  if t.text = ['\n'] then
    { t with
      start := ⟨t.start.line, t.start.column + 1⟩
      stop := ⟨t.stop.line, t.stop.column + 1⟩ }
  else { t with text := t.text.toCrlf }

theorem Token.toCrlf_of_notMem {t : Token} (h : '\n' ∉ t.text) : t.toCrlf = t := by
  rw [toCrlf, if_neg fun hlf => h (by simp [hlf]), Text.toCrlf_of_notMem h]

theorem Token.at_toCrlf (k : TokenKind) {x : Text} (hx : x ≠ ['\n']) (p : Position) :
    Token.at k x.toCrlf p = (Token.at k x p).toCrlf := by
  rw [Token.toCrlf, if_neg (show (Token.at k x p).text ≠ ['\n'] from hx), Token.at,
    Position.advanceBy_toCrlf]
  rfl

theorem depthAfter_toCrlf {x : Text} (hx : x ≠ ['\n']) (depth line : ℕ) :
    depthAfter depth line x.toCrlf = depthAfter depth line x := by
  match x with
  | [] => rfl
  | [c] => rw [toCrlf_of_notMem fun h => hx (by rw [List.mem_singleton.1 h])]
  | c :: d :: y =>
    have hlong : ∀ e f z, depthAfter depth line (e :: f :: z) = .ok depth := fun _ _ _ => rfl
    rw [hlong]
    by_cases hc : c = '\n'
    · rw [hc]
      exact hlong _ _ _
    · rw [toCrlf_cons hc]
      by_cases hd : d = '\n'
      · rw [hd]
        exact hlong _ _ _
      · rw [toCrlf_cons hd]
        exact hlong _ _ _

theorem place_toCrlf {x : Text} (hx : x ≠ ['\n']) {k : Piece} (hlf : k ≠ .lineBreak)
    (hcomment : k ≠ .comment) (l : Layout) (p : Position) :
    place l p x.toCrlf k = (place l p x k).map (Prod.map (Option.map Token.toCrlf) id) := by
  cases k with
  | space | continuation => rfl
  | lineBreak => exact absurd rfl hlf
  | comment => exact absurd rfl hcomment
  | string | name | number =>
    simp only [place, Token.at_toCrlf _ hx]
    rfl
  | op =>
    simp only [place, Token.at_toCrlf _ hx, depthAfter_toCrlf hx]
    cases depthAfter l.depth p.line x <;> rfl

/-- Behind the start of a line, the scanner skips a carriage return. -/
theorem scan_carriageReturn {l : Layout} (hl : l.atLineStart = false) (p : Position) (r : Text) :
    scan l p ('\r' :: r) = scan l (p.advance '\r') r := by
  rw [scan_cons hl]
  show (scan l (p.advance '\r') r).map ([] ++ ·) = _
  cases scan l (p.advance '\r') r <;> rfl

/-- The tokens that open a line have no line break in them. -/
theorem openLine_toCrlf {indents indents' : List ℕ} {p : Position} {ws rest : Text}
    {us : List Token} (hws : '\n' ∉ ws) (h : openLine indents p ws rest = .ok (us, indents')) :
    us.map Token.toCrlf = us := by
  simp only [openLine] at h
  split_ifs at h
  · obtain ⟨rfl, -⟩ : [] = us ∧ _ := by simpa using h
    rfl
  · obtain ⟨rfl, -⟩ : [_] = us ∧ _ := by simpa using h
    rw [List.map_singleton, Token.toCrlf_of_notMem hws]
  · obtain ⟨rfl, -⟩ : List.replicate _ _ = us ∧ _ := by simpa using h
    rw [List.map_replicate, Token.toCrlf_of_notMem (by simp)]

theorem finish_toCrlf (l : Layout) (p : Position) :
    (finish l p).map (List.map Token.toCrlf) = finish l p := by
  have hempty : ∀ k, Token.toCrlf ⟨k, [], p, p⟩ = ⟨k, [], p, p⟩ :=
    fun k => Token.toCrlf_of_notMem (by simp)
  rw [finish]
  split
  · rfl
  · by_cases h : l.inStatement = true <;> simp [h, Except.map, hempty]

/-- What a line starts with is the same, but for a carriage return that the scanner skips. -/
theorem scan_lineStart_toCrlf {l : Layout} (hl : l.atLineStart = true) (p : Position) {t : Text} :
    scan l p t.toCrlf =
      (openLine l.indents p (t.takeWhile isInlineSpace) (t.dropWhile isInlineSpace)).bind
        fun (us, indents) =>
          (scan { l with indents, atLineStart := false } (p.advanceBy (t.takeWhile isInlineSpace))
            (toCrlf (t.dropWhile isInlineSpace))).map (us ++ ·) := by
  have hws : ∀ c ∈ t.takeWhile isInlineSpace, isInlineSpace c = true :=
    fun c hc => List.mem_takeWhile_imp hc
  have hlf : '\n' ∉ t.takeWhile isInlineSpace := fun h => absurd (hws _ h) (by decide)
  have hsplit : t.toCrlf = t.takeWhile isInlineSpace ++ toCrlf (t.dropWhile isInlineSpace) := by
    conv_lhs => rw [← List.takeWhile_append_dropWhile (p := isInlineSpace) (l := t)]
    rw [toCrlf_append, toCrlf_of_notMem hlf]
  have hhead := List.head?_dropWhile_not isInlineSpace t
  generalize t.takeWhile isInlineSpace = ws at *
  generalize t.dropWhile isInlineSpace = rest at *
  rw [scan_lineStart hl, hsplit, List.takeWhile_append_of_pos hws, List.dropWhile_append_of_pos hws]
  cases rest with
  | nil => simp
  | cons c r =>
    have hc : isInlineSpace c = false := by simpa using hhead
    by_cases hc' : c = '\n'
    · have hidle : ∀ x y, openLine l.indents p x ('\n' :: y) = .ok ([], l.indents) := fun _ _ => rfl
      rw [hc', toCrlf_lineFeed_cons, List.takeWhile_cons, List.dropWhile_cons,
        if_pos (by decide), if_pos (by decide), List.takeWhile_cons_of_neg (by decide),
        List.dropWhile_cons_of_neg (by decide), hidle, hidle]
      simp only [Except.bind]
      rw [scan_carriageReturn rfl, Position.advanceBy_append]
      rfl
    · have hopen : openLine l.indents p ws (c :: toCrlf r) = openLine l.indents p ws (c :: r) := rfl
      rw [toCrlf_cons hc', List.takeWhile_cons_of_neg (by simp [hc]),
        List.dropWhile_cons_of_neg (by simp [hc]), List.append_nil, hopen]

theorem scan_comment {l : Layout} (hl : l.atLineStart = false) (p : Position) {y z : Text}
    (hy : '\n' ∉ y) (hz : ∀ c ∈ z.head?, c = '\n') :
    scan l p ('#' :: (y ++ z)) =
      (scan l (p.advanceBy ('#' :: y)) z).map
        (Token.at .comment (trimEnd (· == '\r') ('#' :: y)) p :: ·) := by
  rw [scan_cons hl, Piece.read_comment hy hz]
  simp only [Except.mapError, Except.bind, List.take_left, List.drop_left]
  rfl

/-- A comment does not end in a carriage return. -/
theorem scan_comment_toCrlf {l : Layout} (hl : l.atLineStart = false) (p : Position) {y z : Text}
    (hy : '\n' ∉ y) (hz : ∀ c ∈ z.head?, c = '\n') :
    scan l p (toCrlf ('#' :: (y ++ z))) =
      (scan l (p.advanceBy ('#' :: y)) (toCrlf z)).map
        (Token.at .comment (trimEnd (· == '\r') ('#' :: y)) p :: ·) := by
  rw [toCrlf_cons (by decide), toCrlf_append, toCrlf_of_notMem hy]
  cases z with
  | nil => exact scan_comment hl p hy hz
  | cons c z =>
    obtain rfl := hz c rfl
    have hy' : '\n' ∉ y ++ ['\r'] := by simp [hy]
    have hlong := scan_comment hl p (z := '\n' :: toCrlf z) hy' (by simp)
    have hcons : '#' :: (y ++ ['\r']) = '#' :: y ++ ['\r'] := rfl
    rw [List.append_assoc, hcons, trimEnd_append_of_forall (List.forall_mem_singleton.2 rfl),
      Position.advanceBy_append] at hlong
    rw [toCrlf_lineFeed_cons, scan_carriageReturn hl]
    exact hlong

/-- A piece comes out the same, from the same place. -/
theorem scan_cons_toCrlf {l : Layout} (hl : l.atLineStart = false) (p : Position) {c : Char}
    {r : Text} (hcr : '\r' ∉ c :: r) :
    scan l p (toCrlf (c :: r)) =
      ((Piece.read c r).mapError (·.at p)).bind fun (k, n) =>
        ((place l p (c :: r.take n) k).map (Prod.map (Option.map Token.toCrlf) id)).bind
          fun (u, l') =>
            (scan l' (p.advanceBy (c :: r.take n)) (toCrlf (r.drop n))).map (u.toList ++ ·) := by
  have hcr' : '\r' ∉ r := fun h => hcr (List.mem_cons_of_mem c h)
  by_cases hlf : c = '\n'
  · rw [hlf, toCrlf_lineFeed_cons, scan_carriageReturn hl, scan_cons hl]
    rfl
  by_cases hsign : c = '#'
  · have hy : '\n' ∉ r.takeWhile (· ≠ '\n') := fun h => by simpa using List.mem_takeWhile_imp h
    have hz : ∀ d ∈ (r.dropWhile (· ≠ '\n')).head?, d = '\n' := fun d hd => by
      have hhead := List.head?_dropWhile_not (· ≠ '\n') r
      rw [Option.mem_def.1 hd] at hhead
      simpa using hhead
    have hsplit := List.takeWhile_append_dropWhile (p := (· ≠ '\n')) (l := r)
    generalize r.takeWhile (· ≠ '\n') = y at *
    generalize r.dropWhile (· ≠ '\n') = z at *
    have htoken : (Token.at .comment (trimEnd (· == '\r') ('#' :: y)) p).toCrlf =
        Token.at .comment (trimEnd (· == '\r') ('#' :: y)) p :=
      Token.toCrlf_of_notMem fun h => hy (by simpa using (trimEnd_isPrefix _ _).subset h)
    subst hsplit
    rw [hsign, scan_comment_toCrlf hl p hy hz, Piece.read_comment hy hz]
    simp only [Except.mapError, Except.bind, List.take_left, List.drop_left, place, Except.map,
      Prod.map, id, Option.map, htoken]
    rfl
  rw [toCrlf_cons hlf, scan_cons hl, Piece.read_toCrlf hlf hsign hcr']
  cases hread : Piece.read c r with
  | error e => rfl
  | ok kn =>
    obtain ⟨k, n⟩ := kn
    have hx : c :: r.take n ≠ ['\n'] := fun h => hlf (List.cons.inj h).1
    have hk := Piece.ne_of_read hread
    simp only [Except.map, Except.mapError, Except.bind, Prod.map, id, take_toCrlf, drop_toCrlf,
      ← toCrlf_cons hlf, place_toCrlf hx (hk.1 hlf) (hk.2 hsign), Position.advanceBy_toCrlf]

/-- **A text with the other line break has the same tokens.** -/
theorem scan_toCrlf {l : Layout} {p : Position} {t : Text} (ht : '\r' ∉ t) :
    scan l p t.toCrlf = (scan l p t).map (List.map Token.toCrlf) := by
  fun_induction scan l p t with
  | case1 l p t hl ws rest e hopen =>
    rw [scan_lineStart_toCrlf hl, hopen]
    rfl
  | case2 l p t hl ws rest us indents hopen ih =>
    have hlf : '\n' ∉ ws := fun h => absurd (List.mem_takeWhile_imp h) (by decide)
    have ih := ih fun h => ht ((List.dropWhile_sublist _).subset h)
    rw [scan_lineStart_toCrlf hl, hopen]
    simp only [Except.bind]
    rw [ih]
    cases scan { l with indents, atLineStart := false } (p.advanceBy ws) rest with
    | error e => rfl
    | ok ts => simp [Except.map, openLine_toCrlf hlf hopen]
  | case3 l p hl => rw [toCrlf_nil, scan_nil (by simpa using hl), finish_toCrlf]
  | case4 l p hl c r e hread =>
    rw [scan_cons_toCrlf (by simpa using hl) p ht, hread]
    rfl
  | case5 l p hl c r k n hread x e hplace =>
    simp only [x] at hplace
    rw [scan_cons_toCrlf (by simpa using hl) p ht, hread]
    simp only [Except.mapError, Except.bind, hplace]
    rfl
  | case6 l p hl c r k n hread x u l' hplace ih =>
    have ih := ih fun h => ht (List.mem_cons_of_mem c (List.mem_of_mem_drop h))
    simp only [x] at hplace ih
    rw [scan_cons_toCrlf (by simpa using hl) p ht, hread]
    simp only [Except.mapError, Except.bind, hplace, Except.map, Prod.map, id]
    rw [ih]
    cases scan l' (p.advanceBy (c :: r.take n)) (r.drop n) <;> cases u <;> simp [Except.map]

end Marginalia
