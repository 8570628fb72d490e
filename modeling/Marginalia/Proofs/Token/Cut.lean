import Marginalia.Proofs.Token.Acceptance
import Marginalia.Proofs.Token.Quotes

/-!
# Pieces in front of a line that is cut

When a line is cut somewhere behind a piece, the piece is still read as it was. What a piece takes
is decided by its own characters and by what comes right behind it, and the end of a line goes on
with no piece but a comment. `IsCutOf t s` says that `t` is `s` up to some place, and has a line
that ends there; `Piece.read_take_append` is the result for one piece, from a lemma for each
function that measures one, and `accepts_take_append_iff` is what it means to the scanner.
-/

namespace Marginalia

/-- The text `t` is like `s` up to some place, where its line ends. -/
def IsCutOf (t s : Text) : Prop := ∃ x y z, s = x ++ y ∧ t = x ++ z ∧ EndsLine z

theorem EndsLine.isCutOf {t : Text} (h : EndsLine t) (s : Text) : IsCutOf t s :=
  ⟨[], s, t, rfl, rfl, h⟩

theorem EndsLine.of_head? {t : Text} (h : EndsLine t) {c : Char} (hc : t.head? = some c) :
    c = '\r' ∨ c = '\n' := by
  obtain ⟨x, z, rfl, hx, hz⟩ := h
  cases x with
  | nil => exact Or.inr (hz c hc)
  | cons d x =>
    obtain rfl : d = c := by simpa using hc
    exact Or.inl (hx d List.mem_cons_self)

section IsCutOf

variable {s t : Text} (h : IsCutOf t s)
include h

theorem IsCutOf.cons (c : Char) : IsCutOf (c :: t) (c :: s) := by
  obtain ⟨x, y, z, rfl, rfl, hz⟩ := h
  exact ⟨c :: x, y, z, rfl, rfl, hz⟩

theorem IsCutOf.append (x : Text) : IsCutOf (x ++ t) (x ++ s) := by
  obtain ⟨x', y, z, rfl, rfl, hz⟩ := h
  exact ⟨x ++ x', y, z, by simp, by simp, hz⟩

/-- The next character is the same, or the line has ended. -/
theorem IsCutOf.head?_eq_or : t.head? = s.head? ∨ EndsLine t := by
  obtain ⟨x, y, z, rfl, rfl, hz⟩ := h
  cases x with
  | nil => exact Or.inr hz
  | cons c x => exact Or.inl rfl

/-- A character that ends no line comes next in both. -/
theorem IsCutOf.head?_eq_some {c : Char} (hlf : c ≠ '\n') (hcr : c ≠ '\r')
    (hc : t.head? = some c) : s.head? = some c := by
  rcases h.head?_eq_or with heq | hends
  · rw [← heq, hc]
  · exact absurd (hends.of_head? hc) (by simp [hlf, hcr])

/-- What has no line break stands in front of both. -/
theorem IsCutOf.isPrefix {o : Text} (hlf : '\n' ∉ o) (hcr : '\r' ∉ o) (ho : o <+: t) : o <+: s := by
  obtain ⟨x, y, z, rfl, rfl, hz⟩ := h
  rcases List.prefix_or_prefix_of_prefix ho (List.prefix_append x z) with hx | ⟨w, rfl⟩
  · exact hx.trans (List.prefix_append x y)
  · rw [List.prefix_append_right_inj] at ho
    cases w with
    | nil =>
      rw [List.append_nil]
      exact List.prefix_append x y
    | cons c w =>
      obtain ⟨v, rfl⟩ := ho
      have hc := hz.of_head? (c := c) rfl
      rcases hc with rfl | rfl
      · exact absurd hcr (by simp)
      · exact absurd hlf (by simp)

end IsCutOf

/-! ## String literals -/

theorem isPrefixOf_pair_take_append (q : Char) {r : Text} {n : ℕ} (hn : 2 ≤ n) (hle : n ≤ r.length)
    (t : Text) : [q, q].isPrefixOf (r.take n ++ t) = [q, q].isPrefixOf r := by
  obtain ⟨m, rfl⟩ := Nat.exists_eq_add_of_le' hn
  obtain ⟨c, r, rfl⟩ := List.exists_cons_of_length_pos (l := r) (by omega)
  rw [List.length_cons] at hle
  obtain ⟨d, r, rfl⟩ := List.exists_cons_of_length_pos (l := r) (by omega)
  simp [List.isPrefixOf]

/-- What a literal between three quotes takes does not depend on what follows. -/
theorem longBody?_take_append {q : Char} {r : Text} {n : ℕ} (h : longBody? q r = some n)
    (t : Text) : longBody? q (r.take n ++ t) = some n := by
  fun_induction longBody? q r generalizing n with
  | case1 => simp at h
  | case2 => simp at h
  | case3 r ih =>
    obtain ⟨m, hm, rfl⟩ := Option.map_eq_some_iff.1 h
    simp only [List.take_succ_cons, List.cons_append]
    rw [longBody?, ih hm]
    rfl
  | case4 d r hd ih =>
    obtain ⟨m, hm, rfl⟩ := Option.map_eq_some_iff.1 h
    have hthree := three_le_longBody? hm
    have hle := (Piece.endsIn_of_longBody? hm).le_length
    simp only [List.take_succ_cons, List.cons_append]
    rw [longBody?.eq_4, ih hm]
    · rfl
    · intro r' hcr hlf
      obtain ⟨e, r, rfl⟩ := List.exists_cons_of_length_pos (l := r) (by omega)
      obtain ⟨i, rfl⟩ := Nat.exists_eq_add_of_le' hthree
      obtain ⟨rfl, -⟩ : e = '\n' ∧ _ := by simpa using hlf
      exact hd r hcr rfl
  | case5 c r hnil _ hcons hq =>
    obtain ⟨rfl, hquotes⟩ := hq
    obtain ⟨z, rfl⟩ := List.isPrefixOf_iff_prefix.1 hquotes
    obtain rfl : 3 = n := by simpa using h
    simp only [List.take_succ_cons, List.cons_append]
    rw [longBody?_cons c (ne_backslash hnil hcons), if_pos ⟨rfl, by simp⟩]
  | case6 c r hnil _ hcons hq ih =>
    obtain ⟨m, hm, rfl⟩ := Option.map_eq_some_iff.1 h
    have hthree := three_le_longBody? hm
    have hle := (Piece.endsIn_of_longBody? hm).le_length
    rw [List.take_succ_cons, List.cons_append, longBody?_cons q (ne_backslash hnil hcons),
      isPrefixOf_pair_take_append q (by omega) hle, if_neg hq, ih hm]
    rfl

theorem shortBody?_take_append {q : Char} {r : Text} {n : ℕ} (h : shortBody? q r = some n)
    (t : Text) : shortBody? q (r.take n ++ t) = some n := by
  fun_induction shortBody? q r generalizing n with
  | case1 => simp at h
  | case2 => simp at h
  | case3 r ih =>
    obtain ⟨m, hm, rfl⟩ := Option.map_eq_some_iff.1 h
    simp only [List.take_succ_cons, List.cons_append]
    rw [shortBody?, ih hm]
    rfl
  | case4 d r hd ih =>
    obtain ⟨m, hm, rfl⟩ := Option.map_eq_some_iff.1 h
    simp only [List.take_succ_cons, List.cons_append]
    rw [shortBody?.eq_4, ih hm]
    · rfl
    · intro r' hcr hlf
      obtain ⟨x, y, rfl, rfl⟩ := Piece.endsIn_of_shortBody? hm
      cases x with
      | nil =>
        obtain ⟨rfl, -⟩ : q = '\n' ∧ _ := by simpa using hlf
        exact hd y hcr rfl
      | cons e x =>
        obtain ⟨rfl, -⟩ : e = '\n' ∧ _ := by simpa using hlf
        exact hd _ hcr rfl
  | case5 => simp at h
  | case6 r hnil _ hcons hc =>
    obtain rfl : 1 = n := by simpa using h
    simp only [List.take_succ_cons, List.cons_append]
    rw [shortBody?_cons q (ne_backslash hnil hcons), if_neg hc, if_pos rfl]
  | case7 c r hnil _ hcons hc hq ih =>
    obtain ⟨m, hm, rfl⟩ := Option.map_eq_some_iff.1 h
    rw [List.take_succ_cons, List.cons_append, shortBody?_cons q (ne_backslash hnil hcons),
      if_neg hc, if_neg hq, ih hm]
    rfl

/-- Only behind an empty literal does it matter whether another quote follows. -/
theorem stringLength?_take_append {q : Char} {r : Text} {n : ℕ} (h : stringLength? q r = some n)
    {t : Text} (ht : t.head? = some q → (r.drop n).head? = some q) :
    stringLength? q (r.take n ++ t) = some n := by
  rw [stringLength?] at h ⊢
  by_cases hquotes : [q, q].isPrefixOf r = true
  · rw [if_pos hquotes] at h
    obtain ⟨m, hm, rfl⟩ := Option.map_eq_some_iff.1 h
    obtain ⟨z, rfl⟩ := List.isPrefixOf_iff_prefix.1 hquotes
    have hbody := longBody?_take_append (r := z) hm t
    simp only [List.cons_append, List.nil_append, List.take_succ_cons, List.drop_succ_cons,
      List.drop_zero, hbody]
    simp
  · rw [if_neg hquotes] at h
    rw [if_neg, shortBody?_take_append h]
    intro hquotes'
    obtain ⟨x, y, rfl, rfl⟩ := Piece.endsIn_of_shortBody? h
    refine hquotes ?_
    cases x with
    | nil =>
      have hhead : y.head? = some q := by
        refine ht ?_
        obtain ⟨z, hz⟩ := List.isPrefixOf_iff_prefix.1 hquotes'
        have hz' : q :: q :: z = q :: t := hz
        rw [← (List.cons.inj hz').2]
        rfl
      obtain ⟨z, rfl⟩ := List.head?_eq_some_iff.1 hhead
      simp
    | cons c x =>
      cases x with
      | nil => simpa using hquotes'
      | cons d x => simpa using hquotes'

namespace Piece

variable {k : Piece} {n : ℕ} {t : Text}

theorem readString_take_append {q : Char} (hlf : q ≠ '\n') (hcr : q ≠ '\r') {skip : ℕ} {r : Text}
    (h : readString q skip r = .ok (k, n)) (ht : IsCutOf t (r.drop n)) :
    readString q skip (r.take n ++ t) = .ok (k, n) := by
  obtain ⟨rfl, hends⟩ := endsIn_of_readString h
  obtain ⟨m, rfl, hm⟩ := of_readString h
  have hle := hends.le_length
  have hdrop : (r.take (skip + m) ++ t).drop skip = (r.drop skip).take m ++ t := by
    rw [List.drop_append_of_le_length (by rw [List.length_take]; omega), List.drop_take,
      Nat.add_sub_cancel_left]
  have hbody := stringLength?_take_append hm (t := t) fun hhead => by
    rw [List.drop_drop]
    exact ht.head?_eq_some hlf hcr hhead
  rw [readString, hdrop, hbody]

/-! ## Names, numbers and operators -/

theorem takeWhile_take_append_of_lt {p : Char → Bool} {r : Text} (hn : (r.takeWhile p).length < n)
    (hle : n ≤ r.length) (t : Text) :
    (r.take n ++ t).takeWhile p = r.takeWhile p := by
  induction r generalizing n with
  | nil =>
    simp only [List.takeWhile_nil, List.length_nil] at hn hle
    omega
  | cons c r ih =>
    obtain ⟨m, rfl⟩ := Nat.exists_eq_add_of_le' (Nat.one_le_of_lt hn)
    rw [List.take_succ_cons, List.cons_append, List.takeWhile_cons, List.takeWhile_cons]
    split
    · next hc =>
      rw [List.takeWhile_cons, if_pos hc, List.length_cons] at hn
      rw [ih (Nat.lt_of_succ_lt_succ hn) (Nat.le_of_succ_le_succ hle)]
    · rfl

/-- The end of a line does not go on with a name. -/
theorem nameLength_take_append {r : Text} (ht : IsCutOf t (r.drop (nameLength r))) :
    nameLength (r.take (nameLength r) ++ t) = nameLength r := by
  have hsplit := List.takeWhile_append_dropWhile (p := isNameContinue) (l := r)
  have hhead := List.head?_dropWhile_not isNameContinue r
  have hname : ∀ c ∈ r.takeWhile isNameContinue, isNameContinue c = true :=
    fun c hc => List.mem_takeWhile_imp hc
  simp only [nameLength] at ht ⊢
  generalize r.takeWhile isNameContinue = x at *
  generalize r.dropWhile isNameContinue = y at *
  subst hsplit
  rw [List.drop_left] at ht
  have hstop : t.takeWhile isNameContinue = [] := by
    cases t with
    | nil => rfl
    | cons c t =>
      rw [List.takeWhile_cons_of_neg]
      intro hc
      have hlf : c ≠ '\n' := by
        rintro rfl
        exact absurd hc (by decide)
      have hcr : c ≠ '\r' := by
        rintro rfl
        exact absurd hc (by decide)
      rw [ht.head?_eq_some hlf hcr rfl] at hhead
      simp [hc] at hhead
  rw [List.take_left, List.takeWhile_append_of_pos hname, hstop, List.append_nil]

theorem numberLength_of_endsLine (ht : EndsLine t) (radix : Bool) (prev : Char) :
    numberLength radix prev t = 0 := by
  cases t with
  | nil => rfl
  | cons c t => rcases ht.of_head? rfl with rfl | rfl <;> rfl

theorem numberLength_take_append {radix : Bool} {prev : Char} {r : Text}
    (h : numberLength radix prev r = n) (ht : IsCutOf t (r.drop n)) :
    numberLength radix prev (r.take n ++ t) = n := by
  induction r generalizing prev n with
  | nil =>
    obtain rfl : 0 = n := h
    rcases ht.head?_eq_or with hhead | hends
    · rw [List.head?_eq_none_iff.1 hhead]
      rfl
    · exact numberLength_of_endsLine hends radix prev
  | cons c r ih =>
    rw [numberLength] at h
    split at h
    · next hc =>
      obtain rfl := h
      rw [List.take_succ_cons, List.cons_append, numberLength, if_pos hc, ih rfl ht]
    · next hc =>
      obtain rfl := h
      rcases ht.head?_eq_or with hhead | hends
      · obtain ⟨t, rfl⟩ := List.head?_eq_some_iff.1 hhead
        exact if_neg hc
      · exact numberLength_of_endsLine hends radix prev

theorem isRadixNumber_congr (c : Char) {s t : Text} (h : s.head? = t.head?) :
    isRadixNumber (c :: s) = isRadixNumber (c :: t) := by
  by_cases hc : c = '0'
  · subst hc
    cases s <;> cases t <;> simp_all [isRadixNumber]
  · simp [isRadixNumber, hc]

/-- No operator is made longer by the end of a line. -/
theorem operatorLength?_take_append {s : Text} (h : operatorLength? s = some n)
    (ht : IsCutOf t (s.drop n)) : operatorLength? (s.take n ++ t) = some n := by
  have hcut : IsCutOf (s.take n ++ t) s := by
    have hcut := ht.append (s.take n)
    rwa [List.take_append_drop] at hcut
  have hlonger : ∀ {ops : List Text} {k : ℕ}, (∀ o ∈ ops, o.length = k ∧ '\n' ∉ o ∧ '\r' ∉ o) →
      ops.contains (s.take k) ≠ true → ops.contains ((s.take n ++ t).take k) ≠ true := by
    intro ops k hops hs hcontains
    have hlength : ∀ o ∈ ops, o.length = k := fun o ho => (hops o ho).1
    rw [Ne, contains_take_iff hlength] at hs
    obtain ⟨o, ho, hfront⟩ := (contains_take_iff hlength _).1 hcontains
    obtain ⟨-, hlf, hcr⟩ := hops o ho
    exact hs ⟨o, ho, hcut.isPrefix hlf hcr hfront⟩
  have hsame : (s.take n ++ t).take n = s.take n :=
    List.take_left' (List.length_take_of_le (isCodeText_operator h).2.1)
  rw [operatorLength?] at h
  by_cases h3 : threeCharOperators.contains (s.take 3) = true
  · obtain rfl : 3 = n := Option.some.inj ((if_pos h3).symm.trans h)
    rw [operatorLength?, hsame, if_pos h3]
  rw [if_neg h3] at h
  have h3' := hlonger (by decide) h3
  by_cases h2 : twoCharOperators.contains (s.take 2) = true
  · obtain rfl : 2 = n := Option.some.inj ((if_pos h2).symm.trans h)
    rw [operatorLength?, if_neg h3', hsame, if_pos h2]
  rw [if_neg h2] at h
  have h2' := hlonger (by decide) h2
  split at h
  · next h1 =>
    obtain rfl : 1 = n := by simpa using h
    cases s with
    | nil => simp at h1
    | cons c s =>
      rw [operatorLength?, if_neg h3', if_neg h2']
      exact if_pos h1
  · simp at h

theorem readName_take_append {c : Char} {r : Text} (h : readName c r = .ok (k, n))
    (ht : IsCutOf t (r.drop n)) : readName c (r.take n ++ t) = .ok (k, n) := by
  have hle : nameLength r ≤ r.length := (List.takeWhile_prefix _).length_le
  by_cases hstring : ∃ q, (r.drop (nameLength r)).head? = some q ∧ (q = '"' ∨ q = '\'') ∧
      stringPrefixes.contains (Text.toLower (c :: r.take (nameLength r)))
  · obtain ⟨q, hq, hquote⟩ := hstring
    obtain ⟨s, hs⟩ := List.head?_eq_some_iff.1 hq
    simp only [readName, hs, if_pos hquote] at h
    obtain ⟨rfl, hends⟩ := endsIn_of_readString h
    obtain ⟨m, rfl, -⟩ := of_readString h
    have hlength := hends.le_length
    have hname : nameLength (r.take (nameLength r + 1 + m) ++ t) = nameLength r := by
      rw [nameLength, takeWhile_take_append_of_lt (by rw [← nameLength]; omega) hlength, nameLength]
    have hfront : (r.take (nameLength r + 1 + m) ++ t).take (nameLength r) =
        r.take (nameLength r) := by
      rw [List.take_append_of_le_length (by rw [List.length_take]; omega), List.take_take,
        min_eq_left (by omega)]
    have hback : (r.take (nameLength r + 1 + m) ++ t).drop (nameLength r) =
        q :: (s.take m ++ t) := by
      rw [List.drop_append_of_le_length (by rw [List.length_take]; omega), List.drop_take, hs,
        show nameLength r + 1 + m - nameLength r = m + 1 by omega, List.take_succ_cons]
      rfl
    simp only [readName, hname, hfront, hback, if_pos hquote]
    exact readString_take_append (by rcases hquote.1 with rfl | rfl <;> decide)
      (by rcases hquote.1 with rfl | rfl <;> decide) h ht
  · have hkn : .name = k ∧ nameLength r = n := by
      simp only [readName] at h
      split at h
      · next q s hs =>
        rw [if_neg fun hquote => hstring ⟨q, by rw [hs]; rfl, hquote⟩] at h
        simpa using h
      · simpa using h
    obtain ⟨rfl, rfl⟩ := hkn
    have hlength := List.length_take_of_le hle
    simp only [readName, nameLength_take_append ht, List.take_left' hlength,
      List.drop_left' hlength]
    cases t with
    | nil => rfl
    | cons q t =>
      simp only
      rw [if_neg]
      intro hquote
      refine hstring ⟨q, ht.head?_eq_some ?_ ?_ rfl, hquote⟩
      · rcases hquote.1 with rfl | rfl <;> decide
      · rcases hquote.1 with rfl | rfl <;> decide

theorem readContinuation_take_append {r : Text} (h : readContinuation r = .ok (k, n)) (t : Text) :
    readContinuation (r.take n ++ t) = .ok (k, n) := by
  unfold readContinuation at h
  split at h
  · obtain ⟨rfl, rfl⟩ : .continuation = k ∧ 1 = n := by simpa using h
    rfl
  · obtain ⟨rfl, rfl⟩ : .continuation = k ∧ 2 = n := by simpa using h
    rfl
  · simp at h

theorem readOperator_take_append {c : Char} {r : Text} (h : readOperator c r = .ok (k, n))
    (ht : IsCutOf t (r.drop n)) : readOperator c (r.take n ++ t) = .ok (k, n) := by
  obtain ⟨rfl, hm⟩ := of_readOperator h
  have hlength := operatorLength?_take_append hm ht
  rw [List.take_succ_cons, List.cons_append] at hlength
  simp only [readOperator, Nat.add_sub_cancel, hlength]

/-- A number is told from an operator by the character behind its point. -/
theorem isDigit_or_take_append {c : Char} {r : Text} (ht : IsCutOf t (r.drop n))
    (h : ¬ (c.isDigit ∨ c = '.' ∧ (r.head?.map Char.isDigit).getD false)) :
    ¬ (c.isDigit ∨ c = '.' ∧ ((r.take n ++ t).head?.map Char.isDigit).getD false) := by
  have hcut := ht.append (r.take n)
  rw [List.take_append_drop] at hcut
  rintro (hc | ⟨hc, hdigit⟩)
  · exact h (Or.inl hc)
  · cases hhead : (r.take n ++ t).head? with
    | none => simp [hhead] at hdigit
    | some d =>
      have hd : d.isDigit = true := by simpa [hhead] using hdigit
      have hlf : d ≠ '\n' := by
        rintro rfl
        exact absurd hd (by decide)
      have hcr : d ≠ '\r' := by
        rintro rfl
        exact absurd hd (by decide)
      exact h (Or.inr ⟨hc, by rw [hcut.head?_eq_some hlf hcr hhead]; exact hd⟩)

theorem readNumber_take_append {c : Char} {r : Text}
    (hdigit : c.isDigit ∨ c = '.' ∧ (r.head?.map Char.isDigit).getD false)
    (h : numberLength (isRadixNumber (c :: r)) c r = n) (ht : IsCutOf t (r.drop n)) :
    (c.isDigit ∨ c = '.' ∧ ((r.take n ++ t).head?.map Char.isDigit).getD false) ∧
      numberLength (isRadixNumber (c :: (r.take n ++ t))) c (r.take n ++ t) = n := by
  have hcut := ht.append (r.take n)
  rw [List.take_append_drop] at hcut
  rcases hcut.head?_eq_or with hhead | hends
  · rw [hhead, isRadixNumber_congr c hhead]
    exact ⟨hdigit, numberLength_take_append h ht⟩
  · -- nothing of the number stands behind its first character, which then is no point
    have hzero : n = 0 := by
      rw [← numberLength_take_append h ht, numberLength_of_endsLine hends]
    rw [hzero] at h
    refine ⟨Or.inl (hdigit.resolve_right fun ⟨_, hd⟩ => ?_), ?_⟩
    · cases r with
      | nil => simp at hd
      | cons d r =>
        have hd' : d.isDigit = true := by simpa using hd
        simp [numberLength, Char.isAlphanum, hd'] at h
    · rw [numberLength_of_endsLine hends, hzero]

/-- **A piece that is no comment is read as it was** when the line behind it is cut. -/
theorem read_take_append {c : Char} {r : Text} (h : read c r = .ok (k, n)) (hk : k ≠ .comment)
    (ht : IsCutOf t (r.drop n)) : read c (r.take n ++ t) = .ok (k, n) := by
  rw [read] at h ⊢
  by_cases hspace : isInlineSpace c = true
  · rwa [if_pos hspace] at h ⊢
  rw [if_neg hspace] at h ⊢
  by_cases hlf : c = '\n'
  · rwa [if_pos hlf] at h ⊢
  rw [if_neg hlf] at h ⊢
  by_cases hsign : c = '#'
  · rw [if_pos hsign] at h
    obtain ⟨rfl, -⟩ : .comment = k ∧ _ := by simpa using h
    exact absurd rfl hk
  rw [if_neg hsign] at h ⊢
  by_cases hbackslash : c = '\\'
  · rw [if_pos hbackslash] at h ⊢
    exact readContinuation_take_append h t
  rw [if_neg hbackslash] at h ⊢
  by_cases hquote : c = '"' ∨ c = '\''
  · rw [if_pos hquote] at h ⊢
    exact readString_take_append hlf (by rintro rfl; simp at hquote) h ht
  rw [if_neg hquote] at h ⊢
  by_cases hdigit : c.isDigit ∨ c = '.' ∧ (r.head?.map Char.isDigit).getD false
  · rw [if_pos hdigit] at h
    obtain ⟨rfl, hn⟩ : .number = k ∧ numberLength (isRadixNumber (c :: r)) c r = n := by
      simpa using h
    obtain ⟨hdigit', hn'⟩ := readNumber_take_append hdigit hn ht
    rw [if_pos hdigit', hn']
  rw [if_neg hdigit] at h
  rw [if_neg (isDigit_or_take_append ht hdigit)]
  by_cases hname : isNameStart c = true
  · rw [if_pos hname] at h ⊢
    exact readName_take_append h ht
  rw [if_neg hname] at h ⊢
  exact readOperator_take_append h ht

end Piece

/-- Where a line ends, it is cut to nothing. -/
theorem IsCutOf.endsLine {s t : Text} (h : IsCutOf t s) (hs : ∀ c ∈ s.head?, c = '\n') :
    EndsLine t := by
  rcases h.head?_eq_or with hhead | hends
  · exact ⟨[], t, rfl, by simp, by rwa [hhead]⟩
  · exact hends

/-- **A piece in front of a line that is cut** has the effect on the layout that it had. -/
theorem accepts_take_append_iff {l l' : Layout} (hl : l.atLineStart = false) {c : Char} {r t : Text}
    {k : Piece} {n : ℕ} (hread : Piece.read c r = .ok (k, n)) {p : Position} {u : Option Token}
    (hplace : place l p (c :: r.take n) k = .ok (u, l')) (ht : IsCutOf t (r.drop n)) :
    Accepts l (c :: (r.take n ++ t)) ↔ Accepts l' t := by
  obtain ⟨hle, hfits⟩ := Piece.fits_of_read hread
  by_cases hk : k = .comment
  · subst hk
    obtain ⟨-, rfl⟩ : _ ∧ l = l' := by simpa [place] using hplace
    generalize hx : c :: r.take n = x at hfits
    cases hfits with
    | comment hy hrest =>
      obtain ⟨rfl, rfl⟩ := List.cons.inj hx
      exact accepts_comment_iff hl hy (ht.endsLine hrest)
    | code hk => simp at hk
  · have hread' := Piece.read_take_append hread hk ht
    have hlength := List.length_take_of_le hle
    rw [accepts_cons_iff hl hread' (p := p) (by rwa [List.take_left' hlength]),
      List.drop_left' hlength]

end Marginalia
