import Marginalia.Proofs.Token.Cut

/-!
# How far a piece looks ahead

The piece at the front of a text is told from its own characters and a few behind it. When the text
goes on behind the piece, what is put after the text does not change the piece
(`Piece.read_append_of_ne_nil`), with one exception: two characters may become an operator of three,
so if one character only is left behind an operator, it must be in no such operator.

A character that starts no piece starts none whatever comes after it
(`Piece.read_eq_of_unexpectedCharacter`), and a closing bracket is a piece of its own
(`Piece.read_of_isClosing`).
-/

namespace Marginalia

section While

variable {q : Char → Bool} {t : Text}

theorem takeWhile_append_of_dropWhile (h : t.dropWhile q ≠ []) (b : Text) :
    (t ++ b).takeWhile q = t.takeWhile q := by
  rw [List.takeWhile_append, if_neg]
  intro hlength
  exact h (by rw [← Text.drop_takeWhile, hlength, List.drop_length])

theorem dropWhile_append_of_dropWhile (h : t.dropWhile q ≠ []) (b : Text) :
    (t ++ b).dropWhile q = t.dropWhile q ++ b := by
  rw [List.dropWhile_append, if_neg (by simpa using h)]

end While

/-- What a line opens is told by what it starts with, and not by what stands behind it. -/
theorem openLine_append (indents : List ℕ) (p : Position) (ws : Text) {rest : Text}
    (hrest : rest ≠ []) (b : Text) :
    openLine indents p ws (rest ++ b) = openLine indents p ws rest := by
  obtain ⟨c, r, rfl⟩ := List.exists_cons_of_ne_nil hrest
  rfl

/-! ## Operators -/

/-- The characters of longer operators are operators. -/
theorem mem_oneCharOperators_of_mem {o : Text} (ho : o ∈ threeCharOperators ++ twoCharOperators)
    {c : Char} (hc : c ∈ o) : c ∈ oneCharOperators := by
  have hall : (threeCharOperators ++ twoCharOperators).all (·.all oneCharOperators.contains) =
      true := by
    decide
  simpa using List.all_eq_true.1 (List.all_eq_true.1 hall o ho) c hc

/-- A character that starts no longer operator is one or none. -/
theorem operatorLength?_of_head?_ne {c : Char}
    (hc : ∀ o ∈ threeCharOperators ++ twoCharOperators, o.head? ≠ some c) (r : Text) :
    operatorLength? (c :: r) = if oneCharOperators.contains c then some 1 else none := by
  have hnone : ∀ {ops : List Text} {k : ℕ}, (∀ o ∈ ops, o.length = k ∧ o ≠ []) →
      (∀ o ∈ ops, o.head? ≠ some c) → ops.contains ((c :: r).take k) ≠ true := by
    intro ops k hops hhead hcontains
    obtain ⟨o, ho, hfront⟩ := (contains_take_iff (fun o ho => (hops o ho).1) _).1 hcontains
    obtain ⟨d, o, rfl⟩ := List.exists_cons_of_ne_nil (hops o ho).2
    exact hhead _ ho (by rw [(List.cons_prefix_cons.1 hfront).1]; rfl)
  rw [List.forall_mem_append] at hc
  rw [operatorLength?, if_neg (hnone (by decide) hc.1), if_neg (hnone (by decide) hc.2)]
  rfl

theorem operatorLength?_cons_eq_none_iff {c : Char} {r : Text} :
    operatorLength? (c :: r) = none ↔ c ∉ oneCharOperators := by
  constructor
  · intro h hc
    rw [operatorLength?] at h
    split_ifs at h with _ _ hone
    exact hone (by simpa using hc)
  · intro hc
    have hhead : ∀ o ∈ threeCharOperators ++ twoCharOperators, o.head? ≠ some c :=
      fun o ho hd => hc (mem_oneCharOperators_of_mem ho (List.mem_of_mem_head? hd))
    rw [operatorLength?_of_head?_ne hhead, if_neg (by simpa using hc)]

theorem operatorLength?_of_isClosing {c : Char} (hc : isClosing c = true) (r : Text) :
    operatorLength? (c :: r) = some 1 := by
  have hcases : c = ')' ∨ c = ']' ∨ c = '\x7d' := by
    simpa [isClosing, or_assoc] using hc
  rw [operatorLength?_of_head?_ne]
  · rcases hcases with rfl | rfl | rfl <;> rfl
  · rcases hcases with rfl | rfl | rfl <;> decide

/-- Two characters behind an operator are enough to tell where it ends, and so is one that is in no
operator of three characters. -/
theorem operatorLength?_append {s : Text} {m : ℕ} (h : operatorLength? s = some m)
    (hne : s.drop m ≠ [])
    (hlast : ∀ d, s.drop m = [d] → ∀ o ∈ threeCharOperators, d ∉ o) (b : Text) :
    operatorLength? (s ++ b) = some m := by
  obtain ⟨hpos, -, -⟩ := Piece.isCodeText_operator h
  have hlength : m < s.length := not_le.1 fun hle => hne (List.drop_eq_nil_of_le hle)
  have htwo : (s ++ b).take 2 = s.take 2 := List.take_append_of_le_length (by omega)
  have hhead : (s ++ b).head? = s.head? :=
    List.head?_append_of_ne_nil s (by rintro rfl; simp at hne)
  have hthree : threeCharOperators.contains ((s ++ b).take 3) =
      threeCharOperators.contains (s.take 3) := by
    by_cases hlong : 3 ≤ s.length
    · rw [List.take_append_of_le_length hlong]
    · obtain ⟨c, d, rfl⟩ := List.length_eq_two.1 (show s.length = 2 by omega)
      obtain rfl : m = 1 := by simp at hlength; omega
      have hd := hlast d rfl
      have hops : ∀ o ∈ threeCharOperators, o.length = 3 := by decide
      rw [Bool.eq_iff_iff, contains_take_iff hops, contains_take_iff hops]
      constructor
      · rintro ⟨o, ho, hfront⟩
        obtain ⟨x, y, z, rfl⟩ := List.length_eq_three.1 (hops o ho)
        obtain ⟨-, hy⟩ := List.cons_prefix_cons.1 hfront
        exact absurd (by simp [(List.cons_prefix_cons.1 hy).1]) (hd _ ho)
      · rintro ⟨o, ho, hfront⟩
        exact absurd hfront.length_le (by simp [hops o ho])
  rw [operatorLength?] at h ⊢
  rwa [hthree, htwo, hhead]

namespace Piece

/-! ## Where no piece can be -/

/-- **A character that starts no piece** starts none whatever comes after it. A backslash does, if a
line break comes after it. -/
theorem read_eq_of_unexpectedCharacter {c x : Char} {r : Text}
    (h : read c r = .error (.unexpectedCharacter x)) (hx : x ≠ '\\') :
    x = c ∧ c ∉ oneCharOperators ∧ ∀ s, read c s = .error (.unexpectedCharacter c) := by
  have hstring : ∀ q skip, readString q skip r ≠ .error (.unexpectedCharacter x) := by
    intro q skip
    rw [readString]
    split <;> simp
  rw [read] at h
  split_ifs at h with hspace hlf hsign hslash hquote hdigit hname
  · unfold readContinuation at h
    split at h
    · simp at h
    · simp at h
    · obtain rfl : '\\' = x := by simpa using h
      exact absurd rfl hx
  · exact absurd h (hstring _ _)
  · simp only [readName] at h
    split at h
    · split at h
      · exact absurd h (hstring _ _)
      · simp at h
    · simp at h
  · rw [readOperator] at h
    split at h
    · simp at h
    · next hnone =>
      obtain rfl : c = x := by simpa using h
      have hc := operatorLength?_cons_eq_none_iff.1 hnone
      have hpoint : c ≠ '.' := by
        rintro rfl
        exact hc (by decide)
      refine ⟨rfl, hc, fun s => ?_⟩
      rw [not_or] at hdigit
      rw [read, if_neg hspace, if_neg hlf, if_neg hsign, if_neg hslash, if_neg hquote,
        if_neg (by simp [hdigit.1, hpoint]), if_neg hname, readOperator,
        operatorLength?_cons_eq_none_iff.2 hc]

/-- **A closing bracket** is a piece of its own. -/
theorem read_of_isClosing {c : Char} (hc : isClosing c = true) (r : Text) :
    read c r = .ok (.op, 0) := by
  have hop : readOperator c r = .ok (.op, 0) := by
    rw [readOperator, operatorLength?_of_isClosing hc]
  have hcases : c = ')' ∨ c = ']' ∨ c = '\x7d' := by
    simpa [isClosing, or_assoc] using hc
  rw [← hop]
  rcases hcases with rfl | rfl | rfl <;> rfl

/-! ## What stands behind a piece -/

section Append

variable {c : Char} {r : Text} {k : Piece} {n : ℕ} (hrest : r.drop n ≠ []) (b : Text)
include hrest

theorem readString_append {q : Char} {skip : ℕ} (h : readString q skip r = .ok (k, n)) :
    readString q skip (r ++ b) = .ok (k, n) := by
  obtain ⟨rfl, hends⟩ := endsIn_of_readString h
  obtain ⟨m, rfl, hm⟩ := of_readString h
  have hle := hends.le_length
  have hbody := stringLength?_take_append hm (t := (r.drop skip).drop m ++ b) fun hhead => by
    rw [List.drop_drop] at hhead ⊢
    rwa [List.head?_append_of_ne_nil _ hrest] at hhead
  rw [← List.append_assoc, List.take_append_drop] at hbody
  rw [readString, List.drop_append_of_le_length (by omega), hbody]

theorem readName_append (h : readName c r = .ok (k, n)) : readName c (r ++ b) = .ok (k, n) := by
  have hdrop : r.drop (nameLength r) ≠ [] := by
    intro hnil
    simp only [readName, hnil] at h
    obtain ⟨-, rfl⟩ : .name = k ∧ nameLength r = n := by simpa using h
    exact hrest hnil
  have hlength : nameLength (r ++ b) = nameLength r := by
    rw [nameLength, takeWhile_append_of_dropWhile (by rwa [← Text.drop_takeWhile]), nameLength]
  have hle : nameLength r ≤ r.length := (List.takeWhile_prefix _).length_le
  obtain ⟨q, s, hs⟩ := List.exists_cons_of_ne_nil hdrop
  have hs' : (r ++ b).drop (nameLength r) = q :: (s ++ b) := by
    rw [List.drop_append_of_le_length hle, hs]
    rfl
  simp only [readName, hs] at h
  simp only [readName, hlength, hs', List.take_append_of_le_length hle]
  split
  · next hquote =>
    rw [if_pos hquote] at h
    exact readString_append hrest b h
  · next hquote => rwa [if_neg hquote] at h

theorem readContinuation_append (h : readContinuation r = .ok (k, n)) :
    readContinuation (r ++ b) = .ok (k, n) := by
  unfold readContinuation at h
  split at h
  · exact h
  · exact h
  · simp at h

omit hrest in
theorem numberLength_append {radix : Bool} {prev : Char} {r : Text}
    (h : r.drop (numberLength radix prev r) ≠ []) :
    numberLength radix prev (r ++ b) = numberLength radix prev r := by
  induction r generalizing prev with
  | nil => exact absurd rfl h
  | cons c r ih =>
    rw [numberLength] at h
    rw [List.cons_append, numberLength, numberLength]
    split
    · next hc =>
      rw [if_pos hc, List.drop_succ_cons] at h
      rw [ih h]
    · rfl

theorem readOperator_append (h : readOperator c r = .ok (k, n))
    (hlast : ∀ d, r.drop n = [d] → ∀ o ∈ threeCharOperators, d ∉ o) :
    readOperator c (r ++ b) = .ok (k, n) := by
  obtain ⟨rfl, hm⟩ := of_readOperator h
  rw [readOperator, ← List.cons_append, operatorLength?_append hm hrest hlast]
  rfl

/-- **A piece is told from what stands behind it in the same text**, whatever is put after the
text. -/
theorem read_append_of_ne_nil (h : read c r = .ok (k, n))
    (hlast : k = .op → ∀ d, r.drop n = [d] → ∀ o ∈ threeCharOperators, d ∉ o) :
    read c (r ++ b) = .ok (k, n) := by
  have hhead : (r ++ b).head? = r.head? :=
    List.head?_append_of_ne_nil r (by rintro rfl; simp at hrest)
  rw [read] at h ⊢
  rw [hhead]
  split_ifs at h ⊢ with hspace hlf hsign hslash hquote hdigit hname
  · exact h
  · exact h
  · obtain ⟨rfl, rfl⟩ : .comment = k ∧ (r.takeWhile (· ≠ '\n')).length = n := by simpa using h
    rw [takeWhile_append_of_dropWhile (by rwa [← Text.drop_takeWhile])]
  · exact readContinuation_append hrest b h
  · exact readString_append hrest b h
  · obtain ⟨rfl, rfl⟩ : .number = k ∧ numberLength (isRadixNumber (c :: r)) c r = n := by
      simpa using h
    rw [isRadixNumber_congr c hhead, numberLength_append b hrest]
  · exact readName_append hrest b h
  · exact readOperator_append hrest b h (hlast (of_readOperator h).1)

end Append

end Piece

end Marginalia
