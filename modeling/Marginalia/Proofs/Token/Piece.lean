import Mathlib.Data.List.TakeWhile
import Marginalia.Proofs.Text.Trim

/-!
# What a piece is made of

`Piece.Fits` says of each piece which characters it has, and what may stand behind it. It holds
of every piece that is read (`Piece.fits_of_read`). A name, a number, an operator and a string
literal are code (`IsCodeText`): they begin and end in a character that can be seen, and do not
begin with a number sign. This is all that the rewriting of lines depends on.
-/

namespace Marginalia

/-- A text that begins and ends in a visible character, and is no comment. -/
structure IsCodeText (x : Text) : Prop where
  head : ∃ c, x.head? = some c ∧ isBlankChar c = false ∧ c ≠ '#'
  last : ∃ c, x.getLast? = some c ∧ isBlankChar c = false

theorem IsCodeText.ne_nil {x : Text} (h : IsCodeText x) : x ≠ [] := by
  rintro rfl
  obtain ⟨c, hc, -⟩ := h.head
  simp at hc

/-- A text of visible characters is code if no number sign is among them. -/
theorem isCodeText_of_forall {x : Text} (hne : x ≠ [])
    (h : ∀ c ∈ x, isBlankChar c = false ∧ c ≠ '#') : IsCodeText x where
  head := ⟨x.head hne, List.head?_eq_some_head hne, h _ (List.head_mem hne)⟩
  last := ⟨x.getLast hne, List.getLast?_eq_some_getLast hne, (h _ (List.getLast_mem hne)).1⟩

namespace Piece

/-- The piece may have the characters `x` when `rest` stands behind it. -/
inductive Fits : Piece → Text → Text → Prop
  | space {c : Char} {rest : Text} (hc : isInlineSpace c = true) : Fits .space [c] rest
  | continuation {x rest : Text} (hx : x = ['\\', '\n'] ∨ x = ['\\', '\r', '\n']) :
      Fits .continuation x rest
  | lineBreak {rest : Text} : Fits .lineBreak ['\n'] rest
  /-- A comment goes on to the end of its line. -/
  | comment {y rest : Text} (hy : '\n' ∉ y) (hrest : ∀ c ∈ rest.head?, c = '\n') :
      Fits .comment ('#' :: y) rest
  | code {k : Piece} {x rest : Text} (hk : k = .string ∨ k = .name ∨ k = .number ∨ k = .op)
      (hx : IsCodeText x) : Fits k x rest

/-! ## String literals -/

/-- The text has the character `q` at the end of its first `n` characters. -/
def EndsIn (q : Char) (n : ℕ) (t : Text) : Prop :=
  ∃ x y, t = x ++ q :: y ∧ n = x.length + 1

theorem EndsIn.cons {q : Char} {n : ℕ} {t : Text} (h : EndsIn q n t) (c : Char) :
    EndsIn q (n + 1) (c :: t) := by
  obtain ⟨x, y, rfl, rfl⟩ := h
  exact ⟨c :: x, y, rfl, rfl⟩

theorem EndsIn.append {q : Char} {n : ℕ} {t : Text} (h : EndsIn q n t) (s : Text) :
    EndsIn q (s.length + n) (s ++ t) := by
  obtain ⟨x, y, rfl, rfl⟩ := h
  exact ⟨s ++ x, y, by simp, by simp; omega⟩

theorem EndsIn.le_length {q : Char} {n : ℕ} {t : Text} (h : EndsIn q n t) : n ≤ t.length := by
  obtain ⟨x, y, rfl, rfl⟩ := h
  simp

theorem EndsIn.getLast?_take {q : Char} {n : ℕ} {t : Text} (h : EndsIn q n t) :
    (t.take n).getLast? = some q := by
  obtain ⟨x, y, rfl, rfl⟩ := h
  simp [List.take_append]

theorem endsIn_of_shortBody? {q : Char} {t : Text} {n : ℕ} (h : shortBody? q t = some n) :
    EndsIn q n t := by
  fun_induction shortBody? q t generalizing n with
  | case1 => simp at h
  | case2 => simp at h
  | case3 r ih =>
    obtain ⟨m, hm, rfl⟩ := Option.map_eq_some_iff.1 h
    exact (((ih hm).cons _).cons _).cons _
  | case4 d r _ ih =>
    obtain ⟨m, hm, rfl⟩ := Option.map_eq_some_iff.1 h
    exact ((ih hm).cons _).cons _
  | case5 => simp at h
  | case6 r => exact ⟨[], r, rfl, by simpa using h.symm⟩
  | case7 c r _ _ _ _ _ ih =>
    obtain ⟨m, hm, rfl⟩ := Option.map_eq_some_iff.1 h
    exact (ih hm).cons c

theorem endsIn_of_longBody? {q : Char} {t : Text} {n : ℕ} (h : longBody? q t = some n) :
    EndsIn q n t := by
  fun_induction longBody? q t generalizing n with
  | case1 => simp at h
  | case2 => simp at h
  | case3 r ih =>
    obtain ⟨m, hm, rfl⟩ := Option.map_eq_some_iff.1 h
    exact (((ih hm).cons _).cons _).cons _
  | case4 d r _ ih =>
    obtain ⟨m, hm, rfl⟩ := Option.map_eq_some_iff.1 h
    exact ((ih hm).cons _).cons _
  | case5 c r _ _ _ hq =>
    obtain ⟨y, rfl⟩ := List.isPrefixOf_iff_prefix.1 hq.2
    obtain rfl : 3 = n := by simpa using h
    exact ⟨[q, q], y, by simp [hq.1], rfl⟩
  | case6 c r _ _ _ _ ih =>
    obtain ⟨m, hm, rfl⟩ := Option.map_eq_some_iff.1 h
    exact (ih hm).cons c

/-- A string literal ends in the quote that it opens with. -/
theorem endsIn_of_readString {q : Char} {skip n : ℕ} {r : Text} {k : Piece}
    (h : readString q skip r = .ok (k, n)) : k = .string ∧ EndsIn q n r := by
  rw [readString] at h
  split at h
  · next m hm =>
    obtain ⟨rfl, rfl⟩ : .string = k ∧ skip + m = n := by simpa using h
    have hbody : EndsIn q m (r.drop skip) := by
      rw [stringLength?] at hm
      split at hm
      · next hq =>
        obtain ⟨i, hi, rfl⟩ := Option.map_eq_some_iff.1 hm
        obtain ⟨y, hy⟩ := List.isPrefixOf_iff_prefix.1 hq
        have := (endsIn_of_longBody? hi).append [q, q]
        rw [← hy] at this ⊢
        simpa [Nat.add_comm] using this
      · exact endsIn_of_shortBody? hm
    have hlen : (r.take skip).length = skip := by
      obtain ⟨x, y, hxy, -⟩ := hbody
      have : (r.drop skip).length ≠ 0 := by simp [hxy]
      rw [List.length_drop] at this
      exact List.length_take_of_le (by omega)
    have := hbody.append (r.take skip)
    rw [List.take_append_drop, hlen] at this
    exact ⟨rfl, this⟩
  · simp at h

/-! ## Names, numbers and operators -/

theorem isBlankChar_of_isNameContinue {c : Char} (h : isNameContinue c = true) :
    isBlankChar c = false :=
  isBlankChar_eq_false (p := isNameContinue) (by decide +kernel) h

theorem ne_numberSign_of_isNameContinue {c : Char} (h : isNameContinue c = true) : c ≠ '#' := by
  rintro rfl
  exact absurd h (by decide +kernel)

theorem isNameContinue_of_isNameStart {c : Char} (h : isNameStart c = true) :
    isNameContinue c = true := by
  rw [isNameStart, Bool.or_eq_true] at h
  rw [isNameContinue, isLetterOrNumeral, Bool.or_eq_true, Bool.or_eq_true]
  exact h.imp_right Or.inl

theorem isNameContinue_of_mem_name {c : Char} (h : isNameStart c = true) {r : Text} {d : Char}
    (hd : d ∈ c :: r.take (nameLength r)) : isNameContinue d = true := by
  rcases List.mem_cons.1 hd with rfl | hd
  · exact isNameContinue_of_isNameStart h
  · rw [nameLength, ← List.prefix_iff_eq_take.1 (List.takeWhile_prefix _)] at hd
    exact List.mem_takeWhile_imp hd

/-- The characters that a name starts or goes on with can be seen. -/
theorem isCodeText_name {c : Char} (h : isNameStart c = true) (r : Text) :
    IsCodeText (c :: r.take (nameLength r)) := by
  refine isCodeText_of_forall (by simp) fun d hd => ?_
  have hd' := isNameContinue_of_mem_name h hd
  exact ⟨isBlankChar_of_isNameContinue hd', ne_numberSign_of_isNameContinue hd'⟩

/-- Whether a number may go on with this character. -/
def isNumberChar (c : Char) : Bool :=
  c.isAlphanum || c == '_' || c == '.' || c == '+' || c == '-'

theorem numberLength_le (radix : Bool) (prev : Char) (t : Text) :
    numberLength radix prev t ≤ t.length := by
  induction t generalizing prev with
  | nil => exact Nat.le_refl _
  | cons c r ih =>
    rw [numberLength]
    split
    · exact Nat.succ_le_succ (ih c)
    · exact Nat.zero_le _

theorem isNumberChar_of_mem_take {radix : Bool} {prev d : Char} {t : Text}
    (h : d ∈ t.take (numberLength radix prev t)) : isNumberChar d = true := by
  induction t generalizing prev with
  | nil => simp at h
  | cons c r ih =>
    rw [numberLength] at h
    split at h
    · next hc =>
      rcases List.mem_cons.1 (List.take_succ_cons ▸ h) with rfl | h
      · simp only [Bool.or_eq_true, Bool.and_eq_true] at hc
        simp only [isNumberChar, Bool.or_eq_true]
        tauto
      · exact ih h
    · simp at h

theorem isNumberChar_of_mem_number {radix : Bool} {c d : Char} (h : c.isDigit ∨ c = '.') {r : Text}
    (hd : d ∈ c :: r.take (numberLength radix c r)) : isNumberChar d = true := by
  rcases List.mem_cons.1 hd with rfl | hd
  · rcases h with h | rfl
    · simp [isNumberChar, Char.isAlphanum, h]
    · decide
  · exact isNumberChar_of_mem_take hd

theorem isCodeText_number {radix : Bool} {c : Char} (h : c.isDigit ∨ c = '.') (r : Text) :
    IsCodeText (c :: r.take (numberLength radix c r)) := by
  refine isCodeText_of_forall (by simp) fun d hd => ?_
  have hd' := isNumberChar_of_mem_number h hd
  refine ⟨isBlankChar_eq_false (p := isNumberChar) (by decide +kernel) hd', ?_⟩
  rintro rfl
  exact absurd hd' (by decide)

/-- All operators. -/
def operators : List Text :=
  threeCharOperators ++ twoCharOperators ++ oneCharOperators.map ([·])

/-- What is read as an operator is one of them. -/
theorem take_mem_operators {t : Text} {n : ℕ} (h : operatorLength? t = some n) :
    t.take n ∈ operators ∧ (t.take n).length = n := by
  have hlen : (∀ x ∈ threeCharOperators, x.length = 3) ∧
      ∀ x ∈ twoCharOperators, x.length = 2 := by
    decide
  rw [operatorLength?] at h
  split at h
  · next h3 =>
    obtain rfl : 3 = n := by simpa using h
    have hmem := List.contains_iff_mem.1 h3
    exact ⟨by simp [operators, hmem], hlen.1 _ hmem⟩
  · split at h
    · next h2 =>
      obtain rfl : 2 = n := by simpa using h
      have hmem := List.contains_iff_mem.1 h2
      exact ⟨by simp [operators, hmem], hlen.2 _ hmem⟩
    · split at h
      · next h1 =>
        obtain rfl : 1 = n := by simpa using h
        cases t with
        | nil => simp at h1
        | cons c r =>
          have hmem : c ∈ oneCharOperators := by simpa using h1
          exact ⟨by simp [operators, hmem], rfl⟩
      · simp at h

theorem isCodeText_operator {t : Text} {n : ℕ} (h : operatorLength? t = some n) :
    0 < n ∧ n ≤ t.length ∧ IsCodeText (t.take n) := by
  -- the operators are finitely many, so their characters are looked at one by one
  have hall : operators.all (fun x => !x.isEmpty && x.all fun c => !isBlankChar c && c != '#') =
      true := by
    decide +kernel
  obtain ⟨hmem, hlength⟩ := take_mem_operators h
  have hop := List.all_eq_true.1 hall _ hmem
  rw [Bool.and_eq_true, Bool.not_eq_true', List.isEmpty_eq_false_iff] at hop
  have hpos := List.length_pos_iff.2 hop.1
  rw [List.length_take] at hlength hpos
  refine ⟨by omega, by omega, isCodeText_of_forall hop.1 fun c hc => ?_⟩
  simpa using List.all_eq_true.1 hop.2 c hc

/-- What `readOperator` gives is one of the operators. -/
theorem of_readOperator {c : Char} {r : Text} {k : Piece} {n : ℕ}
    (h : readOperator c r = .ok (k, n)) : k = .op ∧ operatorLength? (c :: r) = some (n + 1) := by
  rw [readOperator] at h
  split at h
  · next m hm =>
    obtain ⟨rfl, rfl⟩ : .op = k ∧ m - 1 = n := by simpa using h
    rw [Nat.sub_add_cancel (isCodeText_operator hm).1]
    exact ⟨rfl, hm⟩
  · simp at h

/-! ## Reading -/

theorem isCodeText_string {q c : Char} (hq : q = '"' ∨ q = '\'')
    (hc : c = q ∨ isNameStart c = true) {n : ℕ} {r : Text} (h : EndsIn q n r) :
    IsCodeText (c :: r.take n) where
  head := by
    refine ⟨c, rfl, ?_⟩
    rcases hc with rfl | hc
    · rcases hq with rfl | rfl <;> decide
    · have := isNameContinue_of_isNameStart hc
      exact ⟨isBlankChar_of_isNameContinue this, ne_numberSign_of_isNameContinue this⟩
  last := by
    refine ⟨q, ?_, by rcases hq with rfl | rfl <;> decide⟩
    rw [List.getLast?_cons, h.getLast?_take]
    rfl

/-- What `readName` gives is code. -/
theorem fits_of_readName {c : Char} {r : Text} (hc : isNameStart c = true) {k : Piece} {n : ℕ}
    (h : readName c r = .ok (k, n)) : n ≤ r.length ∧ k.Fits (c :: r.take n) (r.drop n) := by
  have hname : nameLength r ≤ r.length ∧
      Fits .name (c :: r.take (nameLength r)) (r.drop (nameLength r)) :=
    ⟨(List.takeWhile_prefix _).length_le, .code (by simp) (isCodeText_name hc r)⟩
  simp only [readName] at h
  split at h
  · next q s hq =>
    split at h
    · next hquote =>
      obtain ⟨rfl, hends⟩ := endsIn_of_readString h
      exact ⟨hends.le_length, .code (by simp) (isCodeText_string hquote.1 (Or.inr hc) hends)⟩
    · obtain ⟨rfl, rfl⟩ : .name = k ∧ nameLength r = n := by simpa using h
      exact hname
  · obtain ⟨rfl, rfl⟩ : .name = k ∧ nameLength r = n := by simpa using h
    exact hname

/-- **A piece that is read fits** in front of what remains. -/
theorem fits_of_read {c : Char} {r : Text} {k : Piece} {n : ℕ} (h : read c r = .ok (k, n)) :
    n ≤ r.length ∧ k.Fits (c :: r.take n) (r.drop n) := by
  rw [read] at h
  split_ifs at h with hspace hlf hsign hslash hquote hdigit hname
  · obtain ⟨rfl, rfl⟩ : .space = k ∧ 0 = n := by simpa using h
    exact ⟨Nat.zero_le _, .space hspace⟩
  · obtain ⟨rfl, rfl⟩ : .lineBreak = k ∧ 0 = n := by simpa using h
    exact ⟨Nat.zero_le _, hlf ▸ .lineBreak⟩
  · obtain ⟨rfl, rfl⟩ : .comment = k ∧ (r.takeWhile (· ≠ '\n')).length = n := by simpa using h
    refine ⟨(List.takeWhile_prefix _).length_le, ?_⟩
    have hdrop := @List.drop_left _ (r.takeWhile (· ≠ '\n')) (r.dropWhile (· ≠ '\n'))
    rw [List.takeWhile_append_dropWhile] at hdrop
    rw [hsign, hdrop, ← List.prefix_iff_eq_take.1 (List.takeWhile_prefix _)]
    refine .comment (fun hmem => by simpa using List.mem_takeWhile_imp hmem) fun d hd => ?_
    have hhead := List.head?_dropWhile_not (· ≠ '\n') r
    rw [Option.mem_def.1 hd] at hhead
    simpa using hhead
  · unfold readContinuation at h
    split at h
    · obtain ⟨rfl, rfl⟩ : .continuation = k ∧ 1 = n := by simpa using h
      exact ⟨by simp, .continuation (by simp [hslash])⟩
    · obtain ⟨rfl, rfl⟩ : .continuation = k ∧ 2 = n := by simpa using h
      exact ⟨by simp, .continuation (by simp [hslash])⟩
    · simp at h
  · obtain ⟨rfl, hends⟩ := endsIn_of_readString h
    exact ⟨hends.le_length, .code (by simp) (isCodeText_string hquote (Or.inl rfl) hends)⟩
  · obtain ⟨rfl, rfl⟩ : .number = k ∧ numberLength (isRadixNumber (c :: r)) c r = n := by
      simpa using h
    exact ⟨numberLength_le .., .code (by simp) (isCodeText_number (hdigit.imp_right And.left) r)⟩
  · exact fits_of_readName hname h
  · obtain ⟨rfl, hm⟩ := of_readOperator h
    obtain ⟨-, hle, hcode⟩ := isCodeText_operator hm
    exact ⟨by simpa using hle, .code (by simp) hcode⟩

end Piece

end Marginalia
