import Marginalia.Proofs.Token.Tiling

/-!
# What a token of code is made of

A name, a number, an operator and a string literal have the characters of their kind
(`Piece.Spells`, `exists_spells_of_tokenize`). Those of a string literal are letters of a prefix, an
opening quote, and the rest that was measured behind it (`isLiteralText_of_tokenize`).
-/

namespace Marginalia

theorem three_le_longBody? {q : Char} {t : Text} {n : ℕ} (h : longBody? q t = some n) : 3 ≤ n := by
  fun_induction longBody? q t generalizing n with
  | case1 => simp at h
  | case2 => simp at h
  | case3 r ih =>
    obtain ⟨m, -, rfl⟩ := Option.map_eq_some_iff.1 h
    exact Nat.le_add_left ..
  | case4 c r _ ih =>
    obtain ⟨m, hm, rfl⟩ := Option.map_eq_some_iff.1 h
    exact Nat.le_add_right_of_le (ih hm)
  | case5 => exact (Option.some.inj h).le
  | case6 c r _ _ _ _ ih =>
    obtain ⟨m, hm, rfl⟩ := Option.map_eq_some_iff.1 h
    exact Nat.le_add_right_of_le (ih hm)

/-- The text is a literal: the letters of a prefix, and a quote with the rest that belongs to it. -/
def IsLiteralText (x : Text) : Prop :=
  ∃ pre q s n, x = pre ++ q :: s.take n ∧ (q = '"' ∨ q = '\'') ∧
    (pre = [] ∨ Text.toLower pre ∈ stringPrefixes) ∧ stringLength? q s = some n

namespace Piece

theorem of_readString {q : Char} {skip n : ℕ} {r : Text} {k : Piece}
    (h : readString q skip r = .ok (k, n)) :
    ∃ m, n = skip + m ∧ stringLength? q (r.drop skip) = some m := by
  rw [readString] at h
  split at h
  · next m hm =>
    obtain ⟨-, rfl⟩ : .string = k ∧ skip + m = n := by simpa using h
    exact ⟨m, rfl, hm⟩
  · simp at h

/-- The characters that a piece of code may have. -/
def Spells : Piece → Text → Prop
  | .string, x => IsLiteralText x
  | .name, x => ∀ c ∈ x, isNameContinue c = true
  | .number, x => ∀ c ∈ x, isNumberChar c = true
  | .op, x => x ∈ operators
  | .space, _ | .continuation, _ | .lineBreak, _ | .comment, _ => True

theorem spells_of_readName {c : Char} (hc : isNameStart c = true) {r : Text} {k : Piece} {n : ℕ}
    (h : readName c r = .ok (k, n)) : k.Spells (c :: r.take n) := by
  have hname : Spells .name (c :: r.take (nameLength r)) := fun _ hd =>
    isNameContinue_of_mem_name hc hd
  simp only [readName] at h
  split at h
  · next q s hq =>
    split at h
    · next hquote =>
      obtain ⟨rfl, -⟩ := endsIn_of_readString h
      obtain ⟨m, rfl, hm⟩ := of_readString h
      have hdrop : r.drop (nameLength r + 1) = s := by
        rw [← List.drop_drop, hq]
        rfl
      refine ⟨c :: r.take (nameLength r), q, s, m, ?_, hquote.1,
        .inr (List.contains_iff_mem.1 hquote.2), hdrop ▸ hm⟩
      rw [Nat.add_assoc, List.take_add, hq, Nat.add_comm 1, List.take_succ_cons]
      rfl
    · obtain ⟨rfl, rfl⟩ : .name = k ∧ nameLength r = n := by simpa using h
      exact hname
  · obtain ⟨rfl, rfl⟩ : .name = k ∧ nameLength r = n := by simpa using h
    exact hname

/-- **What is read has the characters of its kind.** -/
theorem spells_of_read {c : Char} {r : Text} {k : Piece} {n : ℕ} (h : read c r = .ok (k, n)) :
    k.Spells (c :: r.take n) := by
  rw [read] at h
  split_ifs at h with hspace hlf hsign hslash hquote hdigit hname
  · obtain ⟨rfl, -⟩ : .space = k ∧ _ := by simpa using h
    trivial
  · obtain ⟨rfl, -⟩ : .lineBreak = k ∧ _ := by simpa using h
    trivial
  · obtain ⟨rfl, -⟩ : .comment = k ∧ _ := by simpa using h
    trivial
  · unfold readContinuation at h
    split at h
    · obtain ⟨rfl, -⟩ : .continuation = k ∧ _ := by simpa using h
      trivial
    · obtain ⟨rfl, -⟩ : .continuation = k ∧ _ := by simpa using h
      trivial
    · simp at h
  · obtain ⟨rfl, -⟩ := endsIn_of_readString h
    obtain ⟨m, rfl, hm⟩ := of_readString h
    rw [Nat.zero_add]
    exact ⟨[], c, r, m, rfl, hquote, .inl rfl, hm⟩
  · obtain ⟨rfl, rfl⟩ : .number = k ∧ numberLength (isRadixNumber (c :: r)) c r = n := by
      simpa using h
    exact fun _ hd => isNumberChar_of_mem_number (hdigit.imp_right And.left) hd
  · exact spells_of_readName hname h
  · obtain ⟨rfl, hm⟩ := of_readOperator h
    exact (take_mem_operators hm).1

end Piece

/-! ## Tokens of code -/

/-- The kind of token that a piece of code becomes. -/
def Piece.codeKind? : Piece → Option TokenKind
  | .string => some .string
  | .name => some .name
  | .number => some .number
  | .op => some .op
  | .space | .continuation | .lineBreak | .comment => none

theorem of_place_of_isCode {l l' : Layout} {p : Position} {x : Text} {k : Piece} {u : Token}
    (h : place l p x k = .ok (some u, l')) (hu : u.kind.isCode = true) :
    k.codeKind? = some u.kind ∧ u.text = x := by
  cases k with
  | string | name | number =>
    obtain ⟨rfl, -⟩ : Token.at _ x p = u ∧ _ := by simpa [place] using h
    exact ⟨rfl, rfl⟩
  | op =>
    simp only [place] at h
    split at h
    · obtain ⟨rfl, -⟩ : Token.at .op x p = u ∧ _ := by simpa using h
      exact ⟨rfl, rfl⟩
    · simp at h
  | lineBreak =>
    obtain ⟨rfl, -⟩ : _ = u ∧ _ := by simpa [place] using h
    simp only at hu
    split at hu <;> simp [TokenKind.isCode] at hu
  | comment =>
    obtain ⟨rfl, -⟩ : Token.at .comment _ p = u ∧ _ := by simpa [place] using h
    simp [Token.at, TokenKind.isCode] at hu
  | space | continuation => simp [place] at h

/-- **A token of code has the characters of its kind.** -/
theorem exists_spells_of_scan {l : Layout} {p : Position} {t : Text} {ts : List Token}
    (h : scan l p t = .ok ts) {u : Token} (hu : u ∈ ts) (hc : u.kind.isCode = true) :
    ∃ k : Piece, k.codeKind? = some u.kind ∧ k.Spells u.text := by
  rcases exists_place_of_scan h hu with hlayout | ⟨c, r, k, n, l₁, l₂, q, hread, hplace⟩
  · cases hk : u.kind <;> simp [hk, TokenKind.isLayout, TokenKind.isCode] at hlayout hc
  · obtain ⟨hkind, htext⟩ := of_place_of_isCode hplace hc
    exact ⟨k, hkind, htext ▸ Piece.spells_of_read hread⟩

theorem exists_spells_of_tokenize {source : Text} {ts : List Token} (h : tokenize source = .ok ts)
    {u : Token} (hu : u ∈ ts) (hc : u.kind.isCode = true) :
    ∃ k : Piece, k.codeKind? = some u.kind ∧ k.Spells u.text :=
  exists_spells_of_scan h hu hc

/-- **String tokens are literals.** -/
theorem isLiteralText_of_tokenize {source : Text} {ts : List Token} (h : tokenize source = .ok ts)
    {u : Token} (hu : u ∈ ts) (hk : u.kind = .string) : IsLiteralText u.text := by
  obtain ⟨k, hkind, hspells⟩ := exists_spells_of_tokenize h hu (by rw [hk]; rfl)
  rw [hk] at hkind
  cases k with
  | string => exact hspells
  | name | number | op => simp [Piece.codeKind?] at hkind
  | space | continuation | lineBreak | comment => simp [Piece.codeKind?] at hkind

/-- A character is a letter if it is one in lower case. -/
theorem isAlpha_of_toLower {c : Char} (h : c.toLower.isAlpha = true) : c.isAlpha = true := by
  by_cases hupper : c.val ≥ 'A'.val ∧ c.val ≤ 'Z'.val
  · have hletter : c.isUpper = true := decide_eq_true hupper
    show (c.isUpper || c.isLower) = true
    rw [hletter, Bool.true_or]
  · have hsame : c.toLower = c := dif_neg hupper
    rwa [hsame] at h

theorem isAlpha_of_mem_stringPrefix {pre : Text} (h : Text.toLower pre ∈ stringPrefixes) {c : Char}
    (hc : c ∈ pre) : c.isAlpha = true := by
  have hall : stringPrefixes.all (·.all Char.isAlpha) = true := by decide
  exact isAlpha_of_toLower
    (List.all_eq_true.1 (List.all_eq_true.1 hall _ h) _ (List.mem_map_of_mem hc))

end Marginalia
