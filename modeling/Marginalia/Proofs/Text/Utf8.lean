import Mathlib.Data.Nat.Notation
import Mathlib.Tactic.SplitIfs
import Marginalia.Text.Utf8

/-!
# Bytes and texts

The bytes that are read as a text are exactly the ones that the text is written as
(`Utf8.decode_eq_ok_iff`), so a text has one spelling in bytes (`Utf8.encode_injective`). In one
direction each case of the reader bounds the first two bytes, and the number that is joined from
them is then cut into the same bytes again; in the other the bytes that are cut from a character
meet these bounds.
-/

namespace Marginalia

namespace Utf8

theorem encode_cons (c : Char) (t : Text) : encode (c :: t) = String.utf8EncodeChar c ++ encode t :=
  List.flatMap_cons

/-- The bytes of a character, by its number. -/
theorem utf8EncodeChar_ofNat {n : ℕ} (h : n.isValidChar) :
    String.utf8EncodeChar (Char.ofNat n) =
      if n ≤ 127 then [UInt8.ofNat n]
      else if n ≤ 2047 then [UInt8.ofNat (n / 64 % 32 + 192), UInt8.ofNat (n % 64 + 128)]
      else if n ≤ 65535 then
        [UInt8.ofNat (n / 4096 % 16 + 224), UInt8.ofNat (n / 64 % 64 + 128),
          UInt8.ofNat (n % 64 + 128)]
      else
        [UInt8.ofNat (n / 262144 % 8 + 240), UInt8.ofNat (n / 4096 % 64 + 128),
          UInt8.ofNat (n / 64 % 64 + 128), UInt8.ofNat (n % 64 + 128)] := by
  have hval : (Char.ofNat n).val.toNat = n := by
    rw [Char.ofNat, dif_pos h]
    rfl
  rw [String.utf8EncodeChar, hval]

theorem isContinuation_iff {b : UInt8} :
    isContinuation b = true ↔ 128 ≤ b.toNat ∧ b.toNat ≤ 191 := by
  simp [isContinuation, UInt8.le_iff_toNat_le]

theorem isSecond_iff {a b : UInt8} : isSecond a b = true ↔
    if a.toNat = 224 then 160 ≤ b.toNat ∧ b.toNat ≤ 191
    else if a.toNat = 237 then 128 ≤ b.toNat ∧ b.toNat ≤ 159
    else if a.toNat = 240 then 144 ≤ b.toNat ∧ b.toNat ≤ 191
    else if a.toNat = 244 then 128 ≤ b.toNat ∧ b.toNat ≤ 143
    else 128 ≤ b.toNat ∧ b.toNat ≤ 191 := by
  simp only [isSecond, isContinuation, ← UInt8.toNat_inj]
  split_ifs <;> simp_all [UInt8.le_iff_toNat_le]

theorem ofNat_eq {n : ℕ} {b : UInt8} (h : n = b.toNat) : UInt8.ofNat n = b := by
  rw [h, UInt8.ofNat_toNat]

theorem encodeChar_two {a b : UInt8} (ha : 0xC2 ≤ a ∧ a ≤ 0xDF) (hb : isContinuation b = true) :
    String.utf8EncodeChar (Char.ofNat (joinBits (a.toNat % 32) [b])) = [a, b] := by
  have ha' : 194 ≤ a.toNat ∧ a.toNat ≤ 223 := ha
  rw [isContinuation_iff] at hb
  rw [show joinBits (a.toNat % 32) [b] = a.toNat % 32 * 64 + b.toNat % 64 from rfl,
    utf8EncodeChar_ofNat (Or.inl (by omega)), if_neg (by omega), if_pos (by omega),
    ofNat_eq (b := a) (by omega), ofNat_eq (b := b) (by omega)]

theorem encodeChar_three {a b c : UInt8} (ha : 0xE0 ≤ a ∧ a ≤ 0xEF) (hb : isSecond a b = true)
    (hc : isContinuation c = true) :
    String.utf8EncodeChar (Char.ofNat (joinBits (a.toNat % 16) [b, c])) = [a, b, c] := by
  have ha' : 224 ≤ a.toNat ∧ a.toNat ≤ 239 := ha
  rw [isContinuation_iff] at hc
  rw [isSecond_iff] at hb
  rw [show joinBits (a.toNat % 16) [b, c] =
    (a.toNat % 16 * 64 + b.toNat % 64) * 64 + c.toNat % 64 from rfl]
  have hvalid : Nat.isValidChar ((a.toNat % 16 * 64 + b.toNat % 64) * 64 + c.toNat % 64) := by
    unfold Nat.isValidChar
    split_ifs at hb <;> omega
  have hlow : 2047 < (a.toNat % 16 * 64 + b.toNat % 64) * 64 + c.toNat % 64 := by
    split_ifs at hb <;> omega
  have hb' : 128 ≤ b.toNat ∧ b.toNat ≤ 191 := by
    split_ifs at hb <;> omega
  rw [utf8EncodeChar_ofNat hvalid, if_neg (by omega), if_neg (by omega), if_pos (by omega),
    ofNat_eq (b := a) (by omega), ofNat_eq (b := b) (by omega), ofNat_eq (b := c) (by omega)]

theorem encodeChar_four {a b c d : UInt8} (ha : 0xF0 ≤ a ∧ a ≤ 0xF4) (hb : isSecond a b = true)
    (hc : isContinuation c = true) (hd : isContinuation d = true) :
    String.utf8EncodeChar (Char.ofNat (joinBits (a.toNat % 8) [b, c, d])) = [a, b, c, d] := by
  have ha' : 240 ≤ a.toNat ∧ a.toNat ≤ 244 := ha
  rw [isContinuation_iff] at hc hd
  rw [isSecond_iff] at hb
  rw [show joinBits (a.toNat % 8) [b, c, d] =
    ((a.toNat % 8 * 64 + b.toNat % 64) * 64 + c.toNat % 64) * 64 + d.toNat % 64 from rfl]
  have hb' : 128 ≤ b.toNat ∧ b.toNat ≤ 191 := by
    split_ifs at hb <;> omega
  have hrange : 65535 < ((a.toNat % 8 * 64 + b.toNat % 64) * 64 + c.toNat % 64) * 64 +
      d.toNat % 64 ∧ ((a.toNat % 8 * 64 + b.toNat % 64) * 64 + c.toNat % 64) * 64 +
      d.toNat % 64 < 0x110000 := by
    split_ifs at hb <;> omega
  rw [utf8EncodeChar_ofNat (Or.inr (by omega)), if_neg (by omega), if_neg (by omega),
    if_neg (by omega), ofNat_eq (b := a) (by omega), ofNat_eq (b := b) (by omega),
    ofNat_eq (b := c) (by omega), ofNat_eq (b := d) (by omega)]

theorem encode_of_map {c : Char} {x : Except Utf8Error Text} {r : Bytes} {t : Text}
    (ih : ∀ {s}, x = .ok s → encode s = r) (h : x.map (c :: ·) = .ok t) :
    encode t = String.utf8EncodeChar c ++ r := by
  cases x with
  | error e => simp [Except.map] at h
  | ok s =>
    obtain rfl : c :: s = t := by simpa [Except.map] using h
    rw [encode_cons, ih rfl]

/-- **Bytes that are read as a text** are what the text is written as. -/
theorem encode_of_decodeFrom {index : ℕ} {bytes : Bytes} {t : Text}
    (h : decodeFrom index bytes = .ok t) : encode t = bytes := by
  fun_induction decodeFrom index bytes generalizing t with
  | case1 =>
    obtain rfl : [] = t := by simpa using h
    rfl
  | case2 i a r ha ih =>
    have ha' : a.toNat < 128 := ha
    rw [encode_of_map ih h, utf8EncodeChar_ofNat (Or.inl (by omega)), if_pos (by omega),
      ofNat_eq rfl]
    rfl
  | case4 i a _ ha b r hb ih => rw [encode_of_map ih h, encodeChar_two ha hb]; rfl
  | case9 i a _ _ ha b c r hb hc ih =>
    rw [Bool.not_eq_true, Bool.not_eq_false'] at hb
    rw [encode_of_map ih h, encodeChar_three ha hb hc]
    rfl
  | case16 i a _ _ _ ha b c d r hb hc hd ih =>
    rw [Bool.not_eq_true, Bool.not_eq_false'] at hb hc
    rw [encode_of_map ih h, encodeChar_four ha hb hc hd]
    rfl
  | _ => simp at h

/-! ## Writing and reading -/

theorem toNat_ofNat_of_lt {n : ℕ} (h : n < 256) : (UInt8.ofNat n).toNat = n := by
  rw [UInt8.toNat_ofNat', Nat.mod_eq_of_lt h]

theorem decodeFrom_one {a : UInt8} (ha : a < 0x80) (index : ℕ) (r : Bytes) :
    decodeFrom index (a :: r) = (decodeFrom (index + 1) r).map (Char.ofNat a.toNat :: ·) := by
  rw [decodeFrom.eq_def]
  simp only [if_pos ha]

theorem decodeFrom_two {a b : UInt8} (ha : 0xC2 ≤ a ∧ a ≤ 0xDF) (hb : isContinuation b = true)
    (index : ℕ) (r : Bytes) : decodeFrom index (a :: b :: r) =
      (decodeFrom (index + 2) r).map (Char.ofNat (joinBits (a.toNat % 32) [b]) :: ·) := by
  have hone : ¬ a < 0x80 := fun h => absurd (UInt8.lt_of_le_of_lt ha.1 h) (by decide)
  rw [decodeFrom.eq_def]
  simp only [if_neg hone, if_pos ha, hb, if_true]

theorem decodeFrom_three {a b c : UInt8} (ha : 0xE0 ≤ a ∧ a ≤ 0xEF) (hb : isSecond a b = true)
    (hc : isContinuation c = true) (index : ℕ) (r : Bytes) :
    decodeFrom index (a :: b :: c :: r) =
      (decodeFrom (index + 3) r).map (Char.ofNat (joinBits (a.toNat % 16) [b, c]) :: ·) := by
  have hone : ¬ a < 0x80 := fun h => absurd (UInt8.lt_of_le_of_lt ha.1 h) (by decide)
  have htwo : ¬ (0xC2 ≤ a ∧ a ≤ 0xDF) := fun h => absurd (UInt8.le_trans ha.1 h.2) (by decide)
  rw [decodeFrom.eq_def]
  simp only [if_neg hone, if_neg htwo, if_pos ha, hb, hc, Bool.not_true, Bool.false_eq_true,
    if_true, if_false]

theorem decodeFrom_four {a b c d : UInt8} (ha : 0xF0 ≤ a ∧ a ≤ 0xF4) (hb : isSecond a b = true)
    (hc : isContinuation c = true) (hd : isContinuation d = true) (index : ℕ) (r : Bytes) :
    decodeFrom index (a :: b :: c :: d :: r) =
      (decodeFrom (index + 4) r).map (Char.ofNat (joinBits (a.toNat % 8) [b, c, d]) :: ·) := by
  have hone : ¬ a < 0x80 := fun h => absurd (UInt8.lt_of_le_of_lt ha.1 h) (by decide)
  have htwo : ¬ (0xC2 ≤ a ∧ a ≤ 0xDF) := fun h => absurd (UInt8.le_trans ha.1 h.2) (by decide)
  have hthree : ¬ (0xE0 ≤ a ∧ a ≤ 0xEF) := fun h => absurd (UInt8.le_trans ha.1 h.2) (by decide)
  rw [decodeFrom.eq_def]
  simp only [if_neg hone, if_neg htwo, if_neg hthree, if_pos ha, hb, hc, hd, Bool.not_true,
    Bool.false_eq_true, if_true, if_false]

/-- The two bytes of a number are joined to the number. -/
theorem decodeFrom_two_ofNat {n : ℕ} (hlow : 127 < n) (hhigh : n ≤ 2047) (index : ℕ) (r : Bytes) :
    decodeFrom index (UInt8.ofNat (n / 64 % 32 + 192) :: UInt8.ofNat (n % 64 + 128) :: r) =
      (decodeFrom (index + 2) r).map (Char.ofNat n :: ·) := by
  have ha : (UInt8.ofNat (n / 64 % 32 + 192)).toNat = n / 64 % 32 + 192 :=
    toNat_ofNat_of_lt (by omega)
  have hb : (UInt8.ofNat (n % 64 + 128)).toNat = n % 64 + 128 := toNat_ofNat_of_lt (by omega)
  generalize UInt8.ofNat (n / 64 % 32 + 192) = a at ha ⊢
  generalize UInt8.ofNat (n % 64 + 128) = b at hb ⊢
  have hfirst : 0xC2 ≤ a ∧ a ≤ 0xDF := by
    simp only [UInt8.le_iff_toNat_le, ha, UInt8.reduceToNat]
    omega
  have hsecond : isContinuation b = true := by
    rw [isContinuation_iff]
    omega
  have hjoin : joinBits (a.toNat % 32) [b] = n := by
    change a.toNat % 32 * 64 + b.toNat % 64 = n
    omega
  rw [decodeFrom_two hfirst hsecond, hjoin]

/-- The three bytes of a number are joined to the number, unless it is one that no character
has. -/
theorem decodeFrom_three_ofNat {n : ℕ} (hlow : 2047 < n) (hhigh : n ≤ 65535)
    (hvalid : n.isValidChar) (index : ℕ) (r : Bytes) :
    decodeFrom index (UInt8.ofNat (n / 4096 % 16 + 224) :: UInt8.ofNat (n / 64 % 64 + 128) ::
      UInt8.ofNat (n % 64 + 128) :: r) = (decodeFrom (index + 3) r).map (Char.ofNat n :: ·) := by
  have ha : (UInt8.ofNat (n / 4096 % 16 + 224)).toNat = n / 4096 % 16 + 224 :=
    toNat_ofNat_of_lt (by omega)
  have hb : (UInt8.ofNat (n / 64 % 64 + 128)).toNat = n / 64 % 64 + 128 :=
    toNat_ofNat_of_lt (by omega)
  have hc : (UInt8.ofNat (n % 64 + 128)).toNat = n % 64 + 128 := toNat_ofNat_of_lt (by omega)
  generalize UInt8.ofNat (n / 4096 % 16 + 224) = a at ha ⊢
  generalize UInt8.ofNat (n / 64 % 64 + 128) = b at hb ⊢
  generalize UInt8.ofNat (n % 64 + 128) = c at hc ⊢
  have hfirst : 0xE0 ≤ a ∧ a ≤ 0xEF := by
    simp only [UInt8.le_iff_toNat_le, ha, UInt8.reduceToNat]
    omega
  have hsecond : isSecond a b = true := by
    unfold Nat.isValidChar at hvalid
    rw [isSecond_iff]
    split_ifs <;> omega
  have hthird : isContinuation c = true := by
    rw [isContinuation_iff]
    omega
  have hjoin : joinBits (a.toNat % 16) [b, c] = n := by
    change (a.toNat % 16 * 64 + b.toNat % 64) * 64 + c.toNat % 64 = n
    omega
  rw [decodeFrom_three hfirst hsecond hthird, hjoin]

/-- The four bytes of a number are joined to the number. -/
theorem decodeFrom_four_ofNat {n : ℕ} (hlow : 65535 < n) (hhigh : n < 0x110000) (index : ℕ)
    (r : Bytes) :
    decodeFrom index (UInt8.ofNat (n / 262144 % 8 + 240) :: UInt8.ofNat (n / 4096 % 64 + 128) ::
      UInt8.ofNat (n / 64 % 64 + 128) :: UInt8.ofNat (n % 64 + 128) :: r) =
        (decodeFrom (index + 4) r).map (Char.ofNat n :: ·) := by
  have ha : (UInt8.ofNat (n / 262144 % 8 + 240)).toNat = n / 262144 % 8 + 240 :=
    toNat_ofNat_of_lt (by omega)
  have hb : (UInt8.ofNat (n / 4096 % 64 + 128)).toNat = n / 4096 % 64 + 128 :=
    toNat_ofNat_of_lt (by omega)
  have hc : (UInt8.ofNat (n / 64 % 64 + 128)).toNat = n / 64 % 64 + 128 :=
    toNat_ofNat_of_lt (by omega)
  have hd : (UInt8.ofNat (n % 64 + 128)).toNat = n % 64 + 128 := toNat_ofNat_of_lt (by omega)
  generalize UInt8.ofNat (n / 262144 % 8 + 240) = a at ha ⊢
  generalize UInt8.ofNat (n / 4096 % 64 + 128) = b at hb ⊢
  generalize UInt8.ofNat (n / 64 % 64 + 128) = c at hc ⊢
  generalize UInt8.ofNat (n % 64 + 128) = d at hd ⊢
  have hfirst : 0xF0 ≤ a ∧ a ≤ 0xF4 := by
    simp only [UInt8.le_iff_toNat_le, ha, UInt8.reduceToNat]
    omega
  have hsecond : isSecond a b = true := by
    rw [isSecond_iff]
    split_ifs <;> omega
  have hthird : isContinuation c = true := by
    rw [isContinuation_iff]
    omega
  have hfourth : isContinuation d = true := by
    rw [isContinuation_iff]
    omega
  have hjoin : joinBits (a.toNat % 8) [b, c, d] = n := by
    change ((a.toNat % 8 * 64 + b.toNat % 64) * 64 + c.toNat % 64) * 64 + d.toNat % 64 = n
    omega
  rw [decodeFrom_four hfirst hsecond hthird hfourth, hjoin]

/-- What a character is written as is read as this character. -/
theorem decodeFrom_encodeChar (index : ℕ) (c : Char) (bytes : Bytes) :
    ∃ index', decodeFrom index (String.utf8EncodeChar c ++ bytes) =
      (decodeFrom index' bytes).map (c :: ·) := by
  have hc : Char.ofNat c.toNat = c := Char.ofNat_toNat c
  have hvalid : c.toNat.isValidChar := c.valid
  have hmax : c.toNat < 0x110000 := by
    unfold Nat.isValidChar at hvalid
    omega
  simp only [String.utf8EncodeChar]
  rw [show c.val.toNat = c.toNat from rfl]
  split_ifs with h1 h2 h3
  · have hlt : UInt8.ofNat c.toNat < 0x80 := by
      rw [UInt8.lt_iff_toNat_lt, toNat_ofNat_of_lt (by omega)]
      exact Nat.lt_succ_of_le h1
    refine ⟨index + 1, ?_⟩
    rw [List.cons_append, List.nil_append, decodeFrom_one hlt, toNat_ofNat_of_lt (by omega), hc]
  · refine ⟨index + 2, ?_⟩
    simp only [List.cons_append, List.nil_append]
    rw [decodeFrom_two_ofNat (by omega) h2, hc]
  · refine ⟨index + 3, ?_⟩
    simp only [List.cons_append, List.nil_append]
    rw [decodeFrom_three_ofNat (by omega) h3 hvalid, hc]
  · refine ⟨index + 4, ?_⟩
    simp only [List.cons_append, List.nil_append]
    rw [decodeFrom_four_ofNat (by omega) hmax, hc]

/-- What a text is written as is read as this text. -/
theorem decodeFrom_encode (index : ℕ) (t : Text) : decodeFrom index (encode t) = .ok t := by
  induction t generalizing index with
  | nil => rw [encode, List.flatMap_nil, decodeFrom]
  | cons c t ih =>
    obtain ⟨index', h⟩ := decodeFrom_encodeChar index c (encode t)
    rw [encode_cons, h, ih]
    rfl

/-- **A text is read from the bytes that it is written as**, and from no others. -/
theorem decode_eq_ok_iff {bytes : Bytes} {t : Text} :
    decode bytes = .ok t ↔ bytes = encode t := by
  constructor
  · intro h
    exact (encode_of_decodeFrom h).symm
  · rintro rfl
    exact decodeFrom_encode 0 t

theorem encode_injective {s t : Text} (h : encode s = encode t) : s = t := by
  have hs : decode (encode t) = .ok s := decode_eq_ok_iff.2 h.symm
  have ht : decode (encode t) = .ok t := decode_eq_ok_iff.2 rfl
  exact Except.ok.inj (hs.symm.trans ht)

end Utf8

end Marginalia
