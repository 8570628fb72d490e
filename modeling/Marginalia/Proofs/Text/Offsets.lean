import Marginalia.Proofs.Text.Utf8

/-!
# Offsets in bytes

A place in a text has an offset in bytes, the size of what stands in front of it. To cut at such an
offset is the same in the bytes of a text (`Utf8.take_size_encode`) and in its characters
(`Utf8.takeBytes?_size`). The byte of a line feed is part of no other character, so the line feeds
of a text can be counted in its bytes (`Utf8.count_lineFeed_encode`).
-/

namespace Marginalia

namespace Utf8

theorem encode_append (s t : Text) : encode (s ++ t) = encode s ++ encode t :=
  List.flatMap_append

theorem length_encode (t : Text) : (encode t).length = size t := by
  induction t with
  | nil => rfl
  | cons c t ih =>
    rw [encode_cons, List.length_append, String.length_utf8EncodeChar, ih]
    rfl

theorem take_size_encode (s t : Text) : (encode (s ++ t)).take (size s) = encode s := by
  rw [encode_append, ← length_encode, List.take_left]

theorem drop_size_encode (s t : Text) : (encode (s ++ t)).drop (size s) = encode t := by
  rw [encode_append, ← length_encode, List.drop_left]

theorem takeBytes?_size (s t : Text) : takeBytes? (size s) (s ++ t) = some s := by
  induction s with
  | nil => rw [size, List.foldr_nil, takeBytes?]
  | cons c s ih =>
    have hpos := c.utf8Size_pos
    have hsize : size (c :: s) = (c.utf8Size - 1 + size s) + 1 := by
      change c.utf8Size + size s = _
      omega
    rw [hsize, List.cons_append, takeBytes?, if_pos (by omega),
      show c.utf8Size - 1 + size s + 1 - c.utf8Size = size s by omega, ih]
    rfl

theorem size_append (s t : Text) : size (s ++ t) = size s + size t := by
  rw [← length_encode, encode_append, List.length_append, length_encode, length_encode]

theorem size_pos {t : Text} (h : t ≠ []) : 0 < size t := by
  obtain ⟨c, t, rfl⟩ := List.exists_cons_of_ne_nil h
  exact Nat.add_pos_left c.utf8Size_pos _

/-- Only between two characters a text is cut. -/
theorem exists_append_of_takeBytes? {n : ℕ} {t s : Text} (h : takeBytes? n t = some s) :
    size s = n ∧ ∃ r, t = s ++ r := by
  fun_induction takeBytes? n t generalizing s with
  | case1 =>
    obtain rfl := Option.some.inj h
    exact ⟨rfl, _, rfl⟩
  | case2 => simp at h
  | case3 n c t hc ih =>
    obtain ⟨s, hs, rfl⟩ := Option.map_eq_some_iff.1 h
    obtain ⟨hsize, r, rfl⟩ := ih hs
    refine ⟨?_, r, rfl⟩
    change c.utf8Size + size s = n + 1
    omega
  | case4 => simp at h

/-- The byte of a line feed is part of no other character. -/
theorem count_lineFeed_encodeChar (c : Char) :
    List.count 0x0A (String.utf8EncodeChar c) = if c = '\n' then 1 else 0 := by
  have hbyte : ∀ {n : ℕ}, n < 256 → n ≠ 10 → 0x0A ≠ UInt8.ofNat n := by
    intro n hn hne heq
    have hnat := congrArg UInt8.toNat heq
    rw [toNat_ofNat_of_lt hn] at hnat
    exact hne hnat.symm
  by_cases hc : c = '\n'
  · subst hc
    decide
  have hne : c.toNat ≠ 10 := fun h => hc (Char.toNat_inj.1 h)
  have hvalid : c.toNat.isValidChar := c.valid
  rw [if_neg hc, List.count_eq_zero, ← Char.ofNat_toNat c, utf8EncodeChar_ofNat hvalid]
  split_ifs with h1 h2 h3
  · simpa using hbyte (by omega) hne
  · simp only [List.mem_cons, List.not_mem_nil, or_false, not_or]
    exact ⟨hbyte (by omega) (by omega), hbyte (by omega) (by omega)⟩
  · simp only [List.mem_cons, List.not_mem_nil, or_false, not_or]
    exact ⟨hbyte (by omega) (by omega), hbyte (by omega) (by omega), hbyte (by omega) (by omega)⟩
  · simp only [List.mem_cons, List.not_mem_nil, or_false, not_or]
    exact ⟨hbyte (by omega) (by omega), hbyte (by omega) (by omega), hbyte (by omega) (by omega),
      hbyte (by omega) (by omega)⟩

theorem count_lineFeed_encode (t : Text) : List.count 0x0A (encode t) = List.count '\n' t := by
  induction t with
  | nil => rfl
  | cons c t ih =>
    rw [encode_cons, List.count_append, count_lineFeed_encodeChar, ih, List.count_cons]
    by_cases hc : c = '\n'
    · simp [hc, Nat.add_comm]
    · simp [hc]

end Utf8

end Marginalia
