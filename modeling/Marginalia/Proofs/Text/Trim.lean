import Mathlib.Data.List.Basic
import Marginalia.Text.Blank
import Marginalia.Text.Letter
import Marginalia.Token.Piece

/-!
# Trimming, and blank characters

`Text.trimEnd p t` is the front of `t` that ends in its last character without the property `p`
(`trimEnd_isPrefix`, `getLast?_trimEnd`, `lt_length_trimEnd`).

The blank characters are twenty-six (`toNat_mem_blankCodes`), so a class of characters is shown to
have no blank one in it by looking at these (`isBlankChar_eq_false`).
-/

namespace Marginalia

namespace Text

variable {p : Char → Bool}

theorem take_takeWhile (p : Char → Bool) (t : Text) :
    t.take (t.takeWhile p).length = t.takeWhile p :=
  (List.prefix_iff_eq_take.1 (List.takeWhile_prefix p)).symm

theorem drop_takeWhile (p : Char → Bool) (t : Text) :
    t.drop (t.takeWhile p).length = t.dropWhile p := by
  have h := List.take_append_drop (t.takeWhile p).length t
  rw [take_takeWhile] at h
  exact List.append_cancel_left (h.trans List.takeWhile_append_dropWhile.symm)

theorem trimEnd_cons (p : Char → Bool) (c : Char) (r : Text) :
    trimEnd p (c :: r) = if trimEnd p r = [] ∧ p c then [] else c :: trimEnd p r := by
  rw [trimEnd]
  cases h : trimEnd p r with
  | nil => by_cases hc : p c <;> simp [hc]
  | cons d s => simp

theorem trimEnd_append_of_forall {x : Text} (hx : ∀ c ∈ x, p c = true) (t : Text) :
    trimEnd p (t ++ x) = trimEnd p t := by
  induction t with
  | nil =>
    induction x with
    | nil => rfl
    | cons c x ih =>
      obtain ⟨hc, hx⟩ := List.forall_mem_cons.1 hx
      rw [List.nil_append, trimEnd_cons]
      exact if_pos ⟨ih hx, hc⟩
  | cons c t ih => rw [List.cons_append, trimEnd_cons, trimEnd_cons, ih]

theorem trimEnd_isPrefix (p : Char → Bool) (t : Text) : trimEnd p t <+: t := by
  induction t with
  | nil => exact List.prefix_refl _
  | cons c r ih =>
    rw [trimEnd_cons]
    split
    · exact List.nil_prefix
    · exact List.cons_prefix_cons.2 ⟨rfl, ih⟩

/-- A character without the property stays, with all that stands in front of it. -/
theorem lt_length_trimEnd {t : Text} {i : ℕ} {c : Char} (h : t[i]? = some c) (hc : p c = false) :
    i < (trimEnd p t).length := by
  induction t generalizing i with
  | nil => simp at h
  | cons d r ih =>
    rw [trimEnd_cons]
    cases i with
    | zero =>
      obtain rfl : d = c := by simpa using h
      simp [hc]
    | succ i =>
      have hlt := ih (by simpa using h)
      rw [if_neg (by rintro ⟨hnil, -⟩; simp [hnil] at hlt)]
      simpa using hlt

/-- What stays does not end in a character with the property. -/
theorem getLast?_trimEnd {t : Text} {c : Char} (h : (trimEnd p t).getLast? = some c) :
    p c = false := by
  induction t with
  | nil => simp [trimEnd] at h
  | cons d r ih =>
    rw [trimEnd_cons] at h
    split at h
    · simp at h
    · next hd =>
      cases hr : trimEnd p r with
      | nil =>
        obtain rfl : d = c := by simpa [hr] using h
        simpa [hr] using hd
      | cons e s =>
        refine ih ?_
        rw [hr] at h ⊢
        rwa [List.getLast?_cons_cons] at h

theorem trimEnd_of_getLast? {t : Text} {c : Char} (h : t.getLast? = some c) (hc : p c = false) :
    trimEnd p t = t := by
  obtain ⟨x, rfl⟩ := List.getLast?_eq_some_iff.1 h
  have hlt := lt_length_trimEnd (t := x ++ [c]) (i := x.length) (by simp) hc
  refine (trimEnd_isPrefix p _).eq_of_length_le ?_
  rw [List.length_append]
  exact hlt

/-- What is trimmed has the property throughout. -/
theorem exists_trimEnd_append (p : Char → Bool) (t : Text) :
    ∃ y, t = trimEnd p t ++ y ∧ ∀ c ∈ y, p c = true := by
  obtain ⟨y, hy⟩ := trimEnd_isPrefix p t
  refine ⟨y, hy.symm, fun c hc => ?_⟩
  obtain ⟨i, hi, rfl⟩ := List.getElem_of_mem hc
  by_contra hp
  have hget : (trimEnd p t ++ y)[(trimEnd p t).length + i]? = some y[i] := by
    rw [List.getElem?_append_right (Nat.le_add_right ..), Nat.add_sub_cancel_left,
      List.getElem?_eq_getElem hi]
  rw [hy] at hget
  have hlt := lt_length_trimEnd hget (by simpa using hp)
  omega

/-- After characters with the property, trimming finds the first one without it. -/
theorem head?_trim {x t : Text} {c : Char} (hx : ∀ d ∈ x, p d = true) (hc : p c = false) :
    (trim p (x ++ c :: t)).head? = some c := by
  have hdrop : (x ++ c :: t).dropWhile p = c :: t := by
    rw [List.dropWhile_append_of_pos hx, List.dropWhile_cons_of_neg (by simp [hc])]
  rw [trim, hdrop, trimEnd_cons, if_neg (by simp [hc])]
  rfl

end Text

/-! ## Blank characters -/

/-- The code points of the blank characters. -/
def blankCodes : List ℕ :=
  [0x9, 0xa, 0xb, 0xc, 0xd, 0x20, 0x85, 0xa0, 0x1680, 0x2000, 0x2001, 0x2002, 0x2003, 0x2004,
   0x2005, 0x2006, 0x2007, 0x2008, 0x2009, 0x200a, 0x2028, 0x2029, 0x202f, 0x205f, 0x3000, 0xfeff]

theorem CodeSet.memberFrom_cons_cons {n b b' : ℕ} {bs : List ℕ}
    (h : memberFrom false n (b :: b' :: bs) = true) :
    b ≤ n ∧ n < b' ∨ memberFrom false n bs = true := by
  rw [memberFrom, memberFrom] at h
  split at h
  · simp at h
  · split at h
    · omega
    · exact Or.inr h

theorem toNat_mem_blankCodes {c : Char} (h : isBlankChar c = true) : c.toNat ∈ blankCodes := by
  rw [isBlankChar, Bool.or_eq_true] at h
  rcases h with h | h
  · simp only [blankCodes, List.mem_cons]
    simp only [isSpace, CodeSet.contains, CodeSet.whiteSpace] at h
    -- the ten ranges of white space, one after the other
    iterate 10
      rcases CodeSet.memberFrom_cons_cons h with h | h
      · omega
    simp [CodeSet.memberFrom] at h
  · obtain rfl := eq_of_beq h
    decide

/-- A character that can be seen is none of the blank ones. -/
theorem ne_of_isBlankChar {c d : Char} (hc : isBlankChar c = false) (hd : isBlankChar d = true) :
    c ≠ d := by
  rintro rfl
  rw [hc] at hd
  exact Bool.noConfusion hd

theorem isSpace_of_isInlineSpace {c : Char} (h : isInlineSpace c = true) : isSpace c = true := by
  simp only [isInlineSpace, Bool.or_eq_true, beq_iff_eq] at h
  rcases h with ((rfl | rfl) | rfl) | rfl <;> decide

/-- A property that none of the blank characters has tells that a character is not blank. -/
theorem isBlankChar_eq_false {p : Char → Bool} (h : ∀ n ∈ blankCodes, p (Char.ofNat n) = false)
    {c : Char} (hc : p c = true) : isBlankChar c = false := by
  rw [← Bool.not_eq_true]
  intro hb
  have := h _ (toNat_mem_blankCodes hb)
  rw [Char.ofNat_toNat, hc] at this
  exact Bool.noConfusion this

end Marginalia
