import Mathlib.Algebra.Group.Nat.Defs
import Mathlib.Data.List.Basic
import Marginalia.Text.Basic

/-!
# Decimal numbers

A number is written with digits only (`isDigit_of_mem_ofNat`) and can be read back
(`ofDigitChars_ofNat`), also from a column that is filled up with spaces
(`takeWhile_padRight_ofNat`). The column keeps its width exactly if the number has no more digits
than it has places (`length_padRight_ofNat_iff`).
-/

namespace Marginalia

namespace Text

theorem ofNat_ne_nil (n : ℕ) : ofNat n ≠ [] :=
  Nat.toDigits_ne_nil

theorem isDigit_of_mem_ofNat {n : ℕ} {c : Char} (h : c ∈ ofNat n) : c.isDigit = true :=
  Nat.isDigit_of_mem_toDigits (by decide) (by decide) h

theorem notMem_ofNat {c : Char} (hc : c.isDigit = false) (n : ℕ) : c ∉ ofNat n := by
  intro h
  rw [isDigit_of_mem_ofNat h] at hc
  exact Bool.noConfusion hc

theorem ofDigitChars_ofNat (n : ℕ) : Nat.ofDigitChars 10 (ofNat n) 0 = n :=
  Nat.ofDigitChars_ten_toDigits

theorem ofNat_injective {m n : ℕ} (h : ofNat m = ofNat n) : m = n := by
  calc
    m = Nat.ofDigitChars 10 (ofNat m) 0 := (ofDigitChars_ofNat m).symm
    _ = Nat.ofDigitChars 10 (ofNat n) 0 := by rw [h]
    _ = n := ofDigitChars_ofNat n

/-! ## Columns -/

theorem length_padRight (width : ℕ) (t : Text) :
    (padRight width t).length = max width t.length := by
  rw [padRight, List.length_append, List.length_replicate]
  omega

theorem length_padRight_ofNat_iff {width n : ℕ} (hw : 0 < width) :
    (padRight width (ofNat n)).length = width ↔ n < 10 ^ width := by
  have hdigits : (ofNat n).length ≤ width ↔ n < 10 ^ width :=
    Nat.length_toDigits_le_iff (by decide) hw
  rw [length_padRight, ← hdigits]
  omega

theorem notMem_padRight {c : Char} (hc : c ≠ ' ') {t : Text} (ht : c ∉ t) (width : ℕ) :
    c ∉ padRight width t := by
  simp [padRight, ht, hc]

/-- The digits of a number end where the column is filled up. -/
theorem takeWhile_padRight_ofNat (width n : ℕ) :
    (padRight width (ofNat n)).takeWhile Char.isDigit = ofNat n := by
  rw [padRight, List.takeWhile_append_of_pos fun c hc => isDigit_of_mem_ofNat hc,
    List.takeWhile_replicate]
  simp

end Text

end Marginalia
