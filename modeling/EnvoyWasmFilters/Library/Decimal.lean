import Mathlib.Algebra.Order.Ring.Nat

/-!
# Decimal numerals of a fixed width

* `padded w n` — the numeral of `n` with zeros before it up to the width `w`;
* `length_padded` — its length, as long as the number has no more digits than that;
* `padded_injective` — the number can be read off, whatever the widths;
* `padded_append_inj` — and so can what follows a numeral of known width.
-/

namespace Decimal

/-- The number a decimal numeral stands for. -/
def value (s : List Char) : ℕ := Nat.ofDigitChars 10 s 0

/-- The numeral of `n` with zeros before it up to the width `w`. -/
def padded (w n : ℕ) : List Char :=
  List.replicate (w - (Nat.toDigits 10 n).length) '0' ++ Nat.toDigits 10 n

@[simp] theorem value_toDigits (n : ℕ) : value (Nat.toDigits 10 n) = n :=
  Nat.ofDigitChars_ten_toDigits

@[simp] theorem value_padded (w n : ℕ) : value (padded w n) = n := by
  simp only [value, padded]
  rw [Nat.ofDigitChars_append, Nat.ofDigitChars_replicate_zero, Nat.mul_zero]
  exact value_toDigits n

theorem toDigits_injective {m n : ℕ} (h : Nat.toDigits 10 m = Nat.toDigits 10 n) : m = n := by
  rw [← value_toDigits m, h, value_toDigits]

theorem padded_injective {v w m n : ℕ} (h : padded v m = padded w n) : m = n := by
  rw [← value_padded v m, h, value_padded]

/-- A number below `10 ^ w` fits. -/
theorem length_padded {w n : ℕ} (hw : 0 < w) (hn : n < 10 ^ w) : (padded w n).length = w := by
  have hlength := (Nat.length_toDigits_le_iff (by decide) hw).mpr hn
  rw [padded, List.length_append, List.length_replicate]
  exact Nat.sub_add_cancel hlength

/-- A numeral of known width and what follows it. -/
theorem padded_append_inj {w m n : ℕ} (hw : 0 < w) (hm : m < 10 ^ w) (hn : n < 10 ^ w)
    {s t : List Char} (h : padded w m ++ s = padded w n ++ t) : m = n ∧ s = t := by
  have hlength : (padded w m).length = (padded w n).length := by
    rw [length_padded hw hm, length_padded hw hn]
  obtain ⟨hnumeral, hrest⟩ := List.append_inj h hlength
  exact ⟨padded_injective hnumeral, hrest⟩

end Decimal
