import Mathlib.Algebra.Order.Ring.Int

/-!
# Signed differences of unsigned readings

An `Int64` read as a `UInt64` is itself where it is not negative, and wraps where it is.

* `toNat_toUInt64` — the two cases;
* `toInt_sub_cases` — the signed difference of two unsigned words, which is theirs up to `2 ^ 64`;
* `quotient_of_nonneg`, `quotient_of_small`, `quotient_of_wrap` — a quotient by a positive divisor, read
  as an unsigned word.
-/

namespace SignedWord

/-- A signed word read as an unsigned one. -/
theorem toNat_toUInt64 (x : Int64) :
    (x.toUInt64.toNat : ℤ) = if 0 ≤ x.toInt then x.toInt else x.toInt + 2 ^ 64 := by
  have hcond : x.toInt = if 2 * x.toUInt64.toNat < 2 ^ 64 then (x.toUInt64.toNat : ℤ)
      else (x.toUInt64.toNat : ℤ) - (2 ^ 64 : ℕ) :=
    BitVec.toInt_eq_toNat_cond x.toBitVec
  have hlt : x.toUInt64.toNat < 2 ^ 64 := x.toUInt64.toNat_lt
  split at hcond
  · rw [if_pos (by omega)]
    exact hcond.symm
  · rw [if_neg (by omega)]
    omega

/-- The signed difference of two readings: theirs, or off by one round of the clock. -/
theorem toInt_sub_cases (m n : UInt64) :
    let d := (m.toInt64 - n.toInt64).toInt
    d = (m.toNat : ℤ) - n.toNat ∨ d = (m.toNat : ℤ) - n.toNat + 2 ^ 64
      ∨ d = (m.toNat : ℤ) - n.toNat - 2 ^ 64 := by
  intro d
  have hm : (m.toNat : ℤ) = _ := toNat_toUInt64 m.toInt64
  have hn : (n.toNat : ℤ) = _ := toNat_toUInt64 n.toInt64
  have hd : d = (m.toInt64.toInt - n.toInt64.toInt).bmod (2 ^ 64) := Int64.toInt_sub _ _
  have hm1 := Int64.toInt_lt m.toInt64
  have hm2 := Int64.le_toInt m.toInt64
  have hn1 := Int64.toInt_lt n.toInt64
  have hn2 := Int64.le_toInt n.toInt64
  rw [Int.bmod_def] at hd
  split at hm <;> split at hn <;> split at hd <;> omega

variable {x k : Int64} (hk : 0 < k.toInt)

include hk

/-- The quotient truncates towards zero and does not overflow. -/
theorem toInt_div_of_pos : (x / k).toInt = x.toInt.tdiv k.toInt := by
  apply Int64.toInt_div_of_ne_right
  rintro rfl
  exact absurd hk (by decide)

theorem quotient_of_nonneg (hx : 0 ≤ x.toInt) :
    ((x / k).toUInt64.toNat : ℤ) = x.toInt / k.toInt := by
  rw [toNat_toUInt64, toInt_div_of_pos hk, Int.tdiv_eq_ediv_of_nonneg hx]
  exact if_pos (Int.ediv_nonneg hx (le_of_lt hk))

/-- Less than one divisor below zero. -/
theorem quotient_of_small (hx : x.toInt < 0) (hsmall : -k.toInt < x.toInt) :
    (x / k).toUInt64.toNat = 0 := by
  have hquotient : (x / k).toInt = 0 := by
    rw [toInt_div_of_pos hk, ← Int.neg_neg x.toInt, Int.neg_tdiv,
      Int.tdiv_eq_ediv_of_nonneg (by omega), Int.ediv_eq_zero_of_lt (by omega) (by omega)]
    rfl
  have hcases := toNat_toUInt64 (x / k)
  rw [hquotient] at hcases
  exact Int.ofNat_eq_zero.mp hcases

/-- One divisor or more below zero: the quotient wraps. -/
theorem quotient_of_wrap (hx : x.toInt ≤ -k.toInt) :
    2 ^ 64 - 2 ^ 63 / k.toInt ≤ ((x / k).toUInt64.toNat : ℤ) := by
  have hlow := Int64.le_toInt x
  have hquotient : (x / k).toInt = -(-x.toInt / k.toInt) := by
    rw [toInt_div_of_pos hk, ← Int.neg_neg x.toInt, Int.neg_tdiv,
      Int.tdiv_eq_ediv_of_nonneg (by omega), Int.neg_neg]
  have hone : 1 ≤ -x.toInt / k.toInt := (Int.le_ediv_iff_mul_le hk).mpr (by omega)
  have hbound : -x.toInt / k.toInt ≤ 2 ^ 63 / k.toInt := Int.ediv_le_ediv hk (by omega)
  rw [toNat_toUInt64, hquotient, if_neg (by omega)]
  omega

end SignedWord
