import Mathlib
import Wordstack.Proofs.Arithmetic

/-!
# Division toward zero

A division *toward zero* cuts an integer into whole multiples of the divisor, and a remainder that
is smaller than the divisor and lies on the same side of zero as the dividend
(`Cell.DividesTowardZero`). The remainders of two such divisions would differ by less than the
divisor, and by a multiple of it, so there is only one (`Cell.DividesTowardZero.unique`).

The quotient and the remainder of cells are this division, for integers without bound and whatever
their signs (`Cell.quotient_remainder_exact`).
-/

namespace Wordstack.Cell

variable {y x q r q' r' : Int}

/-- The integers are a quotient and a remainder of a division that truncates toward zero. -/
structure DividesTowardZero (y x q r : Int) : Prop where
  /-- The multiples of the divisor and the remainder make up the dividend. -/
  sum : y = x * q + r
  /-- The remainder has a smaller magnitude than the divisor. -/
  small : |r| < |x|
  /-- A remainder that is not zero has the sign of the dividend. -/
  side : r = 0 ∨ r.sign = y.sign

namespace DividesTowardZero

theorem nonneg (h : DividesTowardZero y x q r) (hy : 0 ≤ y) : 0 ≤ r := by
  rcases h.side with rfl | hs
  · exact le_rfl
  · exact Int.sign_nonneg_iff.1 (hs ▸ Int.sign_nonneg_iff.2 hy)

theorem nonpos (h : DividesTowardZero y x q r) (hy : y ≤ 0) : r ≤ 0 := by
  rcases h.side with rfl | hs
  · exact le_rfl
  · exact Int.sign_nonpos_iff.1 (hs ▸ Int.sign_nonpos_iff.2 hy)

/-- Remainders on one side of zero differ by less than the divisor. -/
theorem abs_sub_lt (h : DividesTowardZero y x q r) (h' : DividesTowardZero y x q' r') :
    |r - r'| < |x| := by
  obtain ⟨h₁, h₂⟩ := abs_lt.1 h.small
  obtain ⟨h₁', h₂'⟩ := abs_lt.1 h'.small
  rw [abs_lt]
  rcases le_total 0 y with hy | hy
  · have := h.nonneg hy
    have := h'.nonneg hy
    omega
  · have := h.nonpos hy
    have := h'.nonpos hy
    omega

/-- There are no two ways to divide. -/
theorem unique (hx : x ≠ 0) (h : DividesTowardZero y x q r) (h' : DividesTowardZero y x q' r') :
    q = q' ∧ r = r' := by
  have hsum : x * q + r = x * q' + r' := h.sum.symm.trans h'.sum
  have hdvd : x ∣ r - r' := ⟨q' - q, by rw [mul_sub]; omega⟩
  have hr : r = r' :=
    Int.sub_eq_zero.1 (Int.eq_zero_of_abs_lt_dvd ((abs_dvd x _).2 hdvd) (h.abs_sub_lt h'))
  rw [hr, Int.add_left_inj] at hsum
  exact ⟨Int.eq_of_mul_eq_mul_left hx hsum, hr⟩

end DividesTowardZero

/-- What the quotient leaves is smaller than the divisor, and on the side of the dividend. -/
theorem dividesTowardZero_quotient (hx : x ≠ 0) :
    DividesTowardZero y x (quotient y x) (remainder y x) := by
  rw [quotient_eq_tdiv, remainder_eq_tmod]
  refine ⟨(Int.mul_tdiv_add_tmod y x).symm, ?_, ?_⟩
  · rw [Int.abs_eq_natAbs, Int.abs_eq_natAbs, Int.natAbs_tmod, Int.ofNat_lt]
    exact Nat.mod_lt _ (Int.natAbs_pos.2 hx)
  · have hs := Int.sign_tmod y x
    split at hs
    · exact .inl (Int.sign_eq_zero_iff_zero.1 hs)
    · exact .inr hs

/-- The multiples of the divisor do not go beyond the dividend. -/
theorem abs_mul_quotient_le (y x : Int) : |x * quotient y x| ≤ |y| := by
  rw [quotient_eq_tdiv, Int.abs_eq_natAbs, Int.abs_eq_natAbs, Int.natAbs_mul, Int.natAbs_tdiv,
    Int.ofNat_le]
  exact Nat.mul_div_le y.natAbs x.natAbs

/-- By an integer that is not zero, the quotient and the remainder divide toward zero, the quotient
    falls short of the dividend, and no other integers divide toward zero. -/
theorem quotient_remainder_exact (y : Int) {x : Int} (hx : x ≠ 0) :
    DividesTowardZero y x (quotient y x) (remainder y x) ∧ |x * quotient y x| ≤ |y| ∧
      ∀ q r, DividesTowardZero y x q r → q = quotient y x ∧ r = remainder y x :=
  ⟨dividesTowardZero_quotient hx, abs_mul_quotient_le y x,
    fun _ _ h => h.unique hx (dividesTowardZero_quotient hx)⟩

/-- A negative dividend with a positive divisor, and zero with a negative one. -/
theorem quotient_remainder_exact_negative :
    (2 : Int) ≠ 0 ∧ DividesTowardZero (-7) 2 (-3) (-1) ∧ |2 * (-3 : Int)| ≤ |-7| ∧
      (-3 : Int) ≠ 0 ∧ DividesTowardZero 0 (-3) 0 0 := by
  have hx : (2 : Int) ≠ 0 := by decide
  have hx' : (-3 : Int) ≠ 0 := by decide
  obtain ⟨h, hle, -⟩ := quotient_remainder_exact (-7) hx
  exact ⟨hx, h, hle, hx', (quotient_remainder_exact 0 hx').1⟩

end Wordstack.Cell
