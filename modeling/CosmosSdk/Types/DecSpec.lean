import CosmosSdk.Types.Dec
import CosmosSdk.Lib.Rounding
import Mathlib.Algebra.Order.Floor.Semifield
import Mathlib.Data.Rat.Floor

/-!
# What the rounding of `sdk.Dec` computes

A `Dec` stands for the rational `i · 10^-18` (`toRat`).  The three chop routines of
`decimal.go` are the three roundings of `Lib/Rounding` applied to `x / 10^18`:
`chopPrecisionAndRound` to the nearest with ties to even, `chopPrecisionAndTruncate` toward
zero, `chopPrecisionAndRoundUp` up (`chopPrecisionAndRound_spec` and its two siblings).

So `Mul`, `MulTruncate` and `QuoTruncate` round the exact result once, as do `RoundInt`,
`TruncateInt`, `TruncateDec` and `Ceil` (`mul_spec`, ..., `ceil_spec`).  `Quo` and
`QuoRoundUp` round twice: they first truncate the quotient to thirty-six digits, and then
round that (`quo_spec`, `quoRoundUp_spec`).  The first rounding can move a value onto a tie or
onto a multiple of `10^-18`, and then the result is not the exact quotient correctly rounded
(`quo_quoRoundUp_double_rounding`).
-/

namespace CosmosSdk.Dec

open Rounding

/-- The value of a `Dec`. -/
def toRat (d : Dec) : ℚ := d.i / precisionReuse

theorem precisionReuse_natCast : ((10 ^ 18 : ℕ) : ℤ) = precisionReuse := rfl

theorem fivePrecision_eq : fivePrecision = 500000000000000000 := rfl

theorem sign_precisionReuse : Int.sign 1000000000000000000 = 1 := rfl

/-! ### The chop routines -/

section Chop

/-- A nonnegative input is its quotient and remainder by `10^18`: the remainder against half of
`10^18` decides, as in `isRoundHalfEven_add_div`. -/
theorem chopPrecisionAndRoundNonneg_eq (x : ℤ) :
    chopPrecisionAndRoundNonneg x =
      if 2 * (x % precisionReuse) < precisionReuse then x / precisionReuse
      else if precisionReuse < 2 * (x % precisionReuse) then x / precisionReuse + 1
      else if x / precisionReuse % 2 = 0 then x / precisionReuse else x / precisionReuse + 1 := by
  unfold chopPrecisionAndRoundNonneg
  dsimp only
  rw [fivePrecision_eq, precisionReuse_eq]
  split_ifs <;> omega

/-- The nonnegative branch rounds to the nearest, ties to even, whatever the sign: it is
written with the floor division. -/
theorem chopPrecisionAndRoundNonneg_spec (x : ℤ) :
    IsRoundHalfEven ((x : ℚ) / precisionReuse) (chopPrecisionAndRoundNonneg x) := by
  have hP : (0 : ℚ) < precisionReuse := by exact_mod_cast precisionReuse_pos
  have hsplit : (x : ℚ) / precisionReuse =
      ((x / precisionReuse : ℤ) : ℚ) + ((x % precisionReuse : ℤ) : ℚ) / precisionReuse := by
    have hdiv := Int.mul_ediv_add_emod x precisionReuse
    rw [div_eq_iff hP.ne', add_mul, div_mul_cancel₀ _ hP.ne', mul_comm]
    exact_mod_cast hdiv.symm
  rw [hsplit, chopPrecisionAndRoundNonneg_eq]
  exact isRoundHalfEven_add_div precisionReuse_pos (Int.emod_nonneg _ precisionReuse_pos.ne')
    (Int.emod_lt_of_pos _ precisionReuse_pos)

/-- `chopPrecisionAndRound` rounds `x / 10^18` to the nearest integer, ties to even. -/
theorem chopPrecisionAndRound_spec (x : ℤ) :
    IsRoundHalfEven ((x : ℚ) / precisionReuse) (chopPrecisionAndRound x) := by
  unfold chopPrecisionAndRound
  split_ifs with hx
  · -- a negative input is rounded as its negation
    have h := (chopPrecisionAndRoundNonneg_spec (-x)).neg
    rwa [Int.cast_neg, neg_div, neg_neg] at h
  · exact chopPrecisionAndRoundNonneg_spec x

/-- `chopPrecisionAndTruncate` rounds `x / 10^18` toward zero. -/
theorem chopPrecisionAndTruncate_spec (x : ℤ) :
    chopPrecisionAndTruncate x = towardZero ((x : ℚ) / precisionReuse) :=
  (towardZero_intCast_div x precisionReuse_pos).symm

/-- `chopPrecisionAndRoundUp` rounds `x / 10^18` up. -/
theorem chopPrecisionAndRoundUp_spec (x : ℤ) :
    chopPrecisionAndRoundUp x = ⌈(x : ℚ) / precisionReuse⌉ := by
  rw [ceil_intCast_div precisionReuse_pos]
  unfold chopPrecisionAndRoundUp chopPrecisionAndTruncate
  rw [precisionReuse_eq]
  split_ifs with hneg hdvd
  · rw [Int.tdiv_eq_ediv_of_nonneg (by omega)]
  · omega
  · omega

end Chop

/-! ### The operations -/

section Ops

variable (d d2 : Dec)

theorem toRat_mul_precisionReuse : d.toRat * precisionReuse = d.i := by
  have hP : (precisionReuse : ℚ) ≠ 0 := by exact_mod_cast precisionReuse_pos.ne'
  rw [toRat, div_mul_cancel₀ _ hP]

theorem toRat_ofInt (n : ℤ) : (ofInt n).toRat = n := by
  have hP : (precisionReuse : ℚ) ≠ 0 := by exact_mod_cast precisionReuse_pos.ne'
  rw [toRat, ofInt_i, Int.cast_mul, mul_div_cancel_right₀ _ hP]

/-- The exact product, in units of `10^-18`, is the product of the mantissas over `10^18`. -/
theorem toRat_mul_toRat (d d2 : Dec) :
    d.toRat * d2.toRat * precisionReuse = ((d.i * d2.i : ℤ) : ℚ) / precisionReuse := by
  have hP : (precisionReuse : ℚ) ≠ 0 := by exact_mod_cast precisionReuse_pos.ne'
  rw [toRat, toRat, Int.cast_mul]
  field_simp

/-- The exact quotient, in units of `10^-18`, is the quotient of the mantissas carried to
thirty-six digits, over `10^18`. -/
theorem toRat_div_toRat {d d2 : Dec} (hd2 : d2.i ≠ 0) :
    d.toRat / d2.toRat * precisionReuse =
      ((d.i * precisionReuse * precisionReuse : ℤ) : ℚ) / d2.i / precisionReuse := by
  have hP : (precisionReuse : ℚ) ≠ 0 := by exact_mod_cast precisionReuse_pos.ne'
  have hd2' : (d2.i : ℚ) ≠ 0 := by exact_mod_cast hd2
  rw [toRat, toRat]
  push_cast
  field_simp

/-- `Mul` is the exact product rounded to the nearest, ties to even. -/
theorem mul_spec : IsRoundHalfEven (d.toRat * d2.toRat * precisionReuse) (d.mul d2).i := by
  rw [toRat_mul_toRat]
  exact chopPrecisionAndRound_spec _

/-- `MulTruncate` is the exact product rounded toward zero. -/
theorem mulTruncate_spec : (d.mulTruncate d2).i = towardZero (d.toRat * d2.toRat * precisionReuse) := by
  rw [toRat_mul_toRat]
  exact chopPrecisionAndTruncate_spec _

/-- `QuoTruncate` is the exact quotient rounded toward zero: two truncations are one. -/
theorem quoTruncate_spec {d d2 : Dec} (hd2 : d2.i ≠ 0) :
    d.quoTruncate d2 = .ok ⟨towardZero (d.toRat / d2.toRat * precisionReuse)⟩ := by
  rw [toRat_div_toRat hd2, ← precisionReuse_natCast, Int.cast_natCast,
    towardZero_div_natCast _ (by decide), precisionReuse_natCast,
    towardZero_intCast_div_of_ne _ hd2]
  rw [quoTruncate, if_neg hd2]
  rfl

/-- `Quo` rounds to the nearest, ties to even, the exact quotient already truncated to
thirty-six digits. -/
theorem quo_spec {d d2 : Dec} (hd2 : d2.i ≠ 0) :
    ∃ q, d.quo d2 = .ok q ∧
      IsRoundHalfEven
        ((towardZero (d.toRat / d2.toRat * precisionReuse * precisionReuse) : ℚ) / precisionReuse) q.i := by
  have hP : (precisionReuse : ℚ) ≠ 0 := by exact_mod_cast precisionReuse_pos.ne'
  refine ⟨_, quo_of_ne hd2, ?_⟩
  rw [toRat_div_toRat hd2, div_mul_cancel₀ _ hP, towardZero_intCast_div_of_ne _ hd2]
  exact chopPrecisionAndRound_spec _

/-- `QuoRoundUp` rounds up the exact quotient already truncated to thirty-six digits. -/
theorem quoRoundUp_spec {d d2 : Dec} (hd2 : d2.i ≠ 0) :
    d.quoRoundUp d2 =
      .ok ⟨⌈(towardZero (d.toRat / d2.toRat * precisionReuse * precisionReuse) : ℚ) / precisionReuse⌉⟩ := by
  have hP : (precisionReuse : ℚ) ≠ 0 := by exact_mod_cast precisionReuse_pos.ne'
  rw [toRat_div_toRat hd2, div_mul_cancel₀ _ hP, towardZero_intCast_div_of_ne _ hd2,
    ← chopPrecisionAndRoundUp_spec]
  rw [quoRoundUp, if_neg hd2]
  rfl

/-- `RoundInt` is the value rounded to the nearest integer, ties to even. -/
theorem roundInt_spec : IsRoundHalfEven d.toRat d.roundInt :=
  chopPrecisionAndRound_spec d.i

/-- `TruncateInt` is the value rounded toward zero. -/
theorem truncateInt_spec : d.truncateInt = towardZero d.toRat :=
  chopPrecisionAndTruncate_spec d.i

/-- `TruncateDec` is the value rounded toward zero, as a `Dec`. -/
theorem truncateDec_spec : d.truncateDec.toRat = towardZero d.toRat := by
  rw [truncateDec, toRat_ofInt, chopPrecisionAndTruncate_spec]
  rfl

/-- The quotient and remainder of `QuoRem` in `Ceil` round up as `chopPrecisionAndRoundUp`
does. -/
theorem ceil_eq_ofInt : d.ceil = ofInt (chopPrecisionAndRoundUp d.i) := by
  unfold ceil chopPrecisionAndRoundUp chopPrecisionAndTruncate
  simp only [Int.tmod_def, Int.tdiv_eq_ediv, precisionReuse_eq, sign_precisionReuse]
  split_ifs <;> congr 1 <;> omega

/-- `Ceil` is the least integer not below the value, as a `Dec`. -/
theorem ceil_spec : d.ceil.toRat = ⌈d.toRat⌉ := by
  rw [ceil_eq_ofInt, toRat_ofInt, chopPrecisionAndRoundUp_spec]
  rfl

end Ops

/-! ### Double rounding -/

/-- `Quo` and `QuoRoundUp` are not the exact quotient correctly rounded.  `1.500000000000000001`
over `3000000000000000000` is just above `5 · 10^-19`, so its nearest multiple of `10^-18` is
`10^-18`; truncated to thirty-six digits it becomes the tie `5 · 10^-19`, which `Quo` rounds to
the even `0`.  `10^-18` over `2 · 10^18` is `5 · 10^-37`, which `QuoRoundUp` truncates to `0`
instead of rounding up to `10^-18`. -/
theorem quo_quoRoundUp_double_rounding :
    Dec.quo ⟨15 * 10 ^ 17 + 1⟩ ⟨3 * 10 ^ 36⟩ = .ok ⟨0⟩ ∧
      IsRoundHalfEven (toRat ⟨15 * 10 ^ 17 + 1⟩ / toRat ⟨3 * 10 ^ 36⟩ * precisionReuse) 1 ∧
      ¬IsRoundHalfEven (toRat ⟨15 * 10 ^ 17 + 1⟩ / toRat ⟨3 * 10 ^ 36⟩ * precisionReuse) 0 ∧
      Dec.quoRoundUp ⟨1⟩ ⟨2 * 10 ^ 36⟩ = .ok ⟨0⟩ ∧
      ⌈toRat ⟨1⟩ / toRat ⟨2 * 10 ^ 36⟩ * precisionReuse⌉ = 1 := by
  refine ⟨by decide, ?_, ?_, by decide, ?_⟩
  · left
    norm_num [toRat, precisionReuse_eq, abs_of_pos]
  · norm_num [IsRoundHalfEven, toRat, precisionReuse_eq, abs_of_pos]
  · norm_num [toRat, precisionReuse_eq, Int.ceil_eq_iff]

end CosmosSdk.Dec
