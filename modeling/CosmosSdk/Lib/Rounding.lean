import Mathlib.Algebra.Order.Floor.Ring
import Mathlib.Algebra.Order.Field.Basic
import Mathlib.Algebra.Group.Int.Even
import Mathlib.Tactic.Ring
import Mathlib.Tactic.Linarith
import Mathlib.Tactic.NormNum.Basic

/-!
# Rounding to an integer

The roundings of fixed-point arithmetic, on an ordered field with a floor: to the nearest
integer with ties to even (`IsRoundHalfEven`, a relation: within half a unit, and even when
exactly half), toward zero (`towardZero`), and up (`Int.ceil`).

On a quotient of integers each is read off integer division by a positive divisor:
`⌊x / P⌋` is `x / P` (`floor_intCast_div`), rounding toward zero is `Int.tdiv`
(`towardZero_intCast_div`), and for the nearest, the remainder against half the divisor decides
(`isRoundHalfEven_add_div`).  Rounding toward zero twice, by an integer divisor the second
time, is rounding once (`towardZero_div_natCast`).
-/

namespace Rounding

variable {α : Type*} [Field α] [LinearOrder α] [IsStrictOrderedRing α]

/-- `n` is `y` rounded to the nearest integer, a tie going to the even one. -/
def IsRoundHalfEven (y : α) (n : ℤ) : Prop := |y - n| < 1 / 2 ∨ |y - n| = 1 / 2 ∧ Even n

omit [IsStrictOrderedRing α] in
theorem IsRoundHalfEven.neg {y : α} {n : ℤ} (h : IsRoundHalfEven y n) :
    IsRoundHalfEven (-y) (-n) := by
  have habs : |-y - ((-n : ℤ) : α)| = |y - n| := by
    rw [Int.cast_neg, show -y - -(n : α) = -(y - n) by ring, abs_neg]
  unfold IsRoundHalfEven at h ⊢
  rw [habs, even_neg]
  exact h

/-- `q + r / P`, for `0 ≤ r < P`, rounds to `q` when `r` is below half of `P`, to `q + 1` when
it is above, and on the half to whichever of the two is even. -/
theorem isRoundHalfEven_add_div {q r P : ℤ} (hP : 0 < P) (hr : 0 ≤ r) (hrP : r < P) :
    IsRoundHalfEven ((q : α) + r / P)
      (if 2 * r < P then q else if P < 2 * r then q + 1 else if q % 2 = 0 then q else q + 1) := by
  have hP' : (0 : α) < P := by exact_mod_cast hP
  have ht0 : 0 ≤ (r : α) / P := div_nonneg (by exact_mod_cast hr) hP'.le
  have ht1 : (r : α) / P < 1 := (div_lt_one hP').2 (by exact_mod_cast hrP)
  -- the fraction `t = r / P` against one half
  have hlt : (r : α) / P < 1 / 2 ↔ 2 * r < P := by
    rw [div_lt_iff₀ hP', ← Int.cast_lt (R := α)]
    push_cast
    constructor <;> intro h <;> linarith
  have hgt : 1 / 2 < (r : α) / P ↔ P < 2 * r := by
    rw [lt_div_iff₀ hP', ← Int.cast_lt (R := α)]
    push_cast
    constructor <;> intro h <;> linarith
  unfold IsRoundHalfEven
  split_ifs with h₁ h₂ h₃
  · left
    rw [add_sub_cancel_left, abs_of_nonneg ht0]
    exact hlt.2 h₁
  · left
    rw [Int.cast_add, Int.cast_one, show (q : α) + r / P - (q + 1) = -(1 - r / P) by ring,
      abs_neg, abs_of_pos (by linarith)]
    linarith [hgt.2 h₂]
  · -- a tie: `t` is one half
    have ht : (r : α) / P = 1 / 2 := le_antisymm (not_lt.1 (mt hgt.1 h₂)) (not_lt.1 (mt hlt.1 h₁))
    right
    rw [add_sub_cancel_left, ht, abs_of_pos (by norm_num)]
    exact ⟨rfl, Int.even_iff.2 h₃⟩
  · have ht : (r : α) / P = 1 / 2 := le_antisymm (not_lt.1 (mt hgt.1 h₂)) (not_lt.1 (mt hlt.1 h₁))
    right
    rw [Int.cast_add, Int.cast_one, ht, show (q : α) + 1 / 2 - (q + 1) = -(1 / 2) by ring, abs_neg,
      abs_of_pos (by norm_num)]
    refine ⟨rfl, ?_⟩
    rw [Int.even_add_one, Int.not_even_iff]
    omega

variable [FloorRing α]

/-- `y` rounded toward zero. -/
def towardZero (y : α) : ℤ := if 0 ≤ y then ⌊y⌋ else ⌈y⌉

/-- The floor of a quotient of integers is the quotient of `Int.ediv`. -/
theorem floor_intCast_div {x P : ℤ} (hP : 0 < P) : ⌊(x : α) / P⌋ = x / P := by
  have hP' : (0 : α) < P := by exact_mod_cast hP
  rw [Int.floor_eq_iff]
  constructor
  · rw [le_div_iff₀ hP']
    exact_mod_cast Int.ediv_mul_le x hP.ne'
  · rw [div_lt_iff₀ hP']
    exact_mod_cast Int.lt_ediv_add_one_mul_self x hP

/-- The ceiling of a quotient of integers, through the floor of the negated quotient. -/
theorem ceil_intCast_div {x P : ℤ} (hP : 0 < P) : ⌈(x : α) / P⌉ = -(-x / P) := by
  rw [← floor_intCast_div (α := α) hP, Int.cast_neg, neg_div, Int.floor_neg, neg_neg]

/-- Rounding a quotient of integers toward zero is `Int.tdiv`. -/
theorem towardZero_intCast_div (x : ℤ) {P : ℤ} (hP : 0 < P) : towardZero ((x : α) / P) = x.tdiv P := by
  have hP' : (0 : α) < P := by exact_mod_cast hP
  unfold towardZero
  by_cases hx : 0 ≤ x
  · have hy : 0 ≤ (x : α) / P := div_nonneg (by exact_mod_cast hx) hP'.le
    rw [if_pos hy, floor_intCast_div hP, Int.tdiv_eq_ediv_of_nonneg hx]
  · have hy : ¬0 ≤ (x : α) / P := fun h =>
      hx (by exact_mod_cast (div_nonneg_iff.1 h).elim (fun h => h.1) fun h => absurd h.2 (not_le.2 hP'))
    rw [if_neg hy, ceil_intCast_div hP, ← Int.tdiv_eq_ediv_of_nonneg (by omega), Int.neg_tdiv, neg_neg]

/-- The same, for a divisor of either sign. -/
theorem towardZero_intCast_div_of_ne (x : ℤ) {b : ℤ} (hb : b ≠ 0) :
    towardZero ((x : α) / b) = x.tdiv b := by
  rcases lt_or_gt_of_ne hb with hneg | hpos
  · have hdiv : (x : α) / b = ((-x : ℤ) : α) / ((-b : ℤ) : α) := by
      push_cast
      rw [neg_div_neg_eq]
    rw [hdiv, towardZero_intCast_div _ (by omega), Int.tdiv_neg, Int.neg_tdiv, neg_neg]
  · exact towardZero_intCast_div x hpos

/-- Rounding toward zero, then dividing by a positive integer and rounding toward zero again,
is rounding the quotient once. -/
theorem towardZero_div_natCast (y : α) {P : ℕ} (hP : 0 < P) :
    towardZero (y / P) = (towardZero y).tdiv P := by
  have hP' : (0 : α) < P := by exact_mod_cast hP
  unfold towardZero
  by_cases hy : 0 ≤ y
  · have hfloor : 0 ≤ ⌊y⌋ := Int.floor_nonneg.2 hy
    rw [if_pos (div_nonneg hy hP'.le), if_pos hy, Int.floor_div_natCast,
      Int.tdiv_eq_ediv_of_nonneg hfloor]
  · -- below zero, through the floor of the negation
    have hfloor : 0 ≤ ⌊-y⌋ := Int.floor_nonneg.2 (by linarith)
    have hneg : ¬0 ≤ y / P := fun h => hy (by
      have := mul_nonneg h hP'.le
      rwa [div_mul_cancel₀ _ hP'.ne'] at this)
    have hceil : ⌈y⌉ = -⌊-y⌋ := by rw [Int.floor_neg, neg_neg]
    have hdiv : ⌈y / P⌉ = -(⌊-y⌋ / P) := by
      rw [← Int.floor_div_natCast, neg_div, Int.floor_neg, neg_neg]
    rw [if_neg hneg, if_neg hy, hdiv, hceil, Int.neg_tdiv, Int.tdiv_eq_ediv_of_nonneg hfloor]

end Rounding
