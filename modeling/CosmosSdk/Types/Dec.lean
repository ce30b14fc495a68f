import CosmosSdk.Types.Basic
import Mathlib.Algebra.Group.InjSurj
import Mathlib.Algebra.Order.Group.Int
import Mathlib.Order.Basic
import Mathlib.Tactic.Linarith

/-!
# `sdk.Dec`

A signed decimal with eighteen digits after the point, held as the integer
`i = value · 10^18` (`types/decimal.go`).  Addition and subtraction are exact; the
products and quotients cut the result back to eighteen digits, by banker's rounding
(`chopPrecisionAndRound`), upward (`chopPrecisionAndRoundUp`) or toward zero
(`chopPrecisionAndTruncate`).  Go's `big.Int.Quo` truncates toward zero, which is
`Int.tdiv`, and panics on a zero divisor, which the quotients here return as a `Panic`.

The 315-bit overflow checks of the Go code are not modelled: a result past them makes
the call panic, which aborts it, so the model has more successful runs than the code, and
an invariant proved for every run of the model holds for every run of the code.

`sdk.Int` is modelled by `ℤ` in the same way.
-/

namespace CosmosSdk

/-- `sdk.Dec`. -/
structure Dec where
  i : ℤ
  deriving DecidableEq, Repr

namespace Dec

/-- `Precision`. -/
def precision : ℕ := 18

/-- `precisionReuse`: `10^18`. -/
def precisionReuse : ℤ := 10 ^ precision

/-- `fivePrecision`: half of `10^18`. -/
def fivePrecision : ℤ := precisionReuse / 2

theorem precisionReuse_eq : precisionReuse = 1000000000000000000 := rfl

theorem precisionReuse_pos : 0 < precisionReuse := by decide

theorem i_injective : Function.Injective Dec.i := fun a b h => by
  cases a; cases b; simp_all

instance : Zero Dec := ⟨⟨0⟩⟩
instance : Add Dec := ⟨fun d d2 => ⟨d.i + d2.i⟩⟩
instance : Neg Dec := ⟨fun d => ⟨-d.i⟩⟩
instance : Sub Dec := ⟨fun d d2 => ⟨d.i - d2.i⟩⟩
instance : SMul ℕ Dec := ⟨fun n d => ⟨n * d.i⟩⟩
instance : SMul ℤ Dec := ⟨fun n d => ⟨n * d.i⟩⟩

@[simp] theorem zero_i : (0 : Dec).i = 0 := rfl
@[simp] theorem add_i (d d2 : Dec) : (d + d2).i = d.i + d2.i := rfl
@[simp] theorem neg_i (d : Dec) : (-d).i = -d.i := rfl
@[simp] theorem sub_i (d d2 : Dec) : (d - d2).i = d.i - d2.i := rfl

/-- `Add` and `Sub` are the integer operations on `i`, so `Dec` is an additive group. -/
instance : AddCommGroup Dec :=
  i_injective.addCommGroup _ rfl (fun _ _ => rfl) (fun _ => rfl) (fun _ _ => rfl)
    (fun d n => (nsmul_eq_mul n d.i).symm) (fun d n => (zsmul_eq_mul d.i n).symm)

/-- `LT`, `LTE`, `GT`, `GTE` and `Equal` compare `i`. -/
instance : LinearOrder Dec := LinearOrder.lift' Dec.i i_injective

theorem lt_iff (d d2 : Dec) : d < d2 ↔ d.i < d2.i := Iff.rfl

theorem le_iff (d d2 : Dec) : d ≤ d2 ↔ d.i ≤ d2.i := Iff.rfl

/-- `OneDec`. -/
def one : Dec := ⟨precisionReuse⟩

/-- `NewDecFromInt`, also `Int.ToDec`. -/
def ofInt (n : ℤ) : Dec := ⟨n * precisionReuse⟩

/-- `NewDecWithPrec`: `i · 10^-prec`. -/
def newDecWithPrec (i : ℤ) (prec : ℕ) : Dec := ⟨i * 10 ^ (precision - prec)⟩

/-- `String`: the digits of `|i|` with the point before the last eighteen, written `0.` and
eighteen digits when there are fewer, and a minus sign for a negative value. -/
def toString (d : Dec) : String :=
  let bzInt := (ToString.toString d.i.natAbs).toList
  let bzStr :=
    if bzInt.length ≤ precision then
      '0' :: '.' :: (List.replicate (precision - bzInt.length) '0' ++ bzInt)
    else
      bzInt.take (bzInt.length - precision) ++ '.' :: bzInt.drop (bzInt.length - precision)
  (if d.i < 0 then "-" else "") ++ String.ofList bzStr

/-- `IsZero`. -/
def isZero (d : Dec) : Bool := d.i == 0

/-- `IsPositive`. -/
def isPositive (d : Dec) : Bool := decide (0 < d.i)

/-- `IsNegative`. -/
def isNegative (d : Dec) : Bool := decide (d.i < 0)

/-- `MulInt`. -/
def mulInt (d : Dec) (n : ℤ) : Dec := ⟨d.i * n⟩

/-- `QuoInt`: `big.Int.Quo`, truncating toward zero. -/
def quoInt (d : Dec) (n : ℤ) : Except Panic Dec :=
  if n = 0 then throw ⟨"division by zero"⟩ else pure ⟨d.i.tdiv n⟩

/-- `chopPrecisionAndRound` on a nonnegative input: drop eighteen digits, rounding half to
even. -/
def chopPrecisionAndRoundNonneg (d : ℤ) : ℤ :=
  let quo := d / precisionReuse
  let rem := d % precisionReuse
  if rem = 0 then quo
  else if rem < fivePrecision then quo
  else if fivePrecision < rem then quo + 1
  else if quo % 2 = 0 then quo else quo + 1

/-- `chopPrecisionAndRound`: a negative input is rounded as its negation. -/
def chopPrecisionAndRound (d : ℤ) : ℤ :=
  if d < 0 then -chopPrecisionAndRoundNonneg (-d) else chopPrecisionAndRoundNonneg d

/-- `chopPrecisionAndTruncate`. -/
def chopPrecisionAndTruncate (d : ℤ) : ℤ := d.tdiv precisionReuse

/-- `chopPrecisionAndRoundUp`: up for a nonnegative input, toward zero for a negative one. -/
def chopPrecisionAndRoundUp (d : ℤ) : ℤ :=
  if d < 0 then -chopPrecisionAndTruncate (-d)
  else if d % precisionReuse = 0 then d / precisionReuse else d / precisionReuse + 1

/-- `Mul`. -/
def mul (d d2 : Dec) : Dec := ⟨chopPrecisionAndRound (d.i * d2.i)⟩

/-- `MulTruncate`. -/
def mulTruncate (d d2 : Dec) : Dec := ⟨chopPrecisionAndTruncate (d.i * d2.i)⟩

/-- `Quo`: the quotient carried to thirty-six digits, then rounded back to eighteen. -/
def quo (d d2 : Dec) : Except Panic Dec :=
  if d2.i = 0 then throw ⟨"division by zero"⟩
  else pure ⟨chopPrecisionAndRound ((d.i * precisionReuse * precisionReuse).tdiv d2.i)⟩

/-- `QuoRoundUp`. -/
def quoRoundUp (d d2 : Dec) : Except Panic Dec :=
  if d2.i = 0 then throw ⟨"division by zero"⟩
  else pure ⟨chopPrecisionAndRoundUp ((d.i * precisionReuse * precisionReuse).tdiv d2.i)⟩

/-- `QuoTruncate`. -/
def quoTruncate (d d2 : Dec) : Except Panic Dec :=
  if d2.i = 0 then throw ⟨"division by zero"⟩
  else pure ⟨chopPrecisionAndTruncate ((d.i * precisionReuse * precisionReuse).tdiv d2.i)⟩

/-- `TruncateInt`. -/
def truncateInt (d : Dec) : ℤ := chopPrecisionAndTruncate d.i

/-- `RoundInt`: to the nearest integer, half to even. -/
def roundInt (d : Dec) : ℤ := chopPrecisionAndRound d.i

/-- `TruncateDec`: the integer part, as a `Dec`. -/
def truncateDec (d : Dec) : Dec := ofInt (chopPrecisionAndTruncate d.i)

/-- `Ceil`: from `big.Int.QuoRem`, the truncated quotient and the remainder of the sign of
`d`; a positive remainder rounds the quotient up. -/
def ceil (d : Dec) : Dec :=
  let quo := d.i.tdiv precisionReuse
  let rem := d.i.tmod precisionReuse
  if rem = 0 then ofInt quo
  else if rem < 0 then ofInt quo
  else ofInt (quo + 1)

/-- `SmallestDec`: `10^-18`. -/
def smallest : Dec := ⟨1⟩

/-- `MinDec`: the first unless the second is less. -/
def MinDec (d1 d2 : Dec) : Dec := if d1 < d2 then d1 else d2

@[simp] theorem MinDec_eq_min (d1 d2 : Dec) : MinDec d1 d2 = min d1 d2 := by
  unfold MinDec
  split_ifs with h
  · exact (min_eq_left h.le).symm
  · exact (min_eq_right (not_lt.1 h)).symm

@[simp] theorem isZero_iff (d : Dec) : d.isZero = true ↔ d.i = 0 := by simp [isZero]

@[simp] theorem isZero_eq_false (d : Dec) : d.isZero = false ↔ d.i ≠ 0 := by simp [isZero]

@[simp] theorem isPositive_iff (d : Dec) : d.isPositive = true ↔ 0 < d.i := by simp [isPositive]

@[simp] theorem ofInt_i (n : ℤ) : (ofInt n).i = n * precisionReuse := rfl

@[simp] theorem mulInt_i (d : Dec) (n : ℤ) : (d.mulInt n).i = d.i * n := rfl

theorem quoInt_of_ne {d : Dec} {n : ℤ} (h : n ≠ 0) : d.quoInt n = pure ⟨d.i.tdiv n⟩ := by
  simp [quoInt, h]

theorem quo_of_ne {d d2 : Dec} (h : d2.i ≠ 0) :
    d.quo d2 = pure ⟨chopPrecisionAndRound ((d.i * precisionReuse * precisionReuse).tdiv d2.i)⟩ := by
  simp [quo, h]

/-! ### Rounding bounds -/

theorem chopPrecisionAndRoundNonneg_ge (d : ℤ) :
    d / precisionReuse ≤ chopPrecisionAndRoundNonneg d := by
  simp only [chopPrecisionAndRoundNonneg, fivePrecision, precisionReuse_eq]
  split_ifs <;> omega

/-- A whole number of units of `10^-18` rounds to itself. -/
theorem chopPrecisionAndRound_mul_precision (n : ℤ) :
    chopPrecisionAndRound (n * precisionReuse) = n := by
  simp only [chopPrecisionAndRound, chopPrecisionAndRoundNonneg, fivePrecision, precisionReuse_eq]
  split_ifs <;> omega

/-- A whole number times a decimal is exact: `n.ToDec().Mul(d)` is `d.MulInt(n)`. -/
theorem ofInt_mul (n : ℤ) (d : Dec) : (ofInt n).mul d = d.mulInt n := by
  rw [mul, mulInt, ofInt_i, mul_right_comm, chopPrecisionAndRound_mul_precision, mul_comm]

/-- Rounding to nearest never exceeds rounding up. -/
theorem chopPrecisionAndRoundNonneg_le (d : ℤ) :
    chopPrecisionAndRoundNonneg d ≤ (d + precisionReuse - 1) / precisionReuse := by
  simp only [chopPrecisionAndRoundNonneg, fivePrecision, precisionReuse_eq]
  split_ifs <;> omega

/-- Rounding to nearest moves a value by at most half a unit. -/
theorem chopPrecisionAndRoundNonneg_mul_le (d : ℤ) :
    2 * chopPrecisionAndRoundNonneg d * precisionReuse ≤ 2 * d + precisionReuse := by
  simp only [chopPrecisionAndRoundNonneg, fivePrecision, precisionReuse_eq]
  split_ifs <;> omega

/-- `Quo` of a nonnegative decimal by a positive one exceeds the exact quotient by at most
half a unit of `10^-18`. -/
theorem quo_mul_le {d d2 q : Dec} (hd : 0 ≤ d.i) (hd2 : 0 < d2.i) (h : d.quo d2 = .ok q) :
    2 * d2.i * q.i ≤ 2 * d.i * precisionReuse + d2.i := by
  rw [quo_of_ne hd2.ne'] at h
  obtain rfl := (Except.ok.inj h).symm
  have hp := precisionReuse_pos
  have hnum : 0 ≤ d.i * precisionReuse * precisionReuse := by positivity
  set x := (d.i * precisionReuse * precisionReuse).tdiv d2.i with hx
  have hx0 : 0 ≤ x := Int.tdiv_nonneg hnum hd2.le
  -- the quotient carried to thirty-six digits is at most the exact one
  have hxS : x * d2.i ≤ d.i * precisionReuse * precisionReuse := by
    rw [hx, Int.tdiv_eq_ediv_of_nonneg hnum]
    exact Int.ediv_mul_le _ hd2.ne'
  have hr : 2 * chopPrecisionAndRound x * precisionReuse ≤ 2 * x + precisionReuse := by
    simp only [chopPrecisionAndRound, if_neg (not_lt.mpr hx0)]
    exact chopPrecisionAndRoundNonneg_mul_le x
  have key : (2 * d2.i * chopPrecisionAndRound x) * precisionReuse ≤
      (2 * d.i * precisionReuse + d2.i) * precisionReuse := by
    nlinarith
  exact le_of_mul_le_mul_right key hp

theorem mulTruncate_nonneg {a b : Dec} (ha : 0 ≤ a.i) (hb : 0 ≤ b.i) : 0 ≤ (a.mulTruncate b).i := by
  show 0 ≤ (a.i * b.i).tdiv precisionReuse
  rw [Int.tdiv_eq_ediv_of_nonneg (mul_nonneg ha hb)]
  exact Int.ediv_nonneg (mul_nonneg ha hb) precisionReuse_pos.le

/-- The truncated product of two decimals between zero and one is at most one. -/
theorem mulTruncate_le_one {a b : Dec} (ha : 0 ≤ a.i ∧ a.i ≤ precisionReuse) (hb : 0 ≤ b.i ∧ b.i ≤ precisionReuse) :
    0 ≤ (a.mulTruncate b).i ∧ (a.mulTruncate b).i ≤ precisionReuse := by
  refine ⟨mulTruncate_nonneg ha.1 hb.1, ?_⟩
  show (a.i * b.i).tdiv precisionReuse ≤ precisionReuse
  rw [Int.tdiv_eq_ediv_of_nonneg (mul_nonneg ha.1 hb.1)]
  exact Int.ediv_le_of_le_mul precisionReuse_pos (mul_le_mul ha.2 hb.2 hb.1 precisionReuse_pos.le)

end Dec

end CosmosSdk
