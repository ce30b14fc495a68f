import CosmosSdk.Types.DecText
import Mathlib.Data.Nat.Size
import Mathlib.Algebra.Order.Group.Unbundled.Int

/-!
# `sdk.Int`

A `big.Int` that the constructors and the arithmetic keep within `maxBitLen` bits
(`types/int.go`).  `BitLen` is the bit length of the absolute value, so the values are the
integers below `2^255` in absolute value (`BitLen_le_iff`), and `SdkInt` carries that bound.

`Add`, `Sub` and `Mul` panic on a result of more bits.  `Mul` first compares the sum of the
factors' bit lengths; a product of factors that pass it may still be too large, and one of
factors that fail it always is (`size_add_size_le_size_mul_succ`), so `Mul` panics exactly
when the product is out of range (`Mul_eq`).  `Quo` and `Mod` panic on a zero divisor and are
`big.Int`'s truncated quotient and Euclidean remainder, which stay in range.  The constructor
from a `big.Int`, the one from text and the Amino and JSON decoders check the same bound.

Text is read by `math/big`'s `SetString(s, 0)`, which `UnmarshalText` calls too; the model
takes it as a parameter (`BigIntText`), and states what it assumes of it where it does
(`BigIntText.Lawful`).  Coin amounts stay `ℤ`, as in the rest of the model.
-/

namespace CosmosSdk

/-! ### Bit lengths -/

section BitLength

/-- A positive number has its top bit: at least `2^(size - 1)`. -/
theorem two_pow_pred_size_le {n : ℕ} (h : 0 < n) : 2 ^ (n.size - 1) ≤ n :=
  Nat.lt_size.1 (by have := Nat.size_pos.2 h; omega)

/-- The bit lengths of two positive factors add up to at most one more than that of their
product. -/
theorem size_add_size_le_size_mul_succ {m n : ℕ} (hm : 0 < m) (hn : 0 < n) :
    m.size + n.size ≤ (m * n).size + 1 := by
  have hmn : 2 ^ (m.size - 1 + (n.size - 1)) ≤ m * n := by
    rw [pow_add]
    exact Nat.mul_le_mul (two_pow_pred_size_le hm) (two_pow_pred_size_le hn)
  have hlt := Nat.lt_size.2 hmn
  have := Nat.size_pos.2 hm
  have := Nat.size_pos.2 hn
  omega

end BitLength

/-- `maxBitLen`. -/
def maxBitLen : ℕ := 255

/-- `big.Int.BitLen`: the bit length of the absolute value, `0` for zero. -/
def BitLen (x : ℤ) : ℕ := x.natAbs.size

theorem BitLen_le_iff {x : ℤ} {n : ℕ} : BitLen x ≤ n ↔ |x| < 2 ^ n := by
  rw [BitLen, Nat.size_le, Int.abs_eq_natAbs]
  constructor <;> intro h <;> exact_mod_cast h

@[simp] theorem BitLen_zero : BitLen 0 = 0 := rfl

@[simp] theorem BitLen_neg (x : ℤ) : BitLen (-x) = BitLen x := by
  rw [BitLen, BitLen, Int.natAbs_neg]

/-- A truncated quotient has no more bits than the dividend. -/
theorem BitLen_tdiv_le (a b : ℤ) : BitLen (a.tdiv b) ≤ BitLen a := by
  unfold BitLen
  rw [Int.natAbs_tdiv]
  exact Nat.size_le_size (Nat.div_le_self _ _)

/-- A Euclidean remainder has no more bits than the divisor. -/
theorem BitLen_emod_le (a : ℤ) {b : ℤ} (hb : b ≠ 0) : BitLen (a % b) ≤ BitLen b := by
  have hlt : (a % b).natAbs < b.natAbs := by
    have := Int.emod_lt a hb
    have := Int.emod_nonneg a hb
    omega
  exact Nat.size_le_size hlt.le

/-- `sdk.Int`: a `big.Int` of at most `maxBitLen` bits. -/
structure SdkInt where
  i : ℤ
  bitLen_le : BitLen i ≤ maxBitLen
  deriving DecidableEq

namespace SdkInt

theorem abs_lt (a : SdkInt) : |a.i| < 2 ^ maxBitLen := BitLen_le_iff.1 a.bitLen_le

/-- The check on `BitLen() > maxBitLen` that the arithmetic and the constructors make, with the
panic each of them raises. -/
def checkBitLen (msg : String) (res : ℤ) : Except Panic SdkInt :=
  if h : BitLen res > maxBitLen then throw ⟨msg⟩ else pure ⟨res, Nat.le_of_not_lt h⟩

/-- `Int.Add`. -/
def Add (i i2 : SdkInt) : Except Panic SdkInt := checkBitLen "Int overflow" (i.i + i2.i)

/-- `Int.Sub`. -/
def Sub (i i2 : SdkInt) : Except Panic SdkInt := checkBitLen "Int overflow" (i.i - i2.i)

/-- `Int.Mul`: the bit lengths of the factors are compared first, the product after. -/
def Mul (i i2 : SdkInt) : Except Panic SdkInt :=
  if (BitLen i.i : ℤ) + BitLen i2.i - 1 > maxBitLen then throw ⟨"Int overflow"⟩
  else checkBitLen "Int overflow" (i.i * i2.i)

/-- `Int.Quo`: `big.Int.Quo`, the quotient truncated toward zero. -/
def Quo (i i2 : SdkInt) : Except Panic SdkInt :=
  if i2.i.sign = 0 then throw ⟨"Division by zero"⟩
  else pure ⟨i.i.tdiv i2.i, (BitLen_tdiv_le _ _).trans i.bitLen_le⟩

/-- `Int.Mod`: `big.Int.Mod`, the Euclidean remainder. -/
def Mod (i i2 : SdkInt) : Except Panic SdkInt :=
  if h : i2.i.sign = 0 then throw ⟨"division-by-zero"⟩
  else pure ⟨i.i % i2.i, (BitLen_emod_le _ (mt Int.sign_eq_zero_iff_zero.2 h)).trans i2.bitLen_le⟩

/-- `Int.String()`: the decimal text. -/
def toString (i : SdkInt) : String := ToString.toString i.i

end SdkInt

/-- `NewIntFromBigInt`. -/
def NewIntFromBigInt (i : ℤ) : Except Panic SdkInt :=
  SdkInt.checkBitLen "NewIntFromBigInt() out of bound" i

/-- What the model takes from `math/big` for text: `SetString(s, 0)`, the reading with the base
given by the prefix of the text, which `UnmarshalText` calls too. -/
structure BigIntText where
  SetString : String → Option ℤ

/-- What is assumed of `SetString` where it is: it reads back the decimal text of every
integer, which `Int.String()` and `MarshalText` write. -/
def BigIntText.Lawful (text : BigIntText) : Prop :=
  ∀ x : ℤ, text.SetString (ToString.toString x) = some x

/-- `SetString(s, 10)`, the decimal reader: a lawful reader, which differs from Go's reading in
base `0` only on text with a base prefix or a leading zero. -/
def BigIntText.base10 : BigIntText := ⟨fun s => setStringBase10 s.toList⟩

theorem BigIntText.base10_lawful : BigIntText.base10.Lawful := by
  intro x
  show setStringBase10 (ToString.toString x).toList = some x
  cases x with
  | ofNat n =>
    rw [Decimal.toString_ofNat_toList,
      setStringBase10_of_isDigit _ Nat.toDigits_ne_nil Decimal.isDigit_of_mem_toDigits,
      Nat.ofDigitChars_ten_toDigits]
    rfl
  | negSucc n =>
    rw [Decimal.toString_negSucc_toList,
      setStringBase10_minus _ Nat.toDigits_ne_nil Decimal.isDigit_of_mem_toDigits,
      Nat.ofDigitChars_ten_toDigits]
    rfl

/-- `NewIntFromString`: `ok = false` is `none`. -/
def NewIntFromString (text : BigIntText) (s : String) : Option SdkInt := do
  let i ← text.SetString s
  -- Check overflow
  if h : BitLen i > maxBitLen then none else some ⟨i, Nat.le_of_not_lt h⟩

/-- `unmarshalText`: `UnmarshalText`, then the bound.  Go's `%q` is `String.quote`. -/
def unmarshalText (text : BigIntText) (s : String) : Except String SdkInt :=
  match text.SetString s with
  | none => throw ("math/big: cannot unmarshal " ++ s.quote ++ " into a *big.Int")
  | some i =>
    if h : BitLen i > maxBitLen then throw ("integer out of range: " ++ s)
    else pure ⟨i, Nat.le_of_not_lt h⟩

namespace SdkInt

/-- `Int.UnmarshalAmino`. -/
def UnmarshalAmino (text : BigIntText) (s : String) : Except String SdkInt := unmarshalText text s

/-- `Int.MarshalJSON`: the decimal text as a JSON string. -/
def MarshalJSON (json : JsonString) (i : SdkInt) : Bytes := json.Marshal i.toString

/-- `Int.UnmarshalJSON`: a JSON string, read by `unmarshalText`. -/
def UnmarshalJSON (json : JsonString) (text : BigIntText) (bz : Bytes) : Except String SdkInt := do
  let s ← json.Unmarshal bz
  unmarshalText text s

/-! ### Exact within range -/

/-- The bound check returns the integer in range and panics outside it. -/
theorem checkBitLen_toOption (msg : String) (res : ℤ) :
    (checkBitLen msg res).toOption.map SdkInt.i = if |res| < 2 ^ maxBitLen then some res else none := by
  unfold checkBitLen
  by_cases h : |res| < 2 ^ maxBitLen
  · have hle : ¬BitLen res > maxBitLen := not_lt.2 (BitLen_le_iff.2 h)
    rw [dif_neg hle, if_pos h]
    rfl
  · have hgt : BitLen res > maxBitLen := lt_of_not_ge (mt BitLen_le_iff.1 h)
    rw [dif_pos hgt, if_neg h]
    rfl

/-- A factor that fails the test on the bit lengths is not zero, when the other is in range. -/
theorem natAbs_pos_of_BitLen_add {x y : ℤ} (hy : BitLen y ≤ maxBitLen)
    (hpre : (BitLen x : ℤ) + BitLen y - 1 > maxBitLen) : 0 < x.natAbs := by
  by_contra h0
  have hx : BitLen x = 0 := by rw [BitLen, Nat.eq_zero_of_not_pos h0]; rfl
  unfold maxBitLen at hy hpre
  omega

/-- The test on the factors only fails on a product that is out of range, so `Mul` is the
product checked once. -/
theorem Mul_eq (a b : SdkInt) : a.Mul b = checkBitLen "Int overflow" (a.i * b.i) := by
  unfold Mul
  split_ifs with hpre
  · -- neither factor is zero, and the product has at least the bits the test counted
    have ha := natAbs_pos_of_BitLen_add b.bitLen_le hpre
    have hb := natAbs_pos_of_BitLen_add (x := b.i) a.bitLen_le (by omega)
    have hsize := size_add_size_le_size_mul_succ ha hb
    have hpost : BitLen (a.i * b.i) > maxBitLen := by
      unfold BitLen at hpre ⊢
      rw [Int.natAbs_mul]
      omega
    unfold checkBitLen
    rw [dif_pos hpost]
  · rfl

theorem Add_toOption (a b : SdkInt) :
    (a.Add b).toOption.map SdkInt.i =
      if |a.i + b.i| < 2 ^ maxBitLen then some (a.i + b.i) else none :=
  checkBitLen_toOption _ _

theorem Sub_toOption (a b : SdkInt) :
    (a.Sub b).toOption.map SdkInt.i =
      if |a.i - b.i| < 2 ^ maxBitLen then some (a.i - b.i) else none :=
  checkBitLen_toOption _ _

theorem Mul_toOption (a b : SdkInt) :
    (a.Mul b).toOption.map SdkInt.i =
      if |a.i * b.i| < 2 ^ maxBitLen then some (a.i * b.i) else none := by
  rw [Mul_eq]
  exact checkBitLen_toOption _ _

theorem Quo_toOption (a b : SdkInt) :
    (a.Quo b).toOption.map SdkInt.i = if b.i = 0 then none else some (a.i.tdiv b.i) := by
  unfold Quo
  by_cases hb : b.i = 0
  · rw [if_pos (Int.sign_eq_zero_iff_zero.2 hb), if_pos hb]
    rfl
  · rw [if_neg (mt Int.sign_eq_zero_iff_zero.1 hb), if_neg hb]
    rfl

theorem Mod_toOption (a b : SdkInt) :
    (a.Mod b).toOption.map SdkInt.i = if b.i = 0 then none else some (a.i.emod b.i) := by
  unfold Mod
  by_cases hb : b.i = 0
  · rw [dif_pos (Int.sign_eq_zero_iff_zero.2 hb), if_pos hb]
    rfl
  · rw [dif_neg (mt Int.sign_eq_zero_iff_zero.1 hb), if_neg hb]
    rfl

end SdkInt

/-! ### The constructors and decoders accept the integers in range -/

theorem NewIntFromBigInt_toOption (x : ℤ) :
    (NewIntFromBigInt x).toOption.map SdkInt.i = if |x| < 2 ^ maxBitLen then some x else none :=
  SdkInt.checkBitLen_toOption _ _

/-- The bound of the decoders, on what the text reader returned. -/
theorem map_bounded (x : ℤ) :
    (if h : BitLen x > maxBitLen then none else some (⟨x, Nat.le_of_not_lt h⟩ : SdkInt)).map
        SdkInt.i = (some x).filter fun x => decide (|x| < 2 ^ maxBitLen) := by
  by_cases h : |x| < 2 ^ maxBitLen
  · rw [dif_neg (not_lt.2 (BitLen_le_iff.2 h))]
    simp [Option.filter_some, h]
  · rw [dif_pos (lt_of_not_ge (mt BitLen_le_iff.1 h))]
    simp [Option.filter_some, h]

theorem NewIntFromString_map (text : BigIntText) (s : String) :
    (NewIntFromString text s).map SdkInt.i =
      (text.SetString s).filter fun x => decide (|x| < 2 ^ maxBitLen) := by
  unfold NewIntFromString
  cases text.SetString s with
  | none => rfl
  | some x => exact map_bounded x

theorem unmarshalText_toOption (text : BigIntText) (s : String) :
    (unmarshalText text s).toOption.map SdkInt.i =
      (text.SetString s).filter fun x => decide (|x| < 2 ^ maxBitLen) := by
  unfold unmarshalText
  cases text.SetString s with
  | none => rfl
  | some x =>
    rw [← map_bounded x]
    dsimp only
    split_ifs <;> rfl

theorem UnmarshalJSON_toOption (json : JsonString) (text : BigIntText) (bz : Bytes) :
    (SdkInt.UnmarshalJSON json text bz).toOption.map SdkInt.i =
      ((json.Unmarshal bz).toOption.bind text.SetString).filter
        fun x => decide (|x| < 2 ^ maxBitLen) := by
  unfold SdkInt.UnmarshalJSON
  cases json.Unmarshal bz with
  | error e => rfl
  | ok s => exact unmarshalText_toOption text s

/-- Under a lawful reader and codec, every `Int` is read back from its JSON. -/
theorem UnmarshalJSON_MarshalJSON {json : JsonString} {text : BigIntText} (hjson : json.Lawful)
    (htext : text.Lawful) (a : SdkInt) :
    SdkInt.UnmarshalJSON json text (SdkInt.MarshalJSON json a) = .ok a := by
  have hread : text.SetString a.toString = some a.i := htext a.i
  have hle : ¬BitLen a.i > maxBitLen := not_lt.2 a.bitLen_le
  rw [SdkInt.UnmarshalJSON, SdkInt.MarshalJSON, hjson, Except.ok_bind, unmarshalText, hread]
  simp only [dif_neg hle, Except.pure_eq_ok]

theorem arithmetic_exact_within_range :
    (∀ a b : SdkInt,
      (a.Add b).toOption.map SdkInt.i =
          (if |a.i + b.i| < 2 ^ 255 then some (a.i + b.i) else none) ∧
        (a.Sub b).toOption.map SdkInt.i =
          (if |a.i - b.i| < 2 ^ 255 then some (a.i - b.i) else none) ∧
        (a.Mul b).toOption.map SdkInt.i =
          (if |a.i * b.i| < 2 ^ 255 then some (a.i * b.i) else none) ∧
        (a.Quo b).toOption.map SdkInt.i = (if b.i = 0 then none else some (a.i.tdiv b.i)) ∧
        (a.Mod b).toOption.map SdkInt.i = (if b.i = 0 then none else some (a.i.emod b.i))) ∧
      (∀ x : ℤ, (NewIntFromBigInt x).toOption.map SdkInt.i =
        if |x| < 2 ^ 255 then some x else none) ∧
      (∀ (text : BigIntText) (s : String),
        (NewIntFromString text s).map SdkInt.i =
            (text.SetString s).filter (fun x => |x| < 2 ^ 255) ∧
          (SdkInt.UnmarshalAmino text s).toOption.map SdkInt.i =
            (text.SetString s).filter (fun x => |x| < 2 ^ 255)) ∧
      ∀ (json : JsonString) (text : BigIntText) (bz : Bytes),
        (SdkInt.UnmarshalJSON json text bz).toOption.map SdkInt.i =
          ((json.Unmarshal bz).toOption.bind text.SetString).filter (fun x => |x| < 2 ^ 255) :=
  ⟨fun a b => ⟨SdkInt.Add_toOption a b, SdkInt.Sub_toOption a b, SdkInt.Mul_toOption a b,
      SdkInt.Quo_toOption a b, SdkInt.Mod_toOption a b⟩,
    NewIntFromBigInt_toOption,
    fun text s => ⟨NewIntFromString_map text s, unmarshalText_toOption text s⟩,
    UnmarshalJSON_toOption⟩

end CosmosSdk
