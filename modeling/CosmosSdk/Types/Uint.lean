import CosmosSdk.Types.Int

/-!
# `sdk.Uint`

A `big.Int` that the constructors keep in `[0, 2^256)` (`types/uint.go`): `checkNewUint` refuses
a negative integer and one of more than 256 bits, `ParseUint` reads text and checks the same,
and `NewUintFromBigInt`, which the arithmetic calls, panics on what it refuses
(`checkNewUint_toOption`).

The comparisons read `big.Int.Cmp` through the helpers `equal`, `gt` and `lt` of
`types/int.go`, except `GTE`, which is `GT || Equal`, and `LTE`, which is `!GTE` and so the
strict order (`LTE_iff`).

The Amino and JSON codecs are `sdk.Int`'s helpers: the decimal text of `MarshalText`, read back
by `unmarshalText`, whose bound is `Int`'s `maxBitLen` of 255 bits and which does not look at
the sign.  A `Uint` is read back from its text exactly when it is below `2^255`
(`UnmarshalAmino_MarshalAmino`), and the decoders accept the negative integers above `-2^255`
that no constructor builds (`UnmarshalAmino_toOption`).
-/

namespace CosmosSdk

/-! ### The comparisons of `types/int.go` -/

/-- `big.Int.Cmp`: `-1`, `0` or `+1` as the first integer is below, equal to or above the
second. -/
def Cmp (x y : ℤ) : ℤ := if x < y then -1 else if x = y then 0 else 1

/-- `equal`. -/
def equal (i i2 : ℤ) : Bool := Cmp i i2 == 0

/-- `gt`. -/
def gt (i i2 : ℤ) : Bool := Cmp i i2 == 1

/-- `lt`. -/
def lt (i i2 : ℤ) : Bool := Cmp i i2 == -1

theorem equal_iff {x y : ℤ} : equal x y = true ↔ x = y := by
  unfold equal Cmp
  split_ifs <;> simp <;> omega

theorem gt_iff {x y : ℤ} : gt x y = true ↔ y < x := by
  unfold gt Cmp
  split_ifs <;> simp <;> omega

theorem lt_iff {x y : ℤ} : lt x y = true ↔ x < y := by
  unfold lt Cmp
  split_ifs <;> simp <;> omega

/-! ### The type and its constructors -/

/-- `sdk.Uint`: its `big.Int`.  Nothing in the type bounds it: the constructors check the range,
the decoders set what they read. -/
structure Uint where
  i : ℤ
  deriving DecidableEq, Repr

/-- `UintOverflow`: the error for a negative integer or one of more than 256 bits. -/
def UintOverflow (i : ℤ) : Except String Unit :=
  if i.sign < 0 then throw "non-positive integer"
  else if BitLen i > 256 then
    throw ("bit length " ++ ToString.toString (BitLen i) ++ " greater than 256")
  else pure ()

/-- `checkNewUint`. -/
def checkNewUint (i : ℤ) : Except String Uint := do
  UintOverflow i
  pure ⟨i⟩

/-- `NewUintFromBigInt`: `checkNewUint`, with a panic for its error. -/
def NewUintFromBigInt (i : ℤ) : Except Panic Uint :=
  match checkNewUint i with
  | .error err => throw ⟨"overflow: " ++ err⟩
  | .ok u => pure u

/-- `ParseUint`: `SetString(s, 0)`, then `checkNewUint`.  Go's `%q` is `String.quote`. -/
def ParseUint (text : BigIntText) (s : String) : Except String Uint :=
  match text.SetString s with
  | none => throw ("cannot convert " ++ s.quote ++ " to big.Int")
  | some i => checkNewUint i

namespace Uint

/-- `Uint.Equal`. -/
def Equal (u u2 : Uint) : Bool := equal u.i u2.i

/-- `Uint.GT`. -/
def GT (u u2 : Uint) : Bool := gt u.i u2.i

/-- `Uint.GTE`: `GT` or `Equal`. -/
def GTE (u u2 : Uint) : Bool := u.GT u2 || u.Equal u2

/-- `Uint.LT`. -/
def LT (u u2 : Uint) : Bool := lt u.i u2.i

/-- `Uint.LTE`: the negation of `GTE`. -/
def LTE (u u2 : Uint) : Bool := !u.GTE u2

/-- `Uint.Add`. -/
def Add (u u2 : Uint) : Except Panic Uint := NewUintFromBigInt (u.i + u2.i)

/-- `Uint.Sub`. -/
def Sub (u u2 : Uint) : Except Panic Uint := NewUintFromBigInt (u.i - u2.i)

/-- `Uint.Mul`. -/
def Mul (u u2 : Uint) : Except Panic Uint := NewUintFromBigInt (u.i * u2.i)

/-- `Uint.Quo`: `big.Int.Quo`, the quotient truncated toward zero, which panics on a zero
divisor. -/
def Quo (u u2 : Uint) : Except Panic Uint :=
  if u2.i = 0 then throw ⟨"division by zero"⟩ else NewUintFromBigInt (u.i.tdiv u2.i)

/-- `Uint.MarshalAmino`: `marshalAmino`, the decimal text that `MarshalText` writes. -/
def MarshalAmino (u : Uint) : String := ToString.toString u.i

/-- `Uint.UnmarshalAmino`: `unmarshalAmino`, which is `unmarshalText`. -/
def UnmarshalAmino (text : BigIntText) (s : String) : Except String Uint := do
  let i ← unmarshalText text s
  pure ⟨i.i⟩

/-- `Uint.MarshalJSON`: `marshalJSON`, the text as a JSON string. -/
def MarshalJSON (json : JsonString) (u : Uint) : Bytes := json.Marshal (MarshalAmino u)

/-- `Uint.UnmarshalJSON`: `unmarshalJSON`, a JSON string read by `unmarshalText`. -/
def UnmarshalJSON (json : JsonString) (text : BigIntText) (bz : Bytes) : Except String Uint := do
  let s ← json.Unmarshal bz
  let i ← unmarshalText text s
  pure ⟨i.i⟩

/-! ### The comparisons -/

theorem Equal_iff {u v : Uint} : u.Equal v = true ↔ u.i = v.i := equal_iff

theorem GT_iff {u v : Uint} : u.GT v = true ↔ v.i < u.i := gt_iff

theorem LT_iff {u v : Uint} : u.LT v = true ↔ u.i < v.i := lt_iff

theorem GTE_iff {u v : Uint} : u.GTE v = true ↔ v.i ≤ u.i := by
  rw [GTE, Bool.or_eq_true, GT_iff, Equal_iff]
  omega

/-- `LTE` is the negation of `GTE`, so it is the strict order: it fails on equal values. -/
theorem LTE_iff {u v : Uint} : u.LTE v = true ↔ u.i < v.i := by
  rw [LTE, Bool.not_eq_true', ← Bool.not_eq_true, GTE_iff]
  omega

/-- Exactly one of `LT`, `Equal` and `GT` holds. -/
theorem count_LT_Equal_GT (u v : Uint) : [u.LT v, u.Equal v, u.GT v].count true = 1 := by
  rcases lt_trichotomy u.i v.i with hlt | heq | hgt
  · have hLT : u.LT v = true := LT_iff.2 hlt
    have hEq : u.Equal v = false := by rw [← Bool.not_eq_true, Equal_iff]; omega
    have hGT : u.GT v = false := by rw [← Bool.not_eq_true, GT_iff]; omega
    simp [hLT, hEq, hGT]
  · have hLT : u.LT v = false := by rw [← Bool.not_eq_true, LT_iff]; omega
    have hEq : u.Equal v = true := Equal_iff.2 heq
    have hGT : u.GT v = false := by rw [← Bool.not_eq_true, GT_iff]; omega
    simp [hLT, hEq, hGT]
  · have hLT : u.LT v = false := by rw [← Bool.not_eq_true, LT_iff]; omega
    have hEq : u.Equal v = false := by rw [← Bool.not_eq_true, Equal_iff]; omega
    have hGT : u.GT v = true := GT_iff.2 hgt
    simp [hLT, hEq, hGT]

theorem comparisons_LTE_strict (u v : Uint) :
    (u.LT v = true ↔ u.i < v.i) ∧ (u.GT v = true ↔ u.i > v.i) ∧ (u.GTE v = true ↔ u.i ≥ v.i) ∧
      (u.LTE v = true ↔ u.i < v.i) ∧ [u.LT v, u.Equal v, u.GT v].count true = 1 :=
  ⟨LT_iff, GT_iff, GTE_iff, LTE_iff, count_LT_Equal_GT u v⟩

theorem comparisons_LTE_strict_zero : (⟨0⟩ : Uint).LTE ⟨0⟩ = false := by
  rw [← Bool.not_eq_true, (comparisons_LTE_strict ⟨0⟩ ⟨0⟩).2.2.2.1]
  exact lt_irrefl 0

/-! ### The range of the constructors -/

/-- `UintOverflow` passes exactly the integers in `[0, 2^256)`. -/
theorem UintOverflow_eq_ok_iff {x : ℤ} : UintOverflow x = .ok () ↔ 0 ≤ x ∧ x < 2 ^ 256 := by
  have hbits : BitLen x ≤ 256 ↔ |x| < 2 ^ 256 := BitLen_le_iff
  unfold UintOverflow
  by_cases hneg : x < 0
  · rw [if_pos (Int.sign_neg_iff.2 hneg)]
    simp only [reduceCtorEq, false_iff]
    omega
  · rw [if_neg (mt Int.sign_neg_iff.1 hneg), abs_of_nonneg (not_lt.1 hneg)] at *
    by_cases hlen : BitLen x > 256
    · rw [if_pos hlen]
      simp only [reduceCtorEq, false_iff]
      omega
    · rw [if_neg hlen]
      exact iff_of_true rfl (by omega)

theorem checkNewUint_toOption (x : ℤ) :
    (checkNewUint x).toOption.map Uint.i = if 0 ≤ x ∧ x < 2 ^ 256 then some x else none := by
  unfold checkNewUint
  split_ifs with hx
  · rw [UintOverflow_eq_ok_iff.2 hx]
    rfl
  · cases h : UintOverflow x with
    | error e => rfl
    | ok _ => exact absurd (UintOverflow_eq_ok_iff.1 h) hx

/-- `NewUintFromBigInt` returns what `checkNewUint` returns, and panics where it fails. -/
theorem NewUintFromBigInt_toOption (x : ℤ) :
    (NewUintFromBigInt x).toOption.map Uint.i = if 0 ≤ x ∧ x < 2 ^ 256 then some x else none := by
  rw [← checkNewUint_toOption]
  unfold NewUintFromBigInt
  cases checkNewUint x <;> rfl

theorem ParseUint_toOption (text : BigIntText) (s : String) :
    (ParseUint text s).toOption.map Uint.i =
      (text.SetString s).filter fun x => 0 ≤ x ∧ x < 2 ^ 256 := by
  unfold ParseUint
  cases text.SetString s with
  | none => rfl
  | some x =>
    rw [checkNewUint_toOption]
    by_cases hx : 0 ≤ x ∧ x < 2 ^ 256 <;> simp [Option.filter_some, hx]

/-! ### The codecs -/

/-- The JSON decoder is the Amino one on the string that the JSON holds. -/
theorem UnmarshalJSON_eq (json : JsonString) (text : BigIntText) (bz : Bytes) :
    UnmarshalJSON json text bz = (json.Unmarshal bz).bind (UnmarshalAmino text) := rfl

theorem UnmarshalAmino_toOption (text : BigIntText) (s : String) :
    (UnmarshalAmino text s).toOption.map Uint.i =
      (text.SetString s).filter fun x => |x| < 2 ^ maxBitLen := by
  rw [← unmarshalText_toOption]
  unfold UnmarshalAmino
  cases unmarshalText text s <;> rfl

theorem UnmarshalJSON_toOption (json : JsonString) (text : BigIntText) (bz : Bytes) :
    (UnmarshalJSON json text bz).toOption.map Uint.i =
      ((json.Unmarshal bz).toOption.bind text.SetString).filter fun x => |x| < 2 ^ maxBitLen := by
  rw [UnmarshalJSON_eq]
  cases json.Unmarshal bz with
  | error e => rfl
  | ok s => exact UnmarshalAmino_toOption text s

/-- What the decoder returns on text that `SetString` reads as `x`: `x` within the bound of
`sdk.Int`, and the error on the text outside it. -/
theorem UnmarshalAmino_of_SetString {text : BigIntText} {s : String} {x : ℤ}
    (h : text.SetString s = some x) :
    UnmarshalAmino text s =
      if |x| < 2 ^ maxBitLen then .ok ⟨x⟩ else .error ("integer out of range: " ++ s) := by
  unfold UnmarshalAmino unmarshalText
  rw [h]
  dsimp only
  by_cases hx : |x| < 2 ^ maxBitLen
  · rw [dif_neg (not_lt.2 (BitLen_le_iff.2 hx)), if_pos hx]
    rfl
  · rw [dif_pos (lt_of_not_ge (mt BitLen_le_iff.1 hx)), if_neg hx]
    rfl

theorem UnmarshalAmino_MarshalAmino {text : BigIntText} (htext : text.Lawful) (u : Uint) :
    UnmarshalAmino text (MarshalAmino u) =
      if |u.i| < 2 ^ maxBitLen then .ok u else .error ("integer out of range: " ++ MarshalAmino u) :=
  UnmarshalAmino_of_SetString (htext u.i)

theorem UnmarshalJSON_MarshalJSON {json : JsonString} (hjson : json.Lawful) (text : BigIntText)
    (u : Uint) : UnmarshalJSON json text (MarshalJSON json u) = UnmarshalAmino text (MarshalAmino u) := by
  rw [UnmarshalJSON_eq, MarshalJSON, hjson]
  rfl

theorem codecs_bound_maxBitLen {json : JsonString} {text : BigIntText} (hjson : json.Lawful)
    (htext : text.Lawful) :
    (∀ u : Uint,
      UnmarshalAmino text (MarshalAmino u) =
          (if |u.i| < 2 ^ 255 then .ok u else .error ("integer out of range: " ++ MarshalAmino u)) ∧
        UnmarshalJSON json text (MarshalJSON json u) =
          (if |u.i| < 2 ^ 255 then .ok u else .error ("integer out of range: " ++ MarshalAmino u))) ∧
      (∀ s : String, (UnmarshalAmino text s).toOption.map Uint.i =
        (text.SetString s).filter fun x => |x| < 2 ^ 255) ∧
      (∀ bz : Bytes, (UnmarshalJSON json text bz).toOption.map Uint.i =
        ((json.Unmarshal bz).toOption.bind text.SetString).filter fun x => |x| < 2 ^ 255) ∧
      (∀ x : ℤ, (NewUintFromBigInt x).toOption.map Uint.i =
        if 0 ≤ x ∧ x < 2 ^ 256 then some x else none) ∧
      ∀ s : String, (ParseUint text s).toOption.map Uint.i =
        (text.SetString s).filter fun x => 0 ≤ x ∧ x < 2 ^ 256 :=
  ⟨fun u => ⟨UnmarshalAmino_MarshalAmino htext u,
      (UnmarshalJSON_MarshalJSON hjson text u).trans (UnmarshalAmino_MarshalAmino htext u)⟩,
    UnmarshalAmino_toOption text, UnmarshalJSON_toOption json text, NewUintFromBigInt_toOption,
    ParseUint_toOption text⟩

theorem codecs_bound_maxBitLen_base10 :
    UnmarshalAmino BigIntText.base10 (MarshalAmino ⟨2 ^ 255⟩) =
        .error ("integer out of range: " ++ MarshalAmino ⟨2 ^ 255⟩) ∧
      UnmarshalAmino BigIntText.base10 (MarshalAmino ⟨-1⟩) = .ok ⟨-1⟩ ∧
      (ParseUint BigIntText.base10 (MarshalAmino ⟨-1⟩)).toOption.map Uint.i = none := by
  obtain ⟨hround, -, -, -, hparse⟩ :=
    codecs_bound_maxBitLen JsonString.utf8_lawful BigIntText.base10_lawful
  refine ⟨?_, ?_, ?_⟩
  · rw [(hround ⟨2 ^ 255⟩).1, if_neg (by decide)]
  · rw [(hround ⟨-1⟩).1, if_pos (by decide)]
  · rw [hparse, MarshalAmino, BigIntText.base10_lawful (-1)]
    decide

end Uint

end CosmosSdk
