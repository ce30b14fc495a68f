import Mathlib

/-!
# The byte order

Go compares keys with `bytes.Compare`: lexicographically, byte by byte, a proper prefix
first.  Core Lean orders `UInt8` but gives it no `LinearOrder`; this file provides one
built from core's own `≤`, `<` and `compare`, so that Mathlib's lexicographic
`LinearOrder (List UInt8)` is available and `decide` still evaluates comparisons.

* `instLinearOrderUInt8`;
* `bigEndian w n`: the `w` low bytes of `n`, most significant first;
* `putUvarint`, `hexString`, `hexNat`: the varint of `encoding/binary` and the `%x` of `fmt`,
  with which the keepers build store keys and addresses; `hexString` is injective and has
  no slash, so a key of digits between slashes names its parts;
* `hexDecode`: `hex.DecodeString`.
-/

instance instLinearOrderUInt8 : LinearOrder UInt8 where
  le_refl a := UInt8.le_refl a
  le_trans _ _ _ := UInt8.le_trans
  le_antisymm _ _ := UInt8.le_antisymm
  le_total := UInt8.le_total
  lt_iff_le_not_ge a b := by
    simp only [UInt8.lt_iff_toNat_lt, UInt8.le_iff_toNat_le]; omega
  toDecidableLE := inferInstance
  toDecidableLT := inferInstance
  toDecidableEq := inferInstance
  min_def a b := by simp [UInt8.min_def]
  max_def a b := by simp [UInt8.max_def]
  compare_eq_compareOfLessAndEq _ _ := rfl

/-- The `w` low bytes of `n`, most significant first: `binary.BigEndian.PutUint64` writes
`bigEndian 8`. -/
def bigEndian : ℕ → ℕ → List UInt8
  | 0, _ => []
  | w + 1, n => UInt8.ofNat (n / 256 ^ w) :: bigEndian w (n % 256 ^ w)

@[simp] theorem length_bigEndian (w n : ℕ) : (bigEndian w n).length = w := by
  induction w generalizing n with
  | zero => rfl
  | succ w ih => simp [bigEndian, ih]

/-! ### The order of encoded keys

Store keys are compared byte by byte, so a key built of fixed-width fields is ordered by
its first field, then by the next.  A big-endian number is ordered as the number
(`bigEndian_lt_bigEndian_iff`), and flipping every bit of a byte string of fixed length
reverses its order (`map_complement_lt_iff`). -/

section KeyOrder

/-- Two lists whose first parts have one length compare on the first parts, and on the rest
when the first parts are equal. -/
theorem append_lt_append_iff_of_length_eq {α : Type*} [LinearOrder α] :
    ∀ {l₁ l₂ : List α} (m₁ m₂ : List α), l₁.length = l₂.length →
      (l₁ ++ m₁ < l₂ ++ m₂ ↔ l₁ < l₂ ∨ l₁ = l₂ ∧ m₁ < m₂)
  | [], [], m₁, m₂, _ => by simp
  | a :: l₁, b :: l₂, m₁, m₂, h => by
    have ih := append_lt_append_iff_of_length_eq m₁ m₂ (by simpa using h)
    simp only [List.cons_append, List.cons_lt_cons_iff, ih, List.cons.injEq]
    tauto

/-- `m < n` compares the quotients by `q`, and the remainders when the quotients are equal. -/
theorem lt_iff_div_lt_or_mod_lt {q m n : ℕ} : m < n ↔ m / q < n / q ∨ m / q = n / q ∧ m % q < n % q := by
  have hm := Nat.div_add_mod m q
  have hn := Nat.div_add_mod n q
  constructor
  · intro h
    rcases lt_or_eq_of_le (Nat.div_le_div_right h.le : m / q ≤ n / q) with hlt | heq
    · exact Or.inl hlt
    · refine Or.inr ⟨heq, ?_⟩
      rw [heq] at hm
      generalize q * (n / q) = t at hm hn
      omega
  · rintro (hlt | ⟨heq, hlt⟩)
    · exact Nat.lt_of_div_lt_div hlt
    · rw [heq] at hm
      generalize q * (n / q) = t at hm hn
      omega

theorem UInt8.ofNat_lt_ofNat_iff {x y : ℕ} (hx : x < 256) (hy : y < 256) :
    UInt8.ofNat x < UInt8.ofNat y ↔ x < y := by
  rw [UInt8.lt_iff_toNat_lt, UInt8.toNat_ofNat', UInt8.toNat_ofNat']
  omega

theorem UInt8.ofNat_inj_of_lt {x y : ℕ} (hx : x < 256) (hy : y < 256) :
    UInt8.ofNat x = UInt8.ofNat y ↔ x = y := by
  rw [← UInt8.toNat_inj, UInt8.toNat_ofNat', UInt8.toNat_ofNat']
  omega

/-- Big-endian encodings of one width are ordered as the numbers they encode.  The induction
is on the width: the first byte is the quotient by the weight of the rest. -/
theorem bigEndian_lt_bigEndian_iff : ∀ {w m n : ℕ}, m < 256 ^ w → n < 256 ^ w →
    (bigEndian w m < bigEndian w n ↔ m < n)
  | 0, m, n, hm, hn => by
    simp only [Nat.pow_zero, Nat.lt_one_iff] at hm hn
    simp [bigEndian, hm, hn]
  | w + 1, m, n, hm, hn => by
    have hq : 0 < 256 ^ w := Nat.pow_pos (by decide)
    have hdiv : ∀ k, k < 256 ^ (w + 1) → k / 256 ^ w < 256 := fun k hk =>
      Nat.div_lt_of_lt_mul (by rwa [← Nat.pow_succ])
    rw [bigEndian, bigEndian, List.cons_lt_cons_iff, UInt8.ofNat_lt_ofNat_iff (hdiv m hm) (hdiv n hn),
      UInt8.ofNat_inj_of_lt (hdiv m hm) (hdiv n hn),
      bigEndian_lt_bigEndian_iff (Nat.mod_lt _ hq) (Nat.mod_lt _ hq)]
    exact lt_iff_div_lt_or_mod_lt.symm

theorem bigEndian_inj {w m n : ℕ} (hm : m < 256 ^ w) (hn : n < 256 ^ w) :
    bigEndian w m = bigEndian w n ↔ m = n := by
  refine ⟨fun h => ?_, fun h => h ▸ rfl⟩
  rcases lt_trichotomy m n with hlt | heq | hgt
  · exact absurd (h ▸ (bigEndian_lt_bigEndian_iff hm hn).2 hlt) (List.lt_irrefl _)
  · exact heq
  · exact absurd (h ▸ (bigEndian_lt_bigEndian_iff hn hm).2 hgt) (List.lt_irrefl _)

theorem UInt8.complement_lt_complement_iff {a b : UInt8} : ~~~a < ~~~b ↔ b < a := by
  rw [UInt8.lt_iff_toNat_lt, UInt8.lt_iff_toNat_lt, UInt8.toNat_not, UInt8.toNat_not]
  have ha := a.toNat_lt
  have hb := b.toNat_lt
  simp only [UInt8.size]
  omega

/-- Flipping every bit reverses the order of byte strings of one length. -/
theorem map_complement_lt_iff : ∀ {a b : List UInt8}, a.length = b.length →
    (a.map (~~~ ·) < b.map (~~~ ·) ↔ b < a)
  | [], [], _ => Iff.rfl
  | x :: a, y :: b, h => by
    have ih := map_complement_lt_iff (a := a) (b := b) (by simpa using h)
    simp only [List.map_cons, List.cons_lt_cons_iff, UInt8.complement_lt_complement_iff,
      UInt8.not_inj, ih]
    constructor
    · rintro (hlt | ⟨rfl, hlt⟩)
      · exact Or.inl hlt
      · exact Or.inr ⟨rfl, hlt⟩
    · rintro (hlt | ⟨rfl, hlt⟩)
      · exact Or.inl hlt
      · exact Or.inr ⟨rfl, hlt⟩

end KeyOrder

/-- `binary.PutUvarint` with at most `fuel` bytes: seven bits a byte, least significant
first, the high bit set on every byte but the last. -/
def uvarintAux : ℕ → ℕ → List UInt8
  | 0, _ => []
  | fuel + 1, n =>
    if n < 128 then [UInt8.ofNat n] else UInt8.ofNat (n % 128 + 128) :: uvarintAux fuel (n / 128)

/-- `binary.PutUvarint` of a `uint64`: ten bytes hold any of them. -/
def putUvarint (n : ℕ) : List UInt8 := uvarintAux 10 n

/-- A lower-case hexadecimal digit. -/
def hexDigit (d : ℕ) : Char := if d < 10 then Char.ofNat (48 + d) else Char.ofNat (87 + d)

/-- `fmt`'s `%x` of a byte slice: two lower-case hexadecimal digits a byte. -/
def hexString (bz : List UInt8) : String :=
  String.ofList (bz.flatMap fun b => [hexDigit (b.toNat / 16), hexDigit (b.toNat % 16)])

/-- `fmt`'s `%x` of an unsigned integer: its hexadecimal digits, no leading zeros. -/
def hexNat (n : ℕ) : String := String.ofList (Nat.toDigits 16 n)

/-- The value of a hexadecimal digit of either case, as `encoding/hex` reads it. -/
def hexValue (c : Char) : Option ℕ :=
  if '0' ≤ c ∧ c ≤ '9' then some (c.toNat - 48)
  else if 'a' ≤ c ∧ c ≤ 'f' then some (c.toNat - 87)
  else if 'A' ≤ c ∧ c ≤ 'F' then some (c.toNat - 55)
  else none

/-- `hex.DecodeString`: two digits a byte; a character that is not a digit is an error, and
so is a last digit without its pair. -/
def hexDecode : List Char → Except String (List UInt8)
  | [] => pure []
  | [c] => match hexValue c with
    | none => throw "encoding/hex: invalid byte: %#U"
    | some _ => throw "encoding/hex: odd length hex string"
  | c₁ :: c₂ :: cs => do
    let some hi := hexValue c₁ | throw "encoding/hex: invalid byte: %#U"
    let some lo := hexValue c₂ | throw "encoding/hex: invalid byte: %#U"
    let rest ← hexDecode cs
    pure (UInt8.ofNat (hi * 16 + lo) :: rest)

/-- No lower-case hexadecimal digit is a slash. -/
theorem slash_not_mem_hexString (bz : List UInt8) : '/' ∉ (hexString bz).toList := by
  have hdigit : ∀ d, d < 16 → hexDigit d ≠ '/' := by decide
  simp only [hexString, String.toList_ofList, List.mem_flatMap, List.mem_cons, List.not_mem_nil,
    or_false, not_exists, not_and]
  intro b _ h
  have hb := b.toNat_lt
  rcases h with h | h
  · exact hdigit _ (by omega) h.symm
  · exact hdigit _ (by omega) h.symm

/-- A byte is read back from its two digits. -/
theorem eq_of_hexDigits {a b : UInt8} (hhi : hexDigit (a.toNat / 16) = hexDigit (b.toNat / 16))
    (hlo : hexDigit (a.toNat % 16) = hexDigit (b.toNat % 16)) : a = b := by
  have hinj : ∀ d, d < 16 → ∀ e, e < 16 → hexDigit d = hexDigit e → d = e := by decide
  have ha := a.toNat_lt
  have hb := b.toNat_lt
  have hdiv := hinj _ (by omega) _ (by omega) hhi
  have hmod := hinj _ (by omega) _ (by omega) hlo
  apply UInt8.toNat_inj.1
  rw [← Nat.div_add_mod a.toNat 16, ← Nat.div_add_mod b.toNat 16, hdiv, hmod]

/-- Distinct byte strings have distinct `%x`. -/
theorem hexString_injective : Function.Injective hexString := by
  -- two digits a byte: the digit lists agree byte by byte
  have hdigits : ∀ a b : List UInt8,
      (a.flatMap fun b => [hexDigit (b.toNat / 16), hexDigit (b.toNat % 16)]) =
        (b.flatMap fun b => [hexDigit (b.toNat / 16), hexDigit (b.toNat % 16)]) → a = b := by
    intro a
    induction a with
    | nil => intro b h; cases b <;> simp_all
    | cons x a ih =>
      intro b h
      cases b with
      | nil => simp at h
      | cons y b =>
        simp only [List.flatMap_cons, List.cons_append, List.nil_append, List.cons.injEq] at h
        obtain ⟨hhi, hlo, h⟩ := h
        rw [eq_of_hexDigits hhi hlo, ih b h]
  intro a b h
  exact hdigits a b (by simpa [hexString] using congrArg String.toList h)

/-- `hex.DecodeString` reads back the `%x` of a byte slice. -/
theorem hexDecode_hexString (bz : List UInt8) : hexDecode (hexString bz).toList = .ok bz := by
  have hvalue : ∀ d, d < 16 → hexValue (hexDigit d) = some d := by decide
  rw [hexString, String.toList_ofList]
  induction bz with
  | nil => rfl
  | cons b bz ih =>
    have hb := b.toNat_lt
    have hbyte : UInt8.ofNat (b.toNat / 16 * 16 + b.toNat % 16) = b := by
      apply UInt8.toNat_inj.1
      rw [UInt8.toNat_ofNat']
      omega
    have hhi : b.toNat / 16 < 16 := by omega
    simp only [List.flatMap_cons, List.cons_append, List.nil_append, hexDecode,
      hvalue _ hhi, hvalue _ (Nat.mod_lt _ (by decide)), ih]
    rw [hbyte]
    rfl

/-- `binary.PutUvarint` writes at most as many bytes as it is given. -/
theorem length_uvarintAux_le : ∀ fuel n, (uvarintAux fuel n).length ≤ fuel
  | 0, _ => le_rfl
  | fuel + 1, n => by
    unfold uvarintAux
    split_ifs
    · simp
    · simpa using length_uvarintAux_le fuel (n / 128)

/-- A separator that neither first part has splits two joined lists at the same place. -/
theorem append_cons_cancel_of_not_mem {α : Type*} {a : α} :
    ∀ {x₁ x₂ z₁ z₂ : List α}, a ∉ x₁ → a ∉ x₂ → x₁ ++ a :: z₁ = x₂ ++ a :: z₂ →
      x₁ = x₂ ∧ z₁ = z₂
  | [], [], _, _, _, _, h => ⟨rfl, by simpa using h⟩
  | [], b :: x₂, _, _, _, h₂, h => by
    simp only [List.nil_append, List.cons_append, List.cons.injEq] at h
    exact absurd (h.1 ▸ List.mem_cons_self) h₂
  | b :: x₁, [], _, _, h₁, _, h => by
    simp only [List.nil_append, List.cons_append, List.cons.injEq] at h
    exact absurd (h.1 ▸ List.mem_cons_self) h₁
  | b :: x₁, c :: x₂, _, _, h₁, h₂, h => by
    simp only [List.cons_append, List.cons.injEq] at h
    obtain ⟨rfl, h⟩ := h
    obtain ⟨rfl, rfl⟩ := append_cons_cancel_of_not_mem (List.not_mem_of_not_mem_cons h₁)
      (List.not_mem_of_not_mem_cons h₂) h
    exact ⟨rfl, rfl⟩
