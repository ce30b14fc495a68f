import CosmosSdk.Lib.ByteOrder

/-!
# Fixed-width decimal fields

Text that writes numbers as decimal digits of a fixed width, each after a fixed literal, is
ordered byte by byte as its numbers are, field by field; this is what makes such text usable
as a sortable key.

* `digitByte`, `IsDigitByte`: the ASCII byte of a digit, and the test `'0' <= c && c <= '9'`;
* `lowDigits w n`: the `w` low decimal digits of `n`, most significant first, filled from the
  last as a formatter fills its buffer;
* `digitsFrom x l`: the value of digit bytes, accumulated into `x` as a parser does;
* `fixedFields fs vs`: the numbers `vs` in the fields `fs` (literal, width); `FitsFields` says
  that each number has at most its field's digits.

`lowDigits_lt_lowDigits` and `fixedFields_lt_fixedFields` give the order; `digitsFrom_lowDigits`
reads a field back.
-/

namespace FixedWidth

/-- The ASCII byte of the decimal digit `d`. -/
def digitByte (d : ℕ) : UInt8 := d.digitChar.toUInt8

/-- Whether a byte is a decimal digit. -/
def IsDigitByte (c : UInt8) : Bool := 48 ≤ c && c ≤ 57

/-- The `w` low decimal digits of `n`, most significant first. -/
def lowDigits : ℕ → ℕ → List UInt8
  | 0, _ => []
  | w + 1, n => lowDigits w (n / 10) ++ [digitByte (n % 10)]

/-- The value of the digit bytes `l`, accumulated into `x`. -/
def digitsFrom (x : ℕ) (l : List UInt8) : ℕ := l.foldl (fun x c => x * 10 + (c.toNat - 48)) x

/-- The numbers `vs`, each in decimal digits of its field's width after its field's literal. -/
def fixedFields : List (List UInt8 × ℕ) → List ℕ → List UInt8
  | (p, w) :: fs, v :: vs => p ++ lowDigits w v ++ fixedFields fs vs
  | _, _ => []

/-- One number for each field, with at most the field's digits. -/
def FitsFields : List (List UInt8 × ℕ) → List ℕ → Prop
  | (_, w) :: fs, v :: vs => v < 10 ^ w ∧ FitsFields fs vs
  | [], [] => True
  | _, _ => False

/-! ### Digits -/

theorem toNat_digitByte {d : ℕ} (h : d < 10) : (digitByte d).toNat = 48 + d := by
  have hchar := Nat.toNat_digitChar_of_lt_ten h
  show d.digitChar.val.toNat % 2 ^ 8 = 48 + d
  rw [← Char.toNat_val] at hchar
  omega

theorem isDigitByte_digitByte {d : ℕ} (h : d < 10) : IsDigitByte (digitByte d) = true := by
  have h48 : (48 : UInt8).toNat = 48 := by decide
  have h57 : (57 : UInt8).toNat = 57 := by decide
  simp only [IsDigitByte, Bool.and_eq_true, decide_eq_true_eq, UInt8.le_iff_toNat_le,
    toNat_digitByte h, h48, h57]
  omega

theorem digitByte_lt_digitByte {a b : ℕ} (hab : a < b) (hb : b < 10) : digitByte a < digitByte b := by
  rw [UInt8.lt_iff_toNat_lt, toNat_digitByte (by omega), toNat_digitByte hb]
  omega

@[simp] theorem length_lowDigits (w n : ℕ) : (lowDigits w n).length = w := by
  induction w generalizing n with
  | zero => rfl
  | succ w ih => simp [lowDigits, ih]

theorem lowDigits_succ (w n : ℕ) :
    lowDigits (w + 1) n = lowDigits w (n / 10) ++ [digitByte (n % 10)] := rfl

/-- Zero is written as zeros. -/
theorem lowDigits_zero (w : ℕ) : lowDigits w 0 = List.replicate w (digitByte 0) := by
  induction w with
  | zero => rfl
  | succ w ih => rw [lowDigits_succ, Nat.zero_div, Nat.zero_mod, ih, List.replicate_succ']

theorem isDigitByte_of_mem_lowDigits : ∀ {w n : ℕ}, ∀ c ∈ lowDigits w n, IsDigitByte c = true
  | 0, _, _, h => by simp [lowDigits] at h
  | w + 1, n, c, h => by
    rw [lowDigits_succ, List.mem_append, List.mem_singleton] at h
    rcases h with h | rfl
    · exact isDigitByte_of_mem_lowDigits c h
    · exact isDigitByte_digitByte (Nat.mod_lt n (by decide))

/-- Digits of a fixed width are ordered as the numbers they write. -/
theorem lowDigits_lt_lowDigits : ∀ {w m n : ℕ}, m < n → n < 10 ^ w → lowDigits w m < lowDigits w n
  | 0, m, n, hmn, hn => by simp at hn; omega
  | w + 1, m, n, hmn, hn => by
    rw [lowDigits_succ, lowDigits_succ,
      append_lt_append_iff_of_length_eq _ _ (by rw [length_lowDigits, length_lowDigits])]
    -- the higher digits decide, or the last one when they agree
    rcases (lt_iff_div_lt_or_mod_lt (q := 10)).1 hmn with hdiv | ⟨hdiv, hmod⟩
    · left
      exact lowDigits_lt_lowDigits hdiv (by rw [Nat.pow_succ] at hn; omega)
    · right
      refine ⟨by rw [hdiv], ?_⟩
      rw [List.cons_lt_cons_iff]
      exact .inl (digitByte_lt_digitByte hmod (Nat.mod_lt n (by decide)))

theorem digitsFrom_append_singleton (x : ℕ) (l : List UInt8) (c : UInt8) :
    digitsFrom x (l ++ [c]) = digitsFrom x l * 10 + (c.toNat - 48) := by
  simp [digitsFrom]

/-- Reading the `w` low digits of `n` back gives `n` modulo `10 ^ w`. -/
theorem digitsFrom_lowDigits (w n : ℕ) : digitsFrom 0 (lowDigits w n) = n % 10 ^ w := by
  induction w generalizing n with
  | zero => simp [lowDigits, digitsFrom, Nat.mod_one]
  | succ w ih =>
    rw [lowDigits_succ, digitsFrom_append_singleton, ih, toNat_digitByte (Nat.mod_lt n (by decide)),
      Nat.pow_succ, Nat.mul_comm (10 ^ w) 10, Nat.mod_mul]
    omega

/-! ### Fields -/

/-- Numbers that fit their fields are ordered as their text: the first field that differs
decides. -/
theorem fixedFields_lt_fixedFields :
    ∀ {fs : List (List UInt8 × ℕ)} {vs₁ vs₂ : List ℕ}, FitsFields fs vs₁ → FitsFields fs vs₂ →
      vs₁ < vs₂ → fixedFields fs vs₁ < fixedFields fs vs₂
  | [], [], [], _, _, hlt => absurd hlt (List.lt_irrefl [])
  | (p, w) :: fs, v₁ :: vs₁, v₂ :: vs₂, ⟨_, hfit₁⟩, ⟨hv₂, hfit₂⟩, hlt => by
    simp only [fixedFields, List.append_assoc]
    rw [append_lt_append_iff_of_length_eq _ _ rfl,
      append_lt_append_iff_of_length_eq _ _ (by rw [length_lowDigits, length_lowDigits])]
    rcases List.cons_lt_cons_iff.1 hlt with hv | ⟨rfl, hrest⟩
    · exact .inr ⟨rfl, .inl (lowDigits_lt_lowDigits hv hv₂)⟩
    · exact .inr ⟨rfl, .inr ⟨rfl, fixedFields_lt_fixedFields hfit₁ hfit₂ hrest⟩⟩

/-- Nonnegative integers keep their order as natural numbers, list by list. -/
theorem map_toNat_lt_map_toNat : ∀ {l₁ l₂ : List ℤ}, (∀ x ∈ l₁, 0 ≤ x) → l₁ < l₂ →
    l₁.map Int.toNat < l₂.map Int.toNat
  | [], [], _, h => absurd h (List.lt_irrefl [])
  | [], _ :: _, _, _ => List.nil_lt_cons _ _
  | _ :: _, [], _, h => absurd h (List.not_lt_nil _)
  | a :: l₁, b :: l₂, h0, h => by
    rw [List.map_cons, List.map_cons, List.cons_lt_cons_iff]
    rcases List.cons_lt_cons_iff.1 h with hab | ⟨rfl, hl⟩
    · have ha := h0 a List.mem_cons_self
      exact .inl (by omega)
    · exact .inr ⟨rfl, map_toNat_lt_map_toNat (fun x hx => h0 x (List.mem_cons_of_mem a hx)) hl⟩

end FixedWidth
