import Mathlib.Data.List.Basic
import Mathlib.Data.Nat.Digits.Defs
import Mathlib.Data.String.Basic

/-!
# Decimal text

Numbers printed and parsed as decimal digits, as Go's `strconv`, `math/big` and `fmt` do.
Core Lean gives the digits of a number (`Nat.toDigits 10`) and the value of a digit list
(`Nat.ofDigitChars 10`), and that one inverts the other (`Nat.ofDigitChars_ten_toDigits`).
This file adds what a parser of such text needs: leading zeros add nothing
(`ofDigitChars_replicate_zero_append`), an integer's text is a sign and the digits of its
magnitude (`toString_negSucc_toList`), a digit is one byte of UTF-8 (`utf8Len_of_isDigit`), and
a separator that is not a digit splits printed text back into its parts
(`splitOn_append_cons`, `splitOn_of_not_mem`), and what joined text holds is the separator's
or a part's (`forall_mem_intercalate`).
-/

namespace Decimal

/-- A decimal digit is one byte of UTF-8. -/
theorem utf8Size_of_isDigit {c : Char} (h : c.isDigit = true) : c.utf8Size = 1 := by
  simp only [Char.isDigit, Bool.and_eq_true, decide_eq_true_eq] at h
  unfold Char.utf8Size
  rw [if_pos]
  exact UInt32.le_trans h.2 (by decide)

/-- Decimal text has as many bytes as characters. -/
theorem utf8Len_of_isDigit : ∀ {l : List Char}, (∀ c ∈ l, c.isDigit = true) → String.utf8Len l = l.length
  | [], _ => rfl
  | c :: l, h => by
    rw [String.utf8Len_cons, utf8Size_of_isDigit (h c List.mem_cons_self),
      utf8Len_of_isDigit fun d hd => h d (List.mem_cons_of_mem _ hd), List.length_cons]

/-- Text with a character has a byte. -/
theorem utf8Len_pos {l : List Char} (h : l ≠ []) : 0 < String.utf8Len l := by
  obtain ⟨c, cs, rfl⟩ := List.exists_cons_of_ne_nil h
  rw [String.utf8Len_cons]
  have := Char.utf8Size_pos c
  omega

/-- A character that is not a digit does not occur in decimal text. -/
theorem not_mem_of_isDigit {l : List Char} {x : Char} (hx : x.isDigit = false)
    (h : ∀ c ∈ l, c.isDigit = true) : x ∉ l := fun hmem => by
  rw [h x hmem] at hx
  cases hx

/-- The digits of a number are decimal digits. -/
theorem isDigit_of_mem_toDigits {n : ℕ} : ∀ c ∈ Nat.toDigits 10 n, c.isDigit = true :=
  fun _ hc => Nat.isDigit_of_mem_toDigits (by decide) (by decide) hc

/-- The text of a nonnegative integer is the digits of its value. -/
theorem toString_ofNat_toList (n : ℕ) :
    (ToString.toString (Int.ofNat n)).toList = Nat.toDigits 10 n := by
  show (Nat.repr n).toList = _
  rw [Nat.repr, String.toList_ofList]

/-- The text of a negative integer is a minus sign and the digits of its magnitude. -/
theorem toString_negSucc_toList (n : ℕ) :
    (ToString.toString (Int.negSucc n)).toList = '-' :: Nat.toDigits 10 (n + 1) := by
  show ("-" ++ Nat.repr (n + 1)).toList = _
  simp only [String.toList_append, Nat.repr, String.toList_ofList]
  rfl

/-- Leading zeros add nothing to the value of decimal text. -/
theorem ofDigitChars_replicate_zero_append (k : ℕ) (ds : List Char) :
    Nat.ofDigitChars 10 (List.replicate k '0' ++ ds) 0 = Nat.ofDigitChars 10 ds 0 := by
  induction k with
  | zero => rfl
  | succ k ih =>
    rw [List.replicate_succ, List.cons_append, Nat.ofDigitChars_cons]
    exact ih

/-- A separator that occurs in neither part splits two joined parts back. -/
theorem splitOn_append_cons {α : Type*} [BEq α] [LawfulBEq α] {a b : List α} {x : α}
    (ha : x ∉ a) (hb : x ∉ b) : (a ++ x :: b).splitOn x = [a, b] := by
  have hsplit := @List.splitOn_intercalate α [a, b] _ _ x (by simp [ha, hb]) (by simp)
  simpa using hsplit

/-- A separator that does not occur leaves a list whole. -/
theorem splitOn_of_not_mem {α : Type*} [BEq α] [LawfulBEq α] {a : List α} {x : α} (ha : x ∉ a) :
    a.splitOn x = [a] := by
  have hsplit := @List.splitOn_intercalate α [a] _ _ x (by simp [ha]) (by simp)
  simpa using hsplit

/-- Every element of lists joined by a separator is the separator or an element of a part. -/
theorem forall_mem_intercalate {α : Type*} {p : α → Prop} {x : α} (hx : p x) :
    ∀ {ls : List (List α)}, (∀ l ∈ ls, ∀ a ∈ l, p a) → ∀ a ∈ [x].intercalate ls, p a
  | [], _ => by simp
  | [l], h => by simpa using h l List.mem_cons_self
  | l :: l' :: ls, h => by
    rw [List.intercalate_cons_cons]
    intro a ha
    simp only [List.mem_append, List.mem_singleton] at ha
    rcases ha with (ha | rfl) | ha
    · exact h l List.mem_cons_self a ha
    · exact hx
    · exact forall_mem_intercalate hx (fun m hm => h m (List.mem_cons_of_mem l hm)) a ha

end Decimal
