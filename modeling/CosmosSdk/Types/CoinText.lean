import CosmosSdk.Types.CoinSet
import CosmosSdk.Types.Int
import CosmosSdk.App.Address
import Mathlib.Data.List.TakeWhile

/-!
# `sdk.Coins` as text

`Coins.String()` writes each coin as its amount followed by its denomination, and joins them
with commas.  `ParseCoins` trims the text, splits it at the commas, reads each part with
`ParseCoin` (trim with `TrimSpace` of `App.Address`, match `reCoin`, read the amount with `NewIntFromString`, check the
denomination), sorts the coins and checks the set with `IsValid`.

Every canonical set of denominations of the grammar and amounts an `sdk.Int` holds is read
back from its text (`ParseCoins_toString_of_wellFormed`), under a reader of integer text that reads back
decimal text; and whatever `ParseCoins` returns is such a set (`ParseCoins_wellFormed`),
whatever the reader.

`reCoin` is `^([[:digit:]]+)[[:space:]]*([a-z][a-z0-9]{2,15})$`.  What follows the digits of
the amount starts with a space or a letter, so in a match the amount is all the leading digits
and the spaces after them are all skipped: `matchCoin` is that split, when its parts fit.
-/

namespace CosmosSdk

open Coins

/-! ### White space -/

/-- `[[:space:]]` of Go's regular expressions: the ASCII white space. -/
def isSpaceClass (c : Char) : Bool := c ∈ ['\t', '\n', '\x0b', '\x0c', '\r', ' ']

/-- A printable ASCII character is not white space. -/
theorem isSpace_eq_false {c : Char} (h : 33 ≤ c.toNat ∧ c.toNat ≤ 126) : isSpace c = false := by
  unfold isSpace
  rw [if_pos (by omega)]
  simp only [Bool.or_eq_false_iff, beq_eq_false_iff_ne, ne_eq]
  omega

theorem isSpaceClass_eq_false {c : Char} (h : 33 ≤ c.toNat ∧ c.toNat ≤ 126) :
    isSpaceClass c = false := by
  unfold isSpaceClass
  rw [decide_eq_false_iff_not]
  intro hmem
  simp only [List.mem_cons, List.not_mem_nil, or_false] at hmem
  rcases hmem with rfl | rfl | rfl | rfl | rfl | rfl <;> simp at h

/-- Text without white space is left as it is. -/
theorem TrimSpace_of_forall {s : String} (h : ∀ c ∈ s.toList, isSpace c = false) :
    TrimSpace s = s := by
  have hdrop : ∀ l : List Char, (∀ c ∈ l, isSpace c = false) → l.dropWhile isSpace = l :=
    fun l hl => List.dropWhile_eq_self_iff.2 fun hpos => by
      rw [hl _ (List.getElem_mem hpos)]
      decide
  unfold TrimSpace
  rw [hdrop _ h, hdrop _ (fun c hc => h c (List.mem_reverse.1 hc)), List.reverse_reverse,
    String.ofList_toList]

/-! ### The characters of the text -/

theorem toNat_of_isDigit {c : Char} (h : c.isDigit = true) : 48 ≤ c.toNat ∧ c.toNat ≤ 57 := by
  simp only [Char.isDigit, Bool.and_eq_true, decide_eq_true_eq, UInt32.le_iff_toNat_le] at h
  exact h

theorem toNat_of_isLower {c : Char} (h : c.isLower = true) : 97 ≤ c.toNat ∧ c.toNat ≤ 122 := by
  simp only [Char.isLower, Bool.and_eq_true, decide_eq_true_eq, UInt32.le_iff_toNat_le] at h
  exact h

/-- A character of a denomination of the grammar: a lower-case letter or a digit. -/
theorem denomChar_of_validateDenom {denom : String} (h : validateDenom denom = true) :
    ∀ c ∈ denom.toList, c.isLower = true ∨ c.isDigit = true := by
  unfold validateDenom at h
  split at h
  · cases h
  · rename_i c cs hcs
    simp only [Bool.and_eq_true, List.all_eq_true, Bool.or_eq_true, decide_eq_true_eq] at h
    rw [hcs]
    intro x hx
    rcases List.mem_cons.1 hx with rfl | hx
    · exact .inl h.1.1.1
    · exact h.1.1.2 x hx

/-- A denomination of the grammar starts with a lower-case letter. -/
theorem exists_cons_of_validateDenom {denom : String} (h : validateDenom denom = true) :
    ∃ c cs, denom.toList = c :: cs ∧ c.isLower = true := by
  unfold validateDenom at h
  split at h
  · cases h
  · rename_i c cs hcs
    simp only [Bool.and_eq_true] at h
    exact ⟨c, cs, hcs, h.1.1.1⟩

/-- The amount of a positive coin is written as the digits of its value. -/
theorem amount_toString_toList {amount : ℤ} (h : 0 < amount) :
    (ToString.toString amount).toList = Nat.toDigits 10 amount.toNat := by
  obtain ⟨n, rfl⟩ := Int.eq_ofNat_of_zero_le h.le
  exact Decimal.toString_ofNat_toList n

/-- A coin of a positive amount and a denomination of the grammar. -/
def Coin.Valid (coin : Coin) : Prop := validateDenom coin.denom = true ∧ 0 < coin.amount

theorem Coin.toString_toList {coin : Coin} (h : coin.Valid) :
    coin.toString.toList = Nat.toDigits 10 coin.amount.toNat ++ coin.denom.toList := by
  rw [Coin.toString, String.toList_append, amount_toString_toList h.2]

/-- The text of a coin holds digits and lower-case letters: printable ASCII, neither a comma
nor white space. -/
theorem Coin.ascii_of_mem_toString {coin : Coin} (h : coin.Valid) :
    ∀ c ∈ coin.toString.toList, 48 ≤ c.toNat ∧ c.toNat ≤ 122 := by
  rw [Coin.toString_toList h]
  intro c hc
  rcases List.mem_append.1 hc with hc | hc
  · have := toNat_of_isDigit (Decimal.isDigit_of_mem_toDigits c hc)
    omega
  · rcases denomChar_of_validateDenom h.1 c hc with hlower | hdigit
    · have := toNat_of_isLower hlower
      omega
    · have := toNat_of_isDigit hdigit
      omega

theorem Coin.comma_not_mem_toString {coin : Coin} (h : coin.Valid) : ',' ∉ coin.toString.toList :=
  fun hc => by
    have := Coin.ascii_of_mem_toString h ',' hc
    simp at this

/-! ### Parsing -/

/-- `reCoin.FindStringSubmatch`: the amount and the denomination of a match, `none` for `nil`. -/
def matchCoin (s : List Char) : Option (String × String) :=
  let amountStr := s.takeWhile Char.isDigit
  let denomStr := (s.dropWhile Char.isDigit).dropWhile isSpaceClass
  if amountStr ≠ [] ∧ validateDenom (String.ofList denomStr) = true then
    some (String.ofList amountStr, String.ofList denomStr)
  else none

/-- `ParseCoin`: an error is `.inl`, a panic of `sdk.NewCoin` is `.inr`. -/
def ParseCoin (text : BigIntText) (coinStr : String) : Except (String ⊕ Panic) Coin := do
  let coinStr := TrimSpace coinStr
  let some (amountStr, denomStr) := matchCoin coinStr.toList
    | throw (.inl ("invalid coin expression: " ++ coinStr))
  let some amount := NewIntFromString text amountStr
    | throw (.inl ("failed to parse coin amount: " ++ amountStr))
  if validateDenom denomStr = false then
    throw (.inl ("invalid denom cannot contain upper case characters or spaces: " ++
      "invalid denom: " ++ denomStr))
  (do mustValidateDenom denomStr; Coin.NewCoin denomStr amount.i).mapError .inr

/-- `ParseCoins`.  The `%#v` of its last error, Go syntax with pointers, is stood for by the
text of the coins. -/
def ParseCoins (text : BigIntText) (coinsStr : String) : Except (String ⊕ Panic) Coins := do
  let coinsStr := TrimSpace coinsStr
  if coinsStr = "" then return []
  let coinStrs := coinsStr.toList.splitOn ','
  let coins ← coinStrs.mapM fun coinStr => ParseCoin text (String.ofList coinStr)
  -- sort coins for determinism
  let coins := Coins.sort coins
  -- validate coins before returning
  if Coins.IsValid coins = false then throw (.inl ("parseCoins invalid: " ++ Coins.toString coins))
  pure coins

/-- What `ParseCoins` returns: a canonical set whose denominations match the grammar and whose
amounts an `sdk.Int` holds. -/
structure WellFormed (coins : Coins) : Prop where
  canonical : Canonical coins
  denoms : ∀ c ∈ coins, validateDenom c.denom = true
  amounts : ∀ c ∈ coins, c.amount < 2 ^ maxBitLen

instance : DecidablePred WellFormed := fun coins =>
  decidable_of_iff (Canonical coins ∧ (∀ c ∈ coins, validateDenom c.denom = true) ∧
      ∀ c ∈ coins, c.amount < 2 ^ maxBitLen)
    ⟨fun ⟨h₁, h₂, h₃⟩ => ⟨h₁, h₂, h₃⟩, fun ⟨h₁, h₂, h₃⟩ => ⟨h₁, h₂, h₃⟩⟩

theorem WellFormed.valid {coins : Coins} (h : WellFormed coins) : ∀ c ∈ coins, c.Valid :=
  fun c hc => ⟨h.denoms c hc, h.canonical.pos c hc⟩

/-! ### Reading the text back -/

/-- The digits of the amount and a denomination of the grammar split back into the two. -/
theorem matchCoin_digits_append {ds : List Char} {denom : String} (hne : ds ≠ [])
    (hds : ∀ c ∈ ds, c.isDigit = true) (hdenom : validateDenom denom = true) :
    matchCoin (ds ++ denom.toList) = some (String.ofList ds, denom) := by
  obtain ⟨c, cs, hcs, hc⟩ := exists_cons_of_validateDenom hdenom
  have hcdigit : c.isDigit = false := by
    have := toNat_of_isLower hc
    rw [Bool.eq_false_iff]
    intro hd
    have := toNat_of_isDigit hd
    omega
  have htake : (ds ++ denom.toList).takeWhile Char.isDigit = ds := by
    rw [List.takeWhile_append_of_pos hds, hcs, List.takeWhile_cons_of_neg (by simp [hcdigit]),
      List.append_nil]
  have hdrop : (ds ++ denom.toList).dropWhile Char.isDigit = denom.toList := by
    rw [List.dropWhile_append, if_pos (List.isEmpty_iff.2 (List.dropWhile_eq_nil_iff.2 hds)), hcs,
      List.dropWhile_cons_of_neg (by simp [hcdigit])]
  have hspace : denom.toList.dropWhile isSpaceClass = denom.toList := by
    rw [hcs, List.dropWhile_cons_of_neg]
    rw [isSpaceClass_eq_false (by have := toNat_of_isLower hc; omega)]
    decide
  unfold matchCoin
  simp only [htake, hdrop, hspace, String.ofList_toList, if_pos (And.intro hne hdenom)]

/-- A coin of a positive amount in range and a denomination of the grammar is read back from
its text. -/
theorem ParseCoin_toString {text : BigIntText} (htext : text.Lawful) {coin : Coin}
    (h : coin.Valid) (hlt : coin.amount < 2 ^ maxBitLen) :
    ParseCoin text coin.toString = .ok coin := by
  have htrim : TrimSpace coin.toString = coin.toString :=
    TrimSpace_of_forall fun c hc => isSpace_eq_false (by
      have := Coin.ascii_of_mem_toString h c hc
      omega)
  have hmatch : matchCoin coin.toString.toList =
      some (String.ofList (Nat.toDigits 10 coin.amount.toNat), coin.denom) := by
    rw [Coin.toString_toList h]
    exact matchCoin_digits_append Nat.toDigits_ne_nil Decimal.isDigit_of_mem_toDigits h.1
  have hamount : String.ofList (Nat.toDigits 10 coin.amount.toNat) =
      ToString.toString coin.amount := by
    rw [← amount_toString_toList h.2, String.ofList_toList]
  have hbits : ¬BitLen coin.amount > maxBitLen :=
    not_lt.2 (BitLen_le_iff.2 (by rw [abs_of_pos h.2]; exact hlt))
  have hread : NewIntFromString text (ToString.toString coin.amount) =
      some ⟨coin.amount, Nat.le_of_not_lt hbits⟩ := by
    simp only [NewIntFromString, htext coin.amount, Option.bind_eq_bind, Option.bind_some,
      dif_neg hbits]
  unfold ParseCoin
  simp only [htrim, hmatch, hamount, hread, h.1, mustValidateDenom, Coin.NewCoin,
    not_lt.2 h.2.le]
  rfl

/-- The text of a set of coins splits at its commas into the texts of the coins. -/
theorem splitOn_toString {coins : Coins} (hne : coins ≠ []) (h : ∀ c ∈ coins, c.Valid) :
    coins.toString.toList.splitOn ',' = coins.map fun c => c.toString.toList := by
  rw [Coins.toString, String.toList_intercalate, List.map_map]
  apply List.splitOn_intercalate
  · simp only [List.mem_map, Function.comp_apply]
    rintro _ ⟨c, hc, rfl⟩
    exact Coin.comma_not_mem_toString (h c hc)
  · simpa using hne

/-- The text of a set of valid coins is printable ASCII: the coins' digits and letters, and
commas. -/
theorem Coins.ascii_of_mem_toString {coins : Coins} (h : ∀ c ∈ coins, c.Valid) :
    ∀ a ∈ coins.toString.toList, 33 ≤ a.toNat ∧ a.toNat ≤ 126 := by
  rw [Coins.toString, String.toList_intercalate, List.map_map, show ",".toList = [','] from rfl]
  refine Decimal.forall_mem_intercalate (by decide) ?_
  intro l hl a ha
  obtain ⟨coin, hcoin, rfl⟩ := List.mem_map.1 hl
  have := Coin.ascii_of_mem_toString (h coin hcoin) a ha
  omega

/-- What a coin that `ParseCoin` returns holds: a denomination of the grammar and an amount an
`sdk.Int` holds. -/
theorem ParseCoin_spec {text : BigIntText} {s : String} {coin : Coin}
    (h : ParseCoin text s = .ok coin) :
    validateDenom coin.denom = true ∧ coin.amount < 2 ^ maxBitLen := by
  unfold ParseCoin at h
  dsimp only at h
  split at h
  · rename_i amountStr denomStr _
    split at h
    · rename_i amount _
      -- past the check of the denomination, the coin is `NewCoin`'s
      have hnew : (do mustValidateDenom denomStr; Coin.NewCoin denomStr amount.i) = .ok coin := by
        split_ifs at h with hbad
        · cases h
        · exact Except.mapError_eq_ok.1 h
      obtain ⟨_, hvalid, hcoin⟩ := Except.bind_eq_ok.1 hnew
      have hdenom : validateDenom denomStr = true := by
        unfold mustValidateDenom at hvalid
        split_ifs at hvalid with hd
        exact hd
      unfold Coin.NewCoin at hcoin
      split_ifs at hcoin
      cases hcoin
      exact ⟨hdenom, lt_of_abs_lt amount.abs_lt⟩
    · cases h
  · cases h

theorem ParseCoins_toString_of_wellFormed {text : BigIntText} (htext : text.Lawful)
    {coins : Coins} (h : WellFormed coins) : ParseCoins text coins.toString = .ok coins := by
  cases coins with
  | nil => rfl
  | cons c cs =>
    have hvalid := h.valid
    have htrim : TrimSpace (Coins.toString (c :: cs)) = Coins.toString (c :: cs) :=
      TrimSpace_of_forall fun a ha => isSpace_eq_false (Coins.ascii_of_mem_toString hvalid a ha)
    have hsplit := splitOn_toString (List.cons_ne_nil c cs) hvalid
    have hne : Coins.toString (c :: cs) ≠ "" := by
      intro hempty
      rw [hempty, List.map_cons] at hsplit
      have hc : c.toString.toList = [] := (List.cons.inj hsplit).1.symm
      rw [Coin.toString_toList (hvalid c List.mem_cons_self)] at hc
      exact Nat.toDigits_ne_nil (List.append_eq_nil_iff.1 hc).1
    have hparse : ∀ coin ∈ c :: cs, ParseCoin text (String.ofList coin.toString.toList) = .ok coin :=
      fun coin hcoin => by
        rw [String.ofList_toList]
        exact ParseCoin_toString htext (hvalid coin hcoin) (h.amounts coin hcoin)
    have hmapM := Except.mapM_map_eq_ok (f := fun coinStr => ParseCoin text (String.ofList coinStr))
      (t := fun c => c.toString.toList) hparse
    unfold ParseCoins
    simp only [htrim, if_neg hne, hsplit]
    rw [hmapM, Except.ok_bind, sort_eq_self h.canonical.sorted,
      IsValid_of_canonical h.canonical h.denoms]
    rfl

/-- Whatever `ParseCoins` returns is well formed, whatever the reader of integer text. -/
theorem ParseCoins_wellFormed {text : BigIntText} {s : String} {coins : Coins}
    (h : ParseCoins text s = .ok coins) : WellFormed coins := by
  unfold ParseCoins at h
  dsimp only at h
  split_ifs at h with hempty
  · -- nothing to parse: no coins
    cases h
    exact ⟨⟨List.Pairwise.nil, by simp⟩, by simp, by simp⟩
  · obtain ⟨parsed, hparsed, h⟩ := Except.bind_eq_ok.1 h
    -- each coin of the sorted list was returned by `ParseCoin` for one of the parts
    have hcoin : ∀ c ∈ Coins.sort parsed,
        validateDenom c.denom = true ∧ c.amount < 2 ^ maxBitLen := fun c hc => by
      obtain ⟨str, -, hstr⟩ :=
        Except.mem_of_mapM_eq_ok hparsed c ((List.mergeSort_perm _ _).mem_iff.1 hc)
      exact ParseCoin_spec hstr
    split_ifs at h with hinvalid
    · simp at h
    · cases h
      exact ⟨Canonical.of_IsValid (by simpa using hinvalid), fun c hc => (hcoin c hc).1,
        fun c hc => (hcoin c hc).2⟩

theorem ParseCoins_toString_round_trip :
    (∀ text : BigIntText, text.Lawful → ∀ coins : Coins, WellFormed coins →
        ParseCoins text (Coins.toString coins) = .ok coins) ∧
      ∀ (text : BigIntText) (s : String) (coins : Coins), ParseCoins text s = .ok coins →
        WellFormed coins :=
  ⟨fun _ htext _ h => ParseCoins_toString_of_wellFormed htext h,
    fun _ _ _ h => ParseCoins_wellFormed h⟩

theorem ParseCoins_toString_round_trip_atom_btc :
    ParseCoins BigIntText.base10 (Coins.toString [⟨"atom", 1⟩, ⟨"btc", 2⟩]) =
      .ok [⟨"atom", 1⟩, ⟨"btc", 2⟩] :=
  ParseCoins_toString_round_trip.1 _ BigIntText.base10_lawful _ (by decide)

end CosmosSdk
