import CosmosSdk.Types.Coins
import Mathlib.Data.String.Basic
import Mathlib.Algebra.BigOperators.Group.List.Basic

/-!
# What a set of coins stands for

A list of coins stands for the amount it holds of each denomination: the sum of the amounts
of its coins of that denomination (`amount`).  On this reading, whatever the lists:

* `safeAdd` adds the amounts (`amount_safeAdd`) and `negative` negates them, so `SafeSub`
  and `Sub` subtract (`amount_SafeSub`, `amount_Sub`);
* the merge of `safeAdd` keeps two sorted sets sorted (`sorted_safeAdd`), and never keeps a
  zero amount (`amount_ne_zero_of_mem_safeAdd`);
* on a sorted set the binary search of `AmountOf` returns the amount (`AmountOf_eq_amount`).
-/

namespace CosmosSdk.Coins

/-- The amount of `denom` the coins hold: the sum of the amounts of their coins of that
denomination. -/
def amount (coins : Coins) (denom : String) : ℤ :=
  ((coins.filter fun c => c.denom = denom).map Coin.amount).sum

/-! ### Amounts -/

section Amount

variable (denom : String)

@[simp] theorem amount_nil : amount [] denom = 0 := rfl

@[simp] theorem amount_cons (c : Coin) (coins : Coins) :
    amount (c :: coins) denom = (if c.denom = denom then c.amount else 0) + amount coins denom := by
  by_cases h : c.denom = denom <;> simp [amount, h]

@[simp] theorem amount_append (l₁ l₂ : Coins) :
    amount (l₁ ++ l₂) denom = amount l₁ denom + amount l₂ denom := by
  simp [amount]

@[simp] theorem amount_keep (c : Coin) :
    amount (keep c) denom = if c.denom = denom then c.amount else 0 := by
  unfold keep
  split_ifs with hz hd <;> simp_all

theorem removeZeroCoins_cons (c : Coin) (coins : Coins) :
    removeZeroCoins (c :: coins) = keep c ++ removeZeroCoins coins := by
  unfold removeZeroCoins keep
  by_cases hz : c.IsZero <;> simp [hz]

@[simp] theorem amount_removeZeroCoins (coins : Coins) :
    amount (removeZeroCoins coins) denom = amount coins denom := by
  induction coins with
  | nil => rfl
  | cons c coins ih => rw [removeZeroCoins_cons, amount_append, amount_keep, ih, amount_cons]

/-- One round of the merge, when the rest of the merge adds `restAmount` to the amount of the
list it is given. -/
theorem amount_addInto (coinA : Coin) (rest : Coins → Coins) (restAmount : ℤ)
    (hrest : ∀ l, amount (rest l) denom = restAmount + amount l denom) :
    ∀ l, amount (addInto coinA rest l) denom =
      (if coinA.denom = denom then coinA.amount else 0) + restAmount + amount l denom
  | [] => by simp [addInto, hrest]
  | coinB :: coinsB => by
    unfold addInto
    split
    · -- `coinA` goes first
      rw [amount_append, amount_keep, hrest, add_assoc]
    · -- one denomination: the two amounts are added
      rename_i heq
      have hAB : coinA.denom = coinB.denom := compare_eq_iff_eq.1 heq
      rw [amount_append, amount_keep, hrest, amount_cons]
      simp only [Coin.Add, hAB]
      split_ifs <;> omega
    · -- `coinB` goes first
      rw [amount_append, amount_keep, amount_addInto coinA rest restAmount hrest coinsB,
        amount_cons]
      omega

@[simp] theorem amount_safeAdd :
    ∀ a b : Coins, amount (safeAdd a b) denom = amount a denom + amount b denom
  | [], b => by simp [safeAdd]
  | coinA :: coins, b => by
    rw [safeAdd, amount_addInto denom coinA (safeAdd coins) (amount coins denom)
      (fun l => amount_safeAdd coins l), amount_cons, add_assoc]

@[simp] theorem amount_Add (a b : Coins) : amount (a.Add b) denom = amount a denom + amount b denom :=
  amount_safeAdd denom a b

@[simp] theorem amount_negative (coins : Coins) :
    amount coins.negative denom = -amount coins denom := by
  induction coins with
  | nil => rfl
  | cons c coins ih =>
    simp only [negative, List.map_cons, amount_cons] at ih ⊢
    rw [ih]
    split_ifs <;> omega

@[simp] theorem amount_SafeSub (a b : Coins) :
    amount (a.SafeSub b).1 denom = amount a denom - amount b denom := by
  simp [SafeSub, sub_eq_add_neg]

theorem amount_perm {a b : Coins} (h : a.Perm b) : amount a denom = amount b denom :=
  ((h.filter _).map _).sum_eq

@[simp] theorem amount_sort (coins : Coins) : amount coins.sort denom = amount coins denom :=
  amount_perm denom (List.mergeSort_perm _ _)

/-- Coins none of which is negative hold a nonnegative amount of each denomination. -/
theorem amount_nonneg {coins : Coins} (h : coins.IsAnyNegative = false) : 0 ≤ amount coins denom := by
  induction coins with
  | nil => simp
  | cons c coins ih =>
    simp only [IsAnyNegative, List.any_cons, Bool.or_eq_false_iff, Coin.IsNegative,
      decide_eq_false_iff_not, Int.not_lt] at h
    rw [amount_cons]
    have hrest := ih h.2
    split_ifs <;> omega

/-- Zero coins hold nothing of any denomination. -/
theorem amount_eq_zero_of_IsZero {coins : Coins} (h : coins.IsZero = true) : amount coins denom = 0 := by
  induction coins with
  | nil => simp
  | cons c coins ih =>
    simp only [IsZero, List.all_cons, Bool.and_eq_true, Coin.IsZero, beq_iff_eq] at h
    rw [amount_cons, ih h.2, h.1]
    simp

end Amount

/-! ### Equality -/

/-- The loop of `IsEqual` returns true on two lists of one length only when they are equal. -/
theorem IsEqual.eq_of_go : ∀ {a b : Coins}, a.length = b.length → IsEqual.go a b = .ok true → a = b
  | [], [], _, _ => rfl
  | c :: cs, c' :: cs', hlen, h => by
    unfold IsEqual.go at h
    unfold Coin.IsEqual at h
    by_cases hd : c.denom = c'.denom
    · by_cases ha : c.amount = c'.amount
      · simp only [hd, ne_eq, not_true_eq_false, if_false, ha, beq_self_eq_true] at h
        have hcs := IsEqual.eq_of_go (by simpa using hlen) h
        cases c
        cases c'
        simp_all
      · have hne : (c.amount == c'.amount) = false := beq_false_of_ne ha
        simp [hd, hne, pure, Except.pure, bind, Except.bind] at h
    · simp [hd, throw, throwThe, MonadExceptOf.throw, bind, Except.bind] at h

/-- Coins `IsEqual` to each other hold the same amount of every denomination. -/
theorem amount_eq_of_IsEqual {a b : Coins} (h : a.IsEqual b = .ok true) (denom : String) :
    amount a denom = amount b denom := by
  unfold IsEqual at h
  split_ifs at h with hlen
  · cases h
  · have hsort : a.sort = b.sort := IsEqual.eq_of_go (by simpa [sort] using hlen) h
    rw [← amount_sort denom a, hsort, amount_sort]

/-! ### Signs -/

@[simp] theorem IsAnyNegative_eq_false {coins : Coins} :
    coins.IsAnyNegative = false ↔ ∀ c ∈ coins, 0 ≤ c.amount := by
  simp [IsAnyNegative, Coin.IsNegative]

/-- `Sub` returns when no amount of the difference is negative. -/
theorem Sub_eq_ok {a b c : Coins} :
    a.Sub b = .ok c ↔ (a.SafeSub b).1 = c ∧ ∀ x ∈ c, 0 ≤ x.amount := by
  unfold Sub SafeSub
  by_cases h : (a.safeAdd b.negative).IsAnyNegative = true
  · simp only [h, if_true]
    constructor
    · intro h'
      cases h'
    · rintro ⟨rfl, hc⟩
      simp [IsAnyNegative_eq_false.2 hc] at h
  · simp only [h, Bool.false_eq_true, if_false]
    rw [Bool.not_eq_true] at h
    constructor
    · intro h'
      cases h'
      exact ⟨rfl, IsAnyNegative_eq_false.1 h⟩
    · rintro ⟨rfl, -⟩
      rfl

theorem amount_Sub (denom : String) {a b c : Coins} (h : a.Sub b = .ok c) :
    amount c denom = amount a denom - amount b denom := by
  obtain ⟨rfl, -⟩ := Sub_eq_ok.1 h
  exact amount_SafeSub denom a b

/-- No coin the merge keeps has a zero amount. -/
theorem amount_ne_zero_of_mem_safeAdd :
    ∀ {a b : Coins} {c : Coin}, c ∈ safeAdd a b → c.amount ≠ 0
  | [], b, c, h => by
    simp only [safeAdd, removeZeroCoins, List.mem_filter, Bool.not_eq_true'] at h
    intro hz
    simp [(Coin.IsZero_iff c).2 hz] at h
  | coinA :: coins, b, c, h => by
    rw [safeAdd] at h
    exact mem_addInto h
where
  /-- The round of `coinA`, over the second list. -/
  mem_addInto {coinA : Coin} {coins : Coins} :
      ∀ {l : Coins} {c : Coin}, c ∈ addInto coinA (safeAdd coins) l → c.amount ≠ 0
    | [], c, h => by
      simp only [addInto, List.mem_append] at h
      rcases h with h | h
      · exact keep_ne_zero h
      · exact amount_ne_zero_of_mem_safeAdd h
    | coinB :: coinsB, c, h => by
      unfold addInto at h
      split at h <;> simp only [List.mem_append] at h <;> rcases h with h | h
      · exact keep_ne_zero h
      · exact amount_ne_zero_of_mem_safeAdd h
      · exact keep_ne_zero h
      · exact amount_ne_zero_of_mem_safeAdd h
      · exact keep_ne_zero h
      · exact mem_addInto h
  /-- `keep` drops a zero coin. -/
  keep_ne_zero {c x : Coin} (h : x ∈ keep c) : x.amount ≠ 0 := by
    unfold keep at h
    split_ifs at h with hz
    · cases h
    · simp only [List.mem_singleton] at h
      subst h
      simpa using hz

/-! ### The merge keeps the coins sorted -/

/-- Every coin's denomination is above `lo`. -/
def Above (lo : String) (coins : Coins) : Prop := ∀ c ∈ coins, lo < c.denom

section Sorted

theorem above_keep {lo : String} {c : Coin} (h : lo < c.denom) : Above lo (keep c) := by
  intro x hx
  unfold keep at hx
  split_ifs at hx
  · cases hx
  · simp only [List.mem_singleton] at hx
    exact hx ▸ h

theorem sorted_keep (c : Coin) : Sorted (keep c) := by
  unfold keep Sorted
  split_ifs <;> simp

theorem above_removeZeroCoins {lo : String} {coins : Coins} (h : Above lo coins) :
    Above lo (removeZeroCoins coins) := fun c hc =>
  h c (List.mem_filter.1 hc).1

theorem sorted_removeZeroCoins {coins : Coins} (h : Sorted coins) :
    Sorted (removeZeroCoins coins) :=
  h.filter _

theorem sorted_append_keep {c : Coin} {l : Coins} (hl : Sorted l) (habove : Above c.denom l) :
    Sorted (keep c ++ l) := by
  unfold Sorted
  rw [List.pairwise_append]
  refine ⟨sorted_keep c, hl, fun x hx y hy => ?_⟩
  unfold keep at hx
  split_ifs at hx
  · cases hx
  · simp only [List.mem_singleton] at hx
    exact hx ▸ habove y hy

theorem above_of_above {lo lo' : String} {coins : Coins} (hlt : lo < lo') (h : Above lo' coins) :
    Above lo coins := fun c hc => lt_trans hlt (h c hc)

/-- A lower bound of both lists bounds their merge. -/
theorem above_safeAdd {lo : String} :
    ∀ {a b : Coins}, Above lo a → Above lo b → Above lo (safeAdd a b)
  | [], b, _, hb => above_removeZeroCoins hb
  | coinA :: coins, b, ha, hb => by
    rw [safeAdd]
    exact above_addInto (ha coinA List.mem_cons_self)
      (fun c hc => ha c (List.mem_cons_of_mem coinA hc)) hb
where
  /-- The round of `coinA`, over the second list. -/
  above_addInto {coinA : Coin} {coins : Coins} (hA : lo < coinA.denom) (hcoins : Above lo coins) :
      ∀ {l : Coins}, Above lo l → Above lo (addInto coinA (safeAdd coins) l)
    | [], _ => by
      simp only [addInto]
      intro c hc
      rcases List.mem_append.1 hc with hc | hc
      · exact above_keep hA c hc
      · exact above_safeAdd hcoins (fun _ h => by cases h) c hc
    | coinB :: coinsB, hl => by
      have hB := hl coinB List.mem_cons_self
      have hBs : Above lo coinsB := fun c hc => hl c (List.mem_cons_of_mem coinB hc)
      unfold addInto
      split <;> intro c hc <;> rcases List.mem_append.1 hc with hc | hc
      · exact above_keep hA c hc
      · exact above_safeAdd hcoins hl c hc
      · exact above_keep (c := coinA.Add coinB) hA c hc
      · exact above_safeAdd hcoins hBs c hc
      · exact above_keep hB c hc
      · exact above_addInto hA hcoins hBs c hc

/-- The merge of two sorted sets is sorted. -/
theorem sorted_safeAdd : ∀ {a b : Coins}, Sorted a → Sorted b → Sorted (safeAdd a b)
  | [], b, _, hb => sorted_removeZeroCoins hb
  | coinA :: coins, b, ha, hb => by
    rw [safeAdd]
    obtain ⟨hAbove, hcoins⟩ := List.pairwise_cons.1 ha
    exact sorted_addInto hAbove hcoins hb
where
  /-- The round of `coinA`, over the second list. -/
  sorted_addInto {coinA : Coin} {coins : Coins} (hAbove : Above coinA.denom coins)
      (hcoins : Sorted coins) : ∀ {l : Coins}, Sorted l → Sorted (addInto coinA (safeAdd coins) l)
    | [], _ => by
      simp only [addInto]
      exact sorted_append_keep (sorted_safeAdd hcoins (by simp [Sorted]))
        (above_safeAdd hAbove (fun _ h => by cases h))
    | coinB :: coinsB, hl => by
      obtain ⟨hBabove, hBs⟩ := List.pairwise_cons.1 hl
      unfold addInto
      split
      · -- `coinA` below `coinB`, and so below all of the second list
        rename_i heq
        have hlt : coinA.denom < coinB.denom := compare_lt_iff_lt.1 heq
        refine sorted_append_keep (sorted_safeAdd hcoins hl) (above_safeAdd hAbove ?_)
        intro c hc
        rcases List.mem_cons.1 hc with rfl | hc
        · exact hlt
        · exact lt_trans hlt (hBabove c hc)
      · rename_i heq
        have hAB : coinA.denom = coinB.denom := compare_eq_iff_eq.1 heq
        refine sorted_append_keep (sorted_safeAdd hcoins hBs) (above_safeAdd hAbove ?_)
        show Above coinA.denom coinsB
        rw [hAB]
        exact hBabove
      · -- `coinB` below `coinA`, and so below the rest of the merge
        rename_i heq
        have hlt : coinB.denom < coinA.denom := compare_gt_iff_gt.1 heq
        refine sorted_append_keep (sorted_addInto hAbove hcoins hBs) ?_
        exact above_safeAdd.above_addInto hlt (above_of_above hlt hAbove) hBabove

end Sorted

/-! ### The binary search of `AmountOf` -/

theorem amount_eq_zero_of_forall_ne {coins : Coins} {denom : String}
    (h : ∀ c ∈ coins, c.denom ≠ denom) : amount coins denom = 0 := by
  induction coins with
  | nil => rfl
  | cons c coins ih =>
    rw [amount_cons, if_neg (h c List.mem_cons_self),
      ih fun c' hc' => h c' (List.mem_cons_of_mem c hc'), add_zero]

/-- A sorted set cut at its `i`-th coin: the coins before it are below it, those after it
above it. -/
theorem sorted_split {coins : Coins} (hs : Sorted coins) {i : ℕ} (hi : i < coins.length) :
    coins = coins.take i ++ coins[i] :: coins.drop (i + 1) ∧
      (∀ c ∈ coins.take i, c.denom < coins[i].denom) ∧ Above coins[i].denom (coins.drop (i + 1)) := by
  have hcut : coins = coins.take i ++ coins[i] :: coins.drop (i + 1) := by
    rw [← List.drop_eq_getElem_cons hi, List.take_append_drop]
  refine ⟨hcut, ?_⟩
  have hs' := hs
  rw [hcut] at hs'
  unfold Sorted at hs'
  rw [List.pairwise_append, List.pairwise_cons] at hs'
  obtain ⟨-, ⟨habove, -⟩, hcross⟩ := hs'
  exact ⟨fun c hc => hcross c hc _ List.mem_cons_self, habove⟩

/-- With at least as many halvings as coins, the search finds the amount of a sorted set. -/
theorem search_eq_amount (denom : String) :
    ∀ (fuel : ℕ) (coins : Coins), coins.length ≤ fuel → Sorted coins →
      AmountOf.search denom fuel coins = amount coins denom
  | 0, [], _, _ => rfl
  | fuel + 1, [], _, _ => rfl
  | fuel + 1, [coin], _, _ => by
    by_cases h : coin.denom = denom <;> simp [AmountOf.search, h]
  | fuel + 1, c₁ :: c₂ :: rest, hlen, hs => by
    have h2 : 2 ≤ (c₁ :: c₂ :: rest).length := by simp
    unfold AmountOf.search
    generalize c₁ :: c₂ :: rest = coins at h2 hlen hs ⊢
    have hmid : coins.length / 2 < coins.length := by omega
    have hgetD : coins.getD (coins.length / 2) ⟨"", 0⟩ = coins[coins.length / 2] := by
      simp [hmid]
    obtain ⟨hcut, hbelow, habove⟩ := sorted_split hs hmid
    dsimp only
    rw [hgetD]
    generalize coins.length / 2 = mid at hmid hcut hbelow habove ⊢
    -- the amount splits at the middle coin
    have hsplit : amount coins denom = amount (coins.take mid) denom +
        ((if coins[mid].denom = denom then coins[mid].amount else 0) +
          amount (coins.drop (mid + 1)) denom) := by
      conv_lhs => rw [hcut]
      rw [amount_append, amount_cons]
    rw [hsplit]
    by_cases hlt : denom < coins[mid].denom
    · -- the denomination is below the middle coin: only the first half can hold it
      have hdrop : amount (coins.drop (mid + 1)) denom = 0 :=
        amount_eq_zero_of_forall_ne fun c hc => (lt_trans hlt (habove c hc)).ne'
      have hlen' : (coins.take mid).length ≤ fuel := by
        rw [List.length_take]
        omega
      rw [if_pos hlt, search_eq_amount denom fuel _ hlen' (hs.sublist (List.take_sublist _ _)),
        if_neg hlt.ne', hdrop]
      simp
    · by_cases heq : denom = coins[mid].denom
      · -- the middle coin is the only one of the denomination
        have htake : amount (coins.take mid) denom = 0 :=
          amount_eq_zero_of_forall_ne fun c hc => heq ▸ (hbelow c hc).ne
        have hdrop : amount (coins.drop (mid + 1)) denom = 0 :=
          amount_eq_zero_of_forall_ne fun c hc => heq ▸ (habove c hc).ne'
        rw [if_neg hlt, if_pos heq, if_pos heq.symm, htake, hdrop]
        simp
      · -- the denomination is above the middle coin: only the second half can hold it
        have hgt : coins[mid].denom < denom := lt_of_le_of_ne (not_lt.1 hlt) (Ne.symm heq)
        have htake : amount (coins.take mid) denom = 0 :=
          amount_eq_zero_of_forall_ne fun c hc => (lt_trans (hbelow c hc) hgt).ne
        have hlen' : (coins.drop (mid + 1)).length ≤ fuel := by
          rw [List.length_drop]
          omega
        rw [if_neg hlt, if_neg heq, search_eq_amount denom fuel _ hlen'
          (hs.sublist (List.drop_sublist _ _)), if_neg (Ne.symm heq), htake]
        simp

/-- On a sorted set, `AmountOf` returns the amount of the denomination. -/
theorem AmountOf_eq_amount {coins : Coins} (h : Sorted coins) (denom : String) :
    coins.AmountOf denom = amount coins denom :=
  search_eq_amount denom _ coins le_rfl h

end CosmosSdk.Coins
