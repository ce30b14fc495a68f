import CosmosSdk.Types.CoinsSpec
import CosmosSdk.Lib.Outcome

/-!
# Canonical coin sets

A coin set is canonical when its denominations strictly increase and its amounts are
positive (`Canonical`): the sets the state holds and `Coins.IsValid` is meant to accept.  A
sorted set without zero coins is determined by the amounts it holds (`eq_of_amount_eq`), so
on canonical sets the operations of `coin.go` are read off the amounts:

* `Add` adds the amounts and keeps the set canonical, so it is commutative and associative
  (`Canonical.Add`, `Add_comm_of_canonical`, `Add_assoc_of_canonical`);
* `SafeSub` reports a negative amount exactly when the second set holds more of some
  denomination (`SafeSub_hasNeg_iff`), and otherwise its difference is canonical
  (`SafeSub_canonical`); `IsAllGTE` and `IsAllGT` are the comparisons denomination by
  denomination (`IsAllGTE_iff`, `IsAllGT_iff`);
* `IsEqual` sorts sets that are already sorted (`sort_eq_self`), returns whether two sets with
  the same denominations are equal (`IsEqual_of_denoms`), and panics at the first index where
  the denominations differ (`IsEqual.go_of_denom_ne`);
* `IsValid` checks the grammar of the first denomination only; the later ones it checks for
  lower case (`IsValid_iff`).
-/

namespace CosmosSdk.Coins

/-- A canonical coin set: strictly increasing denominations and positive amounts. -/
structure Canonical (coins : Coins) : Prop where
  sorted : Sorted coins
  pos : ∀ c ∈ coins, 0 < c.amount

instance : DecidablePred Sorted := fun coins =>
  inferInstanceAs (Decidable (coins.Pairwise fun a b => a.denom < b.denom))

instance : DecidablePred Canonical := fun coins =>
  decidable_of_iff (Sorted coins ∧ ∀ c ∈ coins, 0 < c.amount)
    ⟨fun h => ⟨h.1, h.2⟩, fun h => ⟨h.sorted, h.pos⟩⟩

/-! ### A sorted set is its amounts -/

section Sorted

variable {coins : Coins}

/-- In a sorted set, a coin holds the whole amount of its denomination. -/
theorem amount_of_mem (hs : Sorted coins) {c : Coin} (hc : c ∈ coins) :
    amount coins c.denom = c.amount := by
  induction coins with
  | nil => cases hc
  | cons x xs ih =>
    obtain ⟨hx, hxs⟩ := List.pairwise_cons.1 hs
    rcases List.mem_cons.1 hc with rfl | hc
    · rw [amount_cons, if_pos rfl, amount_eq_zero_of_forall_ne fun y hy => (hx y hy).ne',
        add_zero]
    · rw [amount_cons, if_neg (hx c hc).ne, ih hxs hc, zero_add]

/-- Two coins of a sorted set with one denomination are the same coin. -/
theorem eq_of_mem_of_denom_eq (hs : Sorted coins) {a b : Coin} (ha : a ∈ coins) (hb : b ∈ coins)
    (h : a.denom = b.denom) : a = b := by
  have hamount : a.amount = b.amount := by
    rw [← amount_of_mem hs ha, ← amount_of_mem hs hb, h]
  cases a
  cases b
  simp only [Coin.mk.injEq]
  exact ⟨h, hamount⟩

/-- A sorted set holds nothing of a denomination below its first. -/
theorem amount_cons_eq_zero_of_lt {x : Coin} {xs : Coins} (hs : Sorted (x :: xs)) {d : String}
    (hd : d < x.denom) : amount (x :: xs) d = 0 :=
  amount_eq_zero_of_forall_ne fun c hc => by
    rcases List.mem_cons.1 hc with rfl | hc
    · exact hd.ne'
    · exact (lt_trans hd ((List.pairwise_cons.1 hs).1 c hc)).ne'

/-- Two sorted sets without zero coins that hold the same amounts are the same list.  The
induction is on both lists: their first coins have the same denomination, since the smaller
of the two would be held by one list only, and then the same amount. -/
theorem eq_of_amount_eq {a b : Coins} (ha : Sorted a) (hb : Sorted b)
    (ha0 : ∀ c ∈ a, c.amount ≠ 0) (hb0 : ∀ c ∈ b, c.amount ≠ 0)
    (h : ∀ denom, amount a denom = amount b denom) : a = b := by
  induction a generalizing b with
  | nil =>
    cases b with
    | nil => rfl
    | cons y ys =>
      have hy := (h y.denom).trans (amount_of_mem hb List.mem_cons_self)
      exact absurd hy.symm (hb0 y List.mem_cons_self)
  | cons x xs ih =>
    cases b with
    | nil =>
      have hx := (amount_of_mem ha List.mem_cons_self).symm.trans (h x.denom)
      exact absurd hx (ha0 x List.mem_cons_self)
    | cons y ys =>
      have hx := amount_of_mem ha List.mem_cons_self
      have hy := amount_of_mem hb List.mem_cons_self
      have hden : x.denom = y.denom := by
        rcases lt_trichotomy x.denom y.denom with hlt | heq | hgt
        · have hzero := amount_cons_eq_zero_of_lt hb hlt
          exact absurd (hx.symm.trans ((h x.denom).trans hzero)) (ha0 x List.mem_cons_self)
        · exact heq
        · have hzero := amount_cons_eq_zero_of_lt ha hgt
          exact absurd (hy.symm.trans ((h y.denom).symm.trans hzero)) (hb0 y List.mem_cons_self)
      have hxy : x = y := by
        have hamount : x.amount = y.amount := by
          rw [← hx, h x.denom, hden, hy]
        cases x
        cases y
        simp only [Coin.mk.injEq]
        exact ⟨hden, hamount⟩
      subst hxy
      congr 1
      refine ih (List.pairwise_cons.1 ha).2 (List.pairwise_cons.1 hb).2
        (fun c hc => ha0 c (List.mem_cons_of_mem _ hc)) (fun c hc => hb0 c (List.mem_cons_of_mem _ hc))
        fun d => ?_
      have hd := h d
      rw [amount_cons, amount_cons] at hd
      omega

/-- `negative` keeps the denominations, and so the order. -/
theorem sorted_negative (hs : Sorted coins) : Sorted coins.negative :=
  List.pairwise_map.2 hs

/-- A sorted set has a negative coin exactly when it holds a negative amount of some
denomination. -/
theorem IsAnyNegative_iff (hs : Sorted coins) :
    coins.IsAnyNegative = true ↔ ∃ d, amount coins d < 0 := by
  constructor
  · intro h
    obtain ⟨c, hc, hneg⟩ : ∃ c ∈ coins, c.amount < 0 := by
      simpa [IsAnyNegative, Coin.IsNegative] using h
    exact ⟨c.denom, (amount_of_mem hs hc).symm ▸ hneg⟩
  · rintro ⟨d, hd⟩
    by_contra hno
    have hall := IsAnyNegative_eq_false.1 (Bool.eq_false_iff.2 hno)
    exact absurd hd (not_lt.2 (amount_nonneg d (IsAnyNegative_eq_false.2 hall)))

/-- `sort` leaves a sorted set as it is: it is a permutation sorted by denomination, and a
sorted set has one coin of each of its denominations. -/
theorem sort_eq_self (hs : Sorted coins) : coins.sort = coins := by
  have hperm : coins.sort.Perm coins := List.mergeSort_perm _ _
  have hle : coins.sort.Pairwise fun a b => a.denom ≤ b.denom := by
    have := @List.pairwise_mergeSort Coin (fun a b => decide (a.denom ≤ b.denom))
      (fun _ _ _ hab hbc => decide_eq_true (le_trans (of_decide_eq_true hab) (of_decide_eq_true hbc)))
      (fun a b => by simpa using le_total a.denom b.denom) coins
    simpa [sort] using this
  refine hperm.eq_of_pairwise (fun a b ha hb hab hba => ?_) hle (hs.imp le_of_lt)
  exact eq_of_mem_of_denom_eq hs (hperm.mem_iff.1 ha) hb (le_antisymm hab hba)

end Sorted

/-! ### Canonical sets -/

namespace Canonical

variable {a b coins : Coins}

theorem ne_zero (h : Canonical coins) : ∀ c ∈ coins, c.amount ≠ 0 := fun c hc =>
  (h.pos c hc).ne'

theorem amount_nonneg (h : Canonical coins) (denom : String) : 0 ≤ amount coins denom :=
  Coins.amount_nonneg denom (IsAnyNegative_eq_false.2 fun c hc => (h.pos c hc).le)

theorem AmountOf_nonneg (h : Canonical coins) (denom : String) : 0 ≤ coins.AmountOf denom := by
  rw [AmountOf_eq_amount h.sorted]
  exact h.amount_nonneg denom

/-- Canonical sets that hold the same amounts are equal. -/
theorem ext (ha : Canonical a) (hb : Canonical b) (h : ∀ denom, amount a denom = amount b denom) :
    a = b :=
  eq_of_amount_eq ha.sorted hb.sorted ha.ne_zero hb.ne_zero h

/-- A sorted set whose coins are not zero, and whose amounts are not negative, is canonical. -/
theorem of_nonneg (hs : Sorted coins) (h0 : ∀ c ∈ coins, c.amount ≠ 0)
    (hnonneg : ∀ d, 0 ≤ amount coins d) : Canonical coins where
  sorted := hs
  pos c hc := by
    have := hnonneg c.denom
    rw [amount_of_mem hs hc] at this
    exact lt_of_le_of_ne this (h0 c hc).symm

/-- The sum of two canonical sets is canonical. -/
protected theorem Add (ha : Canonical a) (hb : Canonical b) : Canonical (a.Add b) :=
  of_nonneg (sorted_safeAdd ha.sorted hb.sorted) (fun _ hc => amount_ne_zero_of_mem_safeAdd hc)
    fun d => by
      rw [amount_Add]
      exact add_nonneg (ha.amount_nonneg d) (hb.amount_nonneg d)

end Canonical

/-! ### Addition -/

section Add

variable {a b c : Coins}

theorem AmountOf_Add (ha : Canonical a) (hb : Canonical b) (denom : String) :
    (a.Add b).AmountOf denom = a.AmountOf denom + b.AmountOf denom := by
  rw [AmountOf_eq_amount (ha.Add hb).sorted, AmountOf_eq_amount ha.sorted,
    AmountOf_eq_amount hb.sorted, amount_Add]

/-- The denominations of a sum of canonical sets are theirs: what holds of the denominations of
both holds of every coin of the sum. -/
theorem forall_denom_Add (ha : Canonical a) (hb : Canonical b) {P : String → Prop}
    (hpa : ∀ c ∈ a, P c.denom) (hpb : ∀ c ∈ b, P c.denom) : ∀ x ∈ a.Add b, P x.denom := by
  intro x hx
  by_contra hx'
  have hpos : 0 < amount (a.Add b) x.denom := by
    rw [amount_of_mem (ha.Add hb).sorted hx]
    exact (ha.Add hb).pos x hx
  have hna : amount a x.denom = 0 := amount_eq_zero_of_forall_ne fun c hc hcx => hx' (hcx ▸ hpa c hc)
  have hnb : amount b x.denom = 0 := amount_eq_zero_of_forall_ne fun c hc hcx => hx' (hcx ▸ hpb c hc)
  rw [amount_Add, hna, hnb] at hpos
  exact lt_irrefl 0 hpos

theorem Add_comm_of_canonical (ha : Canonical a) (hb : Canonical b) : a.Add b = b.Add a :=
  (ha.Add hb).ext (hb.Add ha) fun d => by rw [amount_Add, amount_Add, add_comm]

theorem Add_assoc_of_canonical (ha : Canonical a) (hb : Canonical b) (hc : Canonical c) :
    (a.Add b).Add c = a.Add (b.Add c) :=
  ((ha.Add hb).Add hc).ext (ha.Add (hb.Add hc)) fun d => by
    rw [amount_Add, amount_Add, amount_Add, amount_Add, add_assoc]

end Add

/-! ### Subtraction and comparisons -/

section Sub

variable {a b : Coins}

theorem sorted_SafeSub (ha : Sorted a) (hb : Sorted b) : Sorted (a.SafeSub b).1 :=
  sorted_safeAdd ha (sorted_negative hb)

theorem SafeSub_snd : (a.SafeSub b).2 = (a.SafeSub b).1.IsAnyNegative := rfl

/-- `SafeSub` reports a negative amount exactly when `b` holds more of some denomination. -/
theorem SafeSub_hasNeg_iff (ha : Canonical a) (hb : Canonical b) :
    (a.SafeSub b).2 = true ↔ ∃ d, a.AmountOf d < b.AmountOf d := by
  rw [SafeSub_snd, IsAnyNegative_iff (sorted_SafeSub ha.sorted hb.sorted)]
  simp only [amount_SafeSub, AmountOf_eq_amount ha.sorted, AmountOf_eq_amount hb.sorted]
  exact exists_congr fun d => by omega

/-- Without a negative amount, the difference is canonical and holds the differences. -/
theorem SafeSub_canonical (ha : Canonical a) (hb : Canonical b) (h : (a.SafeSub b).2 = false) :
    Canonical (a.SafeSub b).1 ∧
      ∀ d, (a.SafeSub b).1.AmountOf d = a.AmountOf d - b.AmountOf d := by
  have hs := sorted_SafeSub ha.sorted hb.sorted
  have hdiff : Canonical (a.SafeSub b).1 :=
    .of_nonneg hs (fun _ hc => amount_ne_zero_of_mem_safeAdd hc) fun d => amount_nonneg d h
  refine ⟨hdiff, fun d => ?_⟩
  rw [AmountOf_eq_amount hs, AmountOf_eq_amount ha.sorted, AmountOf_eq_amount hb.sorted,
    amount_SafeSub]

/-- A canonical set is below a nonnegative function of the denominations when each of its
coins is: the denominations it does not hold it holds nothing of. -/
theorem Canonical.forall_amount_le_iff (hb : Canonical b) {f : String → ℤ} (hf : ∀ d, 0 ≤ f d) :
    (∀ d, amount b d ≤ f d) ↔ ∀ c ∈ b, c.amount ≤ f c.denom := by
  constructor
  · intro h c hc
    rw [← amount_of_mem hb.sorted hc]
    exact h c.denom
  · intro h d
    by_cases hd : ∃ c ∈ b, c.denom = d
    · obtain ⟨c, hc, rfl⟩ := hd
      rw [amount_of_mem hb.sorted hc]
      exact h c hc
    · push Not at hd
      rw [amount_eq_zero_of_forall_ne hd]
      exact hf d

/-- `IsAllGTE` is the comparison denomination by denomination. -/
theorem IsAllGTE_iff (ha : Canonical a) (hb : Canonical b) :
    a.IsAllGTE b = true ↔ ∀ d, b.AmountOf d ≤ a.AmountOf d := by
  simp only [AmountOf_eq_amount ha.sorted, AmountOf_eq_amount hb.sorted]
  rw [hb.forall_amount_le_iff ha.amount_nonneg]
  unfold IsAllGTE
  cases b with
  | nil => simp
  | cons c cs =>
    cases a with
    | nil =>
      -- the first coin of `b` is positive, so the empty set is not above it
      refine ⟨fun h => by simp at h, fun h => ?_⟩
      have hle := h c List.mem_cons_self
      rw [amount_nil] at hle
      exact absurd (hb.pos c List.mem_cons_self) (not_lt.2 hle)
    | cons x xs =>
      simp [List.all_eq_true, AmountOf_eq_amount ha.sorted]

/-- `IsAllGTE` holds exactly when `SafeSub` reports no negative amount. -/
theorem IsAllGTE_iff_SafeSub (ha : Canonical a) (hb : Canonical b) :
    a.IsAllGTE b = true ↔ (a.SafeSub b).2 = false := by
  rw [IsAllGTE_iff ha hb, ← Bool.not_eq_true, SafeSub_hasNeg_iff ha hb]
  push Not
  rfl

/-- The denominations of a sorted set, without repetition. -/
theorem nodup_denoms (hs : Sorted b) : (b.map Coin.denom).Nodup :=
  (List.pairwise_map.2 hs).imp ne_of_lt

/-- `DenomsSubsetOf` holds when `a` holds more of each denomination of `b`: each is then held
by `a`, and a sorted `b` has no more coins than it has denominations. -/
theorem DenomsSubsetOf_of_lt (ha : Canonical a) (hb : Canonical b)
    (h : ∀ c ∈ b, c.amount < a.AmountOf c.denom) : b.DenomsSubsetOf a = true := by
  have hheld : ∀ c ∈ b, a.AmountOf c.denom ≠ 0 := fun c hc =>
    (lt_trans (hb.pos c hc) (h c hc)).ne'
  have hsub : b.map Coin.denom ⊆ a.map Coin.denom := by
    intro d hd
    obtain ⟨c, hc, rfl⟩ := List.mem_map.1 hd
    by_contra hnot
    apply hheld c hc
    rw [AmountOf_eq_amount ha.sorted]
    exact amount_eq_zero_of_forall_ne fun x hx hxd => hnot (List.mem_map.2 ⟨x, hx, hxd⟩)
  have hlen : b.length ≤ a.length := by
    simpa using (nodup_denoms hb.sorted).length_le_of_subset hsub
  unfold DenomsSubsetOf
  simpa [hlen, List.all_eq_true] using hheld

/-- `IsAllGT` holds when `a` is not empty and holds more of each denomination of `b`. -/
theorem IsAllGT_iff (ha : Canonical a) (hb : Canonical b) :
    a.IsAllGT b = true ↔ a ≠ [] ∧ ∀ c ∈ b, b.AmountOf c.denom < a.AmountOf c.denom := by
  have hself : ∀ c ∈ b, b.AmountOf c.denom = c.amount := fun c hc => by
    rw [AmountOf_eq_amount hb.sorted, amount_of_mem hb.sorted hc]
  rw [show (∀ c ∈ b, b.AmountOf c.denom < a.AmountOf c.denom) ↔
      ∀ c ∈ b, c.amount < a.AmountOf c.denom from
    forall₂_congr fun c hc => by rw [hself c hc]]
  unfold IsAllGT
  by_cases hae : a = []
  · simp [hae]
  · by_cases hbe : b = []
    · simp [hae, hbe]
    · constructor
      · intro h
        simp only [hae, hbe, List.isEmpty_iff, if_false] at h
        split_ifs at h
        simpa [hae, List.all_eq_true] using h
      · rintro ⟨-, h⟩
        simpa [hae, hbe, DenomsSubsetOf_of_lt ha hb h, List.all_eq_true] using h

end Sub

/-! ### Equality -/

section Equal

variable {a b : Coins}

/-- Canonical sets are equal exactly when they hold the same amounts. -/
theorem Canonical.eq_iff (ha : Canonical a) (hb : Canonical b) :
    a = b ↔ ∀ d, a.AmountOf d = b.AmountOf d := by
  refine ⟨fun h d => h ▸ rfl, fun h => ha.ext hb fun d => ?_⟩
  rw [← AmountOf_eq_amount ha.sorted, ← AmountOf_eq_amount hb.sorted]
  exact h d

/-- On sets with the same denominations in the same order, the loop of `IsEqual` returns
whether the sets are equal. -/
theorem IsEqual.go_of_denoms :
    ∀ {a b : Coins}, a.map Coin.denom = b.map Coin.denom → IsEqual.go a b = .ok (decide (a = b))
  | [], [], _ => rfl
  | x :: xs, y :: ys, h => by
    obtain ⟨hxy, hrest⟩ := List.cons_eq_cons.1 h
    have hcoin : x.IsEqual y = .ok (x.amount == y.amount) := by
      rw [Coin.IsEqual, if_neg (not_not.2 hxy), Except.pure_eq_ok]
    have hcons : (x = y ∧ xs = ys) ↔ (x.amount = y.amount ∧ xs = ys) := by
      cases x
      cases y
      simp_all
    rw [IsEqual.go, hcoin, Except.ok_bind]
    by_cases hamount : x.amount = y.amount
    · simp [hamount, IsEqual.go_of_denoms hrest, hcons]
    · simp [hamount, hcons]

/-- The loop of `IsEqual` panics at the first index where the denominations differ. -/
theorem IsEqual.go_append_of_denom_ne (l : Coins) {x y : Coin} (xs ys : Coins)
    (h : x.denom ≠ y.denom) :
    IsEqual.go (l ++ x :: xs) (l ++ y :: ys) =
      .error ⟨"invalid coin denominations; " ++ x.denom ++ ", " ++ y.denom⟩ := by
  induction l with
  | nil => simp [IsEqual.go, Coin.IsEqual, h]
  | cons c l ih => simp [IsEqual.go, Coin.IsEqual, ih]

/-- On sorted sets `IsEqual` does not reorder them. -/
theorem IsEqual_of_sorted (ha : Sorted a) (hb : Sorted b) :
    a.IsEqual b = if a.length ≠ b.length then .ok false else IsEqual.go a b := by
  rw [IsEqual, sort_eq_self ha, sort_eq_self hb, Except.pure_eq_ok]

/-- On sorted sets of one length, `IsEqual` panics at the first index where the denominations
differ. -/
theorem IsEqual_append_of_denom_ne {l xs ys : Coins} {x y : Coin} (ha : Sorted (l ++ x :: xs))
    (hb : Sorted (l ++ y :: ys)) (hlen : xs.length = ys.length) (h : x.denom ≠ y.denom) :
    IsEqual (l ++ x :: xs) (l ++ y :: ys) =
      .error ⟨"invalid coin denominations; " ++ x.denom ++ ", " ++ y.denom⟩ := by
  rw [IsEqual_of_sorted ha hb, if_neg (by simp [hlen]), IsEqual.go_append_of_denom_ne l xs ys h]

/-- On canonical sets with the same denominations, `IsEqual` returns whether they hold the
same amounts. -/
theorem IsEqual_of_denoms (ha : Canonical a) (hb : Canonical b)
    (h : a.map Coin.denom = b.map Coin.denom) :
    a.IsEqual b = .ok (decide (a = b)) := by
  have hlen : a.length = b.length := by simpa using congrArg List.length h
  rw [IsEqual_of_sorted ha.sorted hb.sorted, if_neg (not_not.2 hlen), IsEqual.go_of_denoms h]

end Equal

/-! ### Validity -/

section Valid

/-- The loop of `IsValid` over the later coins: above the last denomination, sorted, in
lower case and positive. -/
theorem IsValid.validTail_iff :
    ∀ (lo : String) (coins : Coins), IsValid.validTail lo coins = true ↔
      Above lo coins ∧ Sorted coins ∧ ∀ c ∈ coins, c.denom.toLower = c.denom ∧ 0 < c.amount
  | lo, [] => by simp [IsValid.validTail, Above, Sorted]
  | lo, c :: coins => by
    rw [IsValid.validTail, Bool.and_eq_true, Bool.and_eq_true, Bool.and_eq_true,
      IsValid.validTail_iff c.denom coins]
    simp only [beq_iff_eq, decide_eq_true_eq, Coin.IsPositive, Above, Sorted, List.pairwise_cons,
      List.mem_cons, forall_eq_or_imp]
    constructor
    · rintro ⟨⟨⟨hlower, hlt⟩, hpos⟩, habove, hsorted, hrest⟩
      exact ⟨⟨hlt, fun x hx => lt_trans hlt (habove x hx)⟩, ⟨habove, hsorted⟩, ⟨hlower, hpos⟩,
        hrest⟩
    · rintro ⟨⟨hlt, -⟩, ⟨habove, hsorted⟩, ⟨hlower, hpos⟩, hrest⟩
      exact ⟨⟨⟨hlower, hlt⟩, hpos⟩, habove, hsorted, hrest⟩

/-- What `IsValid` checks: the first denomination against the grammar, every later one for
lower case, increasing denominations and positive amounts. -/
theorem IsValid_iff (c : Coin) (coins : Coins) :
    IsValid (c :: coins) = true ↔
      validateDenom c.denom = true ∧ 0 < c.amount ∧ Above c.denom coins ∧ Sorted coins ∧
        ∀ x ∈ coins, x.denom.toLower = x.denom ∧ 0 < x.amount := by
  simp only [IsValid, Bool.and_eq_true, IsValid.validTail_iff, Coin.IsPositive,
    decide_eq_true_eq, and_assoc]

/-- A valid set is canonical. -/
theorem Canonical.of_IsValid : ∀ {coins : Coins}, coins.IsValid = true → Canonical coins
  | [], _ => ⟨List.Pairwise.nil, by simp⟩
  | c :: coins, h => by
    obtain ⟨-, hpos, habove, hsorted, hrest⟩ := (IsValid_iff c coins).1 h
    refine ⟨List.pairwise_cons.2 ⟨habove, hsorted⟩, fun x hx => ?_⟩
    rcases List.mem_cons.1 hx with rfl | hx
    · exact hpos
    · exact (hrest x hx).2

theorem toLower_of_isLower {c : Char} (h : c.isLower = true) : c.toLower = c := by
  unfold Char.toLower
  rw [dif_neg]
  simp only [Char.isLower, Bool.and_eq_true, decide_eq_true_eq] at h
  intro hupper
  exact absurd (UInt32.le_trans h.1 hupper.2) (by decide)

theorem toLower_of_isDigit {c : Char} (h : c.isDigit = true) : c.toLower = c := by
  unfold Char.toLower
  rw [dif_neg]
  simp only [Char.isDigit, Bool.and_eq_true, decide_eq_true_eq] at h
  intro hupper
  exact absurd (UInt32.le_trans hupper.1 h.2) (by decide)

/-- A denomination of the grammar is in lower case. -/
theorem toLower_of_validateDenom {denom : String} (h : validateDenom denom = true) :
    denom.toLower = denom := by
  have hchars : ∀ c ∈ denom.toList, c.toLower = c := by
    unfold validateDenom at h
    split at h
    · cases h
    · rename_i c cs hcs
      simp only [Bool.and_eq_true, List.all_eq_true, Bool.or_eq_true, decide_eq_true_eq] at h
      rw [hcs]
      intro x hx
      rcases List.mem_cons.1 hx with rfl | hx
      · exact toLower_of_isLower h.1.1.1
      · rcases h.1.1.2 x hx with hlower | hdigit
        · exact toLower_of_isLower hlower
        · exact toLower_of_isDigit hdigit
  rw [← String.toList_inj, String.toLower, String.toList_map, List.map_congr_left hchars,
    List.map_id']

/-- Every denomination of a valid set is in lower case: the first by the grammar, the later
ones by their own check. -/
theorem toLower_of_IsValid : ∀ {coins : Coins}, coins.IsValid = true →
    ∀ c ∈ coins, c.denom.toLower = c.denom
  | [], _ => by simp
  | c :: coins, h => by
    obtain ⟨hc, -, -, -, hrest⟩ := (IsValid_iff c coins).1 h
    intro x hx
    rcases List.mem_cons.1 hx with rfl | hx
    · exact toLower_of_validateDenom hc
    · exact (hrest x hx).1

/-- A canonical set of denominations of the grammar is valid. -/
theorem IsValid_of_canonical : ∀ {coins : Coins}, Canonical coins →
    (∀ c ∈ coins, validateDenom c.denom = true) → coins.IsValid = true
  | [], _, _ => rfl
  | c :: coins, h, hd => by
    obtain ⟨habove, hsorted⟩ := List.pairwise_cons.1 h.sorted
    refine (IsValid_iff c coins).2 ⟨hd c List.mem_cons_self, h.pos c List.mem_cons_self, habove,
      hsorted, fun x hx => ⟨?_, h.pos x (List.mem_cons_of_mem c hx)⟩⟩
    exact toLower_of_validateDenom (hd x (List.mem_cons_of_mem c hx))

/-- `IsValid` accepts a second denomination that only has to be in lower case and above the
first, so a set it accepts can hold a malformed denomination, on which the `AmountOf` of the
Go code (`checkedAmountOf`) panics. -/
theorem IsValid_accepts_malformed_later_denom (c : Coin) (denom : String) (amount : ℤ)
    (hc : validateDenom c.denom = true) (hpos : 0 < c.amount) (hlower : denom.toLower = denom)
    (hlt : c.denom < denom) (hamount : 0 < amount) (hbad : validateDenom denom = false) :
    IsValid [c, ⟨denom, amount⟩] = true ∧
      checkedAmountOf [c, ⟨denom, amount⟩] denom = .error ⟨"invalid denom: " ++ denom⟩ := by
  refine ⟨(IsValid_iff c _).2 ⟨hc, hpos, ?_, ?_, ?_⟩, ?_⟩
  · simpa [Above] using hlt
  · simp [Sorted]
  · simpa using ⟨hlower, hamount⟩
  · simp [checkedAmountOf, mustValidateDenom, hbad]

theorem IsValid_accepts_malformed_later_denom_b :
    IsValid [⟨"abc", 1⟩, ⟨"b", 1⟩] = true ∧
      checkedAmountOf [⟨"abc", 1⟩, ⟨"b", 1⟩] "b" = .error ⟨"invalid denom: " ++ "b"⟩ :=
  IsValid_accepts_malformed_later_denom ⟨"abc", 1⟩ "b" 1 (by decide) (by decide)
    (by decide +kernel) (by decide) (by decide) (by decide)

end Valid

end CosmosSdk.Coins
