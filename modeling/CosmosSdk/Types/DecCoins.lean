import CosmosSdk.Types.Int
import CosmosSdk.Types.CoinSet

/-!
# `sdk.DecCoins`

Coins with decimal amounts (`types/dec_coin.go`): a list sorted by denomination, merged by the
same two-index loop as `sdk.Coins` (`safeAdd`) and searched by the same binary search
(`AmountOf`).  A `Dec` is its integer of `10^-18` units, so a decimal coin is a coin of units
(`DecCoin.units`), and the merge and the search of decimal coins are those of the coins of
units (`map_units_safeAdd`, `AmountOf_i`): every fact of `CoinSet` about sorted and canonical
sets holds of decimal coins read through `units`.

`TruncateDecimal` splits each coin into its whole units, an `sdk.Coin` built by `NewCoin`, and
its change below one, and adds the nonzero halves to two sets.  `Dec.TruncateInt` panics on a
whole part of more than 255 bits (`NewIntFromBigInt`), and `NewCoin` on a denomination that
fails `validateDenom`; the canonical sets whose coins pass both are split into a canonical set of
coins and a canonical set of changes that together hold the amounts of the input
(`TruncateDecimal_conserves`).  A sorted positive set with a malformed denomination panics
(`TruncateDecimal_invalid_denom`).

`Sub` is `SafeSub`, the merge with the negated set, and panics on a negative amount;
`MulDec` and `MulDecTruncate` add the product of each coin to an empty set, unless it is zero
(`mulEach`).  Read through `amount`, the units each set holds of a denomination: `Sub` of
canonical sets returns exactly when no amount goes negative, and subtracts
(`Sub_eq_ok_of_le`); the products of a sorted set hold the product of each amount
(`amount_mulEach_of_sorted`), and those of nonnegative products are canonical
(`canonical_mulEach`).

`AmountOf` is the lookup without the `mustValidateDenom` it starts with, as for `sdk.Coins`.
-/

namespace CosmosSdk

/-- `sdk.DecCoin`. -/
structure DecCoin where
  denom : String
  amount : Dec
  deriving DecidableEq, Repr

namespace DecCoin

/-- `DecCoin.IsZero`. -/
def IsZero (coin : DecCoin) : Bool := coin.amount.isZero

/-- `DecCoin.Add`, on coins of one denomination (Go panics on two: `safeAdd` never asks). -/
def Add (coin coinB : DecCoin) : DecCoin := ⟨coin.denom, coin.amount + coinB.amount⟩

/-- `DecCoin.TruncateDecimal`: the whole units as a coin, and the change. -/
def TruncateDecimal (coin : DecCoin) : Except Panic (Coin × DecCoin) := do
  -- `Dec.TruncateInt`, with the bound of `NewIntFromBigInt`
  let truncated ← NewIntFromBigInt (Dec.chopPrecisionAndTruncate coin.amount.i)
  let change := coin.amount - Dec.ofInt truncated.i
  -- `NewCoin`
  Coins.mustValidateDenom coin.denom
  let t ← Coin.NewCoin coin.denom truncated.i
  pure (t, ⟨coin.denom, change⟩)

/-- The coin of `10^-18` units that a decimal coin holds. -/
def units (coin : DecCoin) : Coin := ⟨coin.denom, coin.amount.i⟩

@[simp] theorem units_denom (coin : DecCoin) : coin.units.denom = coin.denom := rfl

@[simp] theorem units_amount (coin : DecCoin) : coin.units.amount = coin.amount.i := rfl

@[simp] theorem IsZero_units (coin : DecCoin) : coin.units.IsZero = coin.IsZero := rfl

@[simp] theorem units_Add (coin coinB : DecCoin) :
    (coin.Add coinB).units = coin.units.Add coinB.units := rfl

end DecCoin

/-- `sdk.DecCoins`. -/
abbrev DecCoins := List DecCoin

namespace DecCoins

/-- `removeZeroDecCoins`. -/
def removeZeroDecCoins (coins : DecCoins) : DecCoins := coins.filter fun c => !c.IsZero

/-- The coin as `safeAdd` appends it: not at all when it is zero. -/
def keep (coin : DecCoin) : DecCoins := if coin.IsZero then [] else [coin]

/-- One round of the merge loop of `safeAdd` for the coin `coinA` at the head of the first
set, as for `sdk.Coins`. -/
def addInto (coinA : DecCoin) (rest : DecCoins → DecCoins) : DecCoins → DecCoins
  | [] => keep coinA ++ rest []
  | coinB :: coinsB =>
    match compare coinA.denom coinB.denom with
    | .lt => keep coinA ++ rest (coinB :: coinsB)
    | .eq => keep (coinA.Add coinB) ++ rest coinsB
    | .gt => keep coinB ++ addInto coinA rest coinsB

/-- `DecCoins.safeAdd`: the merge of two sorted sets, adding the amounts of equal
denominations and dropping the zero coins. -/
def safeAdd : DecCoins → DecCoins → DecCoins
  | [], coinsB => removeZeroDecCoins coinsB
  | coinA :: coins, coinsB => addInto coinA (safeAdd coins) coinsB

/-- `DecCoins.Add`. -/
def Add (coins coinsB : DecCoins) : DecCoins := safeAdd coins coinsB

/-- `DecCoins.AmountOf`: the binary search of the Go code, on its `len(coins)` halvings. -/
def AmountOf (coins : DecCoins) (denom : String) : Dec := search coins.length coins
where
  /-- The search with `fuel` halvings left. -/
  search : ℕ → DecCoins → Dec
    | 0, _ => 0
    | _ + 1, [] => 0
    | _ + 1, [coin] => if coin.denom = denom then coin.amount else 0
    | fuel + 1, coins@(_ :: _ :: _) =>
      let midIdx := coins.length / 2
      let coin := coins.getD midIdx ⟨"", 0⟩
      if denom < coin.denom then search fuel (coins.take midIdx)
      else if denom = coin.denom then coin.amount
      else search fuel (coins.drop (midIdx + 1))

/-- One coin of the loop of `DecCoins.TruncateDecimal`: its whole units are added to the
truncated coins and its change to the change coins, each unless it is zero. -/
def truncateStep (acc : Coins × DecCoins) (coin : DecCoin) : Except Panic (Coins × DecCoins) := do
  let (truncated, change) ← coin.TruncateDecimal
  let truncatedCoins := if !truncated.IsZero then Coins.Add acc.1 [truncated] else acc.1
  let changeCoins := if !change.IsZero then DecCoins.Add acc.2 [change] else acc.2
  pure (truncatedCoins, changeCoins)

/-- `DecCoins.TruncateDecimal`: the whole units and the change of every coin. -/
def TruncateDecimal (coins : DecCoins) : Except Panic (Coins × DecCoins) :=
  coins.foldlM truncateStep ([], [])

/-- A canonical set of decimal coins: strictly increasing denominations and positive
amounts. -/
structure Canonical (coins : DecCoins) : Prop where
  sorted : coins.Pairwise fun a b => a.denom < b.denom
  pos : ∀ c ∈ coins, 0 < c.amount.i

/-! ### Decimal coins are coins of units -/

section Units

open DecCoin

theorem map_units_keep (coin : DecCoin) : (keep coin).map units = Coins.keep coin.units := by
  unfold keep Coins.keep
  rw [IsZero_units]
  split_ifs <;> rfl

theorem map_units_removeZeroDecCoins (coins : DecCoins) :
    (removeZeroDecCoins coins).map units = Coins.removeZeroCoins (coins.map units) := by
  unfold removeZeroDecCoins Coins.removeZeroCoins
  rw [List.filter_map]
  rfl

/-- One round of the merge, when the rest of the merge is the rest of the merge of units. -/
theorem map_units_addInto (coinA : DecCoin) (rest : DecCoins → DecCoins) (rest' : Coins → Coins)
    (hrest : ∀ l, (rest l).map units = rest' (l.map units)) :
    ∀ l, (addInto coinA rest l).map units = Coins.addInto coinA.units rest' (l.map units)
  | [] => by rw [addInto, List.map_append, map_units_keep, hrest, List.map_nil, Coins.addInto]
  | coinB :: coinsB => by
    rw [List.map_cons, addInto, Coins.addInto, units_denom, units_denom]
    -- the same comparison of denominations decides both rounds
    cases compare coinA.denom coinB.denom with
    | lt => rw [List.map_append, map_units_keep, hrest, List.map_cons]
    | eq => rw [List.map_append, map_units_keep, hrest, units_Add]
    | gt => rw [List.map_append, map_units_keep, map_units_addInto coinA rest rest' hrest coinsB]

/-- The merge of decimal coins is the merge of their units. -/
theorem map_units_safeAdd : ∀ a b : DecCoins,
    (safeAdd a b).map units = Coins.safeAdd (a.map units) (b.map units)
  | [], b => by rw [safeAdd, map_units_removeZeroDecCoins, List.map_nil, Coins.safeAdd]
  | coinA :: coins, b => by
    rw [safeAdd, List.map_cons, Coins.safeAdd]
    exact map_units_addInto coinA _ _ (fun l => map_units_safeAdd coins l) b

/-- The binary search of decimal coins is the binary search of their units. -/
theorem search_i (denom : String) :
    ∀ (fuel : ℕ) (coins : DecCoins),
      (AmountOf.search denom fuel coins).i = Coins.AmountOf.search denom fuel (coins.map units)
  | 0, _ => rfl
  | _ + 1, [] => rfl
  | _ + 1, [coin] => by
    rw [AmountOf.search, List.map_cons, List.map_nil, Coins.AmountOf.search, units_denom]
    split_ifs <;> rfl
  | fuel + 1, a :: b :: coins => by
    have hmid : ((a :: b :: coins).map units).getD ((a :: b :: coins).length / 2) ⟨"", 0⟩ =
        ((a :: b :: coins).getD ((a :: b :: coins).length / 2) ⟨"", 0⟩).units := by
      rw [List.getD_eq_getElem?_getD, List.getD_eq_getElem?_getD, List.getElem?_map]
      cases (a :: b :: coins)[(a :: b :: coins).length / 2]? <;> rfl
    rw [AmountOf.search, List.map_cons, List.map_cons, Coins.AmountOf.search]
    simp only [← List.map_cons, List.length_map, hmid, units_denom, units_amount]
    split_ifs
    · rw [search_i denom fuel, List.map_take]
    · rfl
    · rw [search_i denom fuel, List.map_drop]

theorem AmountOf_i (coins : DecCoins) (denom : String) :
    (coins.AmountOf denom).i = Coins.AmountOf (coins.map units) denom := by
  unfold AmountOf Coins.AmountOf
  rw [List.length_map]
  exact search_i denom _ coins

theorem canonical_iff_units {coins : DecCoins} :
    Canonical coins ↔ Coins.Canonical (coins.map units) := by
  constructor
  · rintro ⟨hsorted, hpos⟩
    refine ⟨(List.pairwise_map (R := fun a b : Coin => a.denom < b.denom)).2 hsorted, ?_⟩
    rw [List.forall_mem_map]
    exact hpos
  · rintro ⟨hsorted, hpos⟩
    rw [List.forall_mem_map] at hpos
    exact ⟨(List.pairwise_map (R := fun a b : Coin => a.denom < b.denom)).1 hsorted, hpos⟩

/-- The sum of two canonical sets of decimal coins is canonical. -/
theorem Canonical.Add {a b : DecCoins} (ha : Canonical a) (hb : Canonical b) :
    Canonical (a.Add b) := by
  rw [canonical_iff_units, DecCoins.Add, map_units_safeAdd]
  exact (canonical_iff_units.1 ha).Add (canonical_iff_units.1 hb)

theorem amount_units_Add (a b : DecCoins) (denom : String) :
    Coins.amount ((a.Add b).map units) denom =
      Coins.amount (a.map units) denom + Coins.amount (b.map units) denom := by
  rw [DecCoins.Add, map_units_safeAdd]
  exact Coins.amount_Add denom _ _

end Units

end DecCoins

/-! ### Splitting one coin -/

namespace DecCoin

/-- A coin that `TruncateDecimal` splits without a panic: a nonnegative amount whose whole part
fits an `sdk.Int`, and a denomination that `NewCoin` accepts. -/
structure Splittable (coin : DecCoin) : Prop where
  nonneg : 0 ≤ coin.amount.i
  bound : coin.amount.truncateInt < 2 ^ maxBitLen
  denom : Coins.validateDenom coin.denom = true

theorem truncateInt_nonneg {d : Dec} (h : 0 ≤ d.i) : 0 ≤ d.truncateInt :=
  Int.tdiv_nonneg h (by decide)

/-- The change of a nonnegative amount is its remainder modulo one unit. -/
theorem sub_truncateInt_i {d : Dec} (h : 0 ≤ d.i) :
    (d - Dec.ofInt d.truncateInt).i = d.i % Dec.precisionReuse := by
  rw [Dec.sub_i, Dec.ofInt_i, Dec.truncateInt, Dec.chopPrecisionAndTruncate,
    Int.tdiv_eq_ediv_of_nonneg h, Int.emod_def, Int.mul_comm]

/-- The whole units and the change add up to the amount. -/
theorem truncateInt_mul_add {d : Dec} (h : 0 ≤ d.i) :
    d.truncateInt * Dec.precisionReuse + (d - Dec.ofInt d.truncateInt).i = d.i := by
  rw [sub_truncateInt_i h, Dec.truncateInt, Dec.chopPrecisionAndTruncate,
    Int.tdiv_eq_ediv_of_nonneg h]
  exact Int.ediv_mul_add_emod d.i Dec.precisionReuse

/-- A nonnegative whole part below `2^255` passes the bound of `NewIntFromBigInt`. -/
theorem not_BitLen_gt {x : ℤ} (h0 : 0 ≤ x) (hb : x < 2 ^ maxBitLen) : ¬BitLen x > maxBitLen := by
  rw [gt_iff_lt, not_lt, BitLen_le_iff, abs_of_nonneg h0]
  exact hb

theorem TruncateDecimal_eq {coin : DecCoin} (h : coin.Splittable) :
    coin.TruncateDecimal =
      .ok (⟨coin.denom, coin.amount.truncateInt⟩, ⟨coin.denom, coin.amount - Dec.ofInt coin.amount.truncateInt⟩) := by
  have h0 : 0 ≤ Dec.chopPrecisionAndTruncate coin.amount.i := truncateInt_nonneg h.nonneg
  -- the whole part fits, the denomination is accepted and the amount is not negative
  unfold TruncateDecimal NewIntFromBigInt SdkInt.checkBitLen Coins.mustValidateDenom Coin.NewCoin
  rw [dif_neg (not_BitLen_gt h0 h.bound)]
  simp only [Except.pure_eq_ok, Except.ok_bind, h.denom, if_true, not_lt.2 h0, if_false]
  rfl

/-- A malformed denomination panics in `NewCoin`, once the whole part fits. -/
theorem TruncateDecimal_of_validateDenom {coin : DecCoin} (hnonneg : 0 ≤ coin.amount.i)
    (hbound : coin.amount.truncateInt < 2 ^ maxBitLen)
    (hdenom : Coins.validateDenom coin.denom = false) :
    coin.TruncateDecimal = .error ⟨"invalid denom: " ++ coin.denom⟩ := by
  have h0 : 0 ≤ Dec.chopPrecisionAndTruncate coin.amount.i := truncateInt_nonneg hnonneg
  unfold TruncateDecimal NewIntFromBigInt SdkInt.checkBitLen Coins.mustValidateDenom
  rw [dif_neg (not_BitLen_gt h0 hbound)]
  simp only [Except.pure_eq_ok, Except.ok_bind, hdenom, Bool.false_eq_true, if_false]
  rfl

end DecCoin

/-! ### The loop of `TruncateDecimal` -/

namespace DecCoins

open DecCoin

/-- The coin added to a set unless it is zero adds its amount. -/
theorem amount_add_unless_zero (a : Coins) (c : Coin) (d : String) :
    Coins.amount (if !c.IsZero then Coins.Add a [c] else a) d = Coins.amount a d + Coins.amount [c] d := by
  split_ifs with hz
  · exact Coins.amount_Add d a [c]
  · have hz0 : c.amount = 0 := by simpa [Coin.IsZero] using hz
    simp [hz0]

theorem canonical_add_unless_zero {a : Coins} (ha : Coins.Canonical a) {c : Coin} (hc : 0 ≤ c.amount) :
    Coins.Canonical (if !c.IsZero then Coins.Add a [c] else a) := by
  split_ifs with hz
  · have hpos : 0 < c.amount := by
      simp only [Bool.not_eq_true', Coin.IsZero, beq_eq_false_iff_ne] at hz
      omega
    exact ha.Add ⟨List.pairwise_singleton _ _, by simpa using hpos⟩
  · exact ha

/-- Adding a decimal coin unless it is zero is adding its units unless they are zero. -/
theorem map_units_add_unless_zero (a : DecCoins) (c : DecCoin) :
    (if !c.IsZero then DecCoins.Add a [c] else a).map units =
      if !c.units.IsZero then Coins.Add (a.map units) [c.units] else a.map units := by
  rw [IsZero_units]
  split_ifs
  · rw [DecCoins.Add, map_units_safeAdd, List.map_cons, List.map_nil]
    rfl
  · rfl

theorem amount_units_add_unless_zero (a : DecCoins) (c : DecCoin) (d : String) :
    Coins.amount ((if !c.IsZero then DecCoins.Add a [c] else a).map units) d =
      Coins.amount (a.map units) d + Coins.amount [c.units] d := by
  rw [map_units_add_unless_zero]
  exact amount_add_unless_zero _ _ d

theorem canonical_add_unless_zero' {a : DecCoins} (ha : Canonical a) {c : DecCoin}
    (hc : 0 ≤ c.amount.i) : Canonical (if !c.IsZero then DecCoins.Add a [c] else a) := by
  rw [canonical_iff_units, map_units_add_unless_zero]
  exact canonical_add_unless_zero (canonical_iff_units.1 ha) hc

/-- What the loop of `TruncateDecimal` keeps, with the coins `rest` still to come: the coins to
come are sorted and split without a panic, the truncated coins and the changes are canonical,
the changes are below one unit and hold nothing of a denomination to come, and what was moved
to the two sets, with what is still to come, is the amount of the input. -/
structure TruncateInv (coins rest : DecCoins) (acc : Coins × DecCoins) : Prop where
  rest_sorted : rest.Pairwise fun a b => a.denom < b.denom
  rest_split : ∀ c ∈ rest, c.Splittable
  truncated : Coins.Canonical acc.1
  change : Canonical acc.2
  change_lt : ∀ d, Coins.amount (acc.2.map units) d < Dec.precisionReuse
  change_rest : ∀ c ∈ rest, Coins.amount (acc.2.map units) c.denom = 0
  amounts : ∀ d, Coins.amount acc.1 d * Dec.precisionReuse + Coins.amount (acc.2.map units) d +
    Coins.amount (rest.map units) d = Coins.amount (coins.map units) d

/-- The loop starts from empty sets with the whole input to come. -/
theorem TruncateInv.start {coins : DecCoins} (hsorted : coins.Pairwise fun a b => a.denom < b.denom)
    (hsplit : ∀ c ∈ coins, c.Splittable) : TruncateInv coins coins ([], []) where
  rest_sorted := hsorted
  rest_split := hsplit
  truncated := ⟨List.Pairwise.nil, fun _ h => by cases h⟩
  change := ⟨List.Pairwise.nil, fun _ h => by cases h⟩
  change_lt _ := Dec.precisionReuse_pos
  change_rest _ _ := rfl
  amounts d := by simp

/-- One coin moves its whole units to the truncated coins and its change to the changes. -/
theorem truncateStep_inv {coins rest : DecCoins} {coin : DecCoin} {acc : Coins × DecCoins}
    (h : TruncateInv coins (coin :: rest) acc) :
    ∃ acc', truncateStep acc coin = .ok acc' ∧ TruncateInv coins rest acc' := by
  have hsplit := h.rest_split coin List.mem_cons_self
  obtain ⟨hbelow, hsorted⟩ := List.pairwise_cons.1 h.rest_sorted
  have ht0 := truncateInt_nonneg hsplit.nonneg
  have hr := sub_truncateInt_i hsplit.nonneg
  have hrlt : coin.amount.i % Dec.precisionReuse < Dec.precisionReuse :=
    Int.emod_lt_of_pos _ Dec.precisionReuse_pos
  have hr0 : 0 ≤ coin.amount.i % Dec.precisionReuse := Int.emod_nonneg _ Dec.precisionReuse_pos.ne'
  have hsum := truncateInt_mul_add hsplit.nonneg
  -- the changes held nothing of the coin's denomination
  have hfresh := h.change_rest coin List.mem_cons_self
  refine ⟨_, by rw [truncateStep, TruncateDecimal_eq hsplit]; rfl, ?_⟩
  constructor
  · exact hsorted
  · exact fun c hc => h.rest_split c (List.mem_cons_of_mem _ hc)
  · exact canonical_add_unless_zero h.truncated ht0
  · exact canonical_add_unless_zero' h.change (by rw [hr]; exact hr0)
  · intro d
    rw [amount_units_add_unless_zero]
    have hd := h.change_lt d
    by_cases hden : coin.denom = d
    · subst hden
      simp only [Coins.amount_cons, units_denom, if_true, units_amount, hr, Coins.amount_nil]
      omega
    · simp only [Coins.amount_cons, units_denom, hden, if_false, Coins.amount_nil]
      omega
  · intro c hc
    have hne : coin.denom ≠ c.denom := (hbelow c hc).ne
    rw [amount_units_add_unless_zero, h.change_rest c (List.mem_cons_of_mem _ hc)]
    simp [hne]
  · intro d
    rw [amount_add_unless_zero, amount_units_add_unless_zero, ← h.amounts d]
    by_cases hden : coin.denom = d
    · -- the coin's amount is its whole units and its change
      subst hden
      simp only [Coins.amount_cons, units_denom, if_true, units_amount, Coins.amount_nil,
        List.map_cons, add_zero]
      linarith
    · simp only [Coins.amount_cons, units_denom, hden, if_false, Coins.amount_nil, List.map_cons,
        add_zero, zero_add]

theorem TruncateDecimal_conserves {coins : DecCoins} (hc : Canonical coins)
    (hdenom : ∀ c ∈ coins, Coins.validateDenom c.denom = true)
    (hbound : ∀ c ∈ coins, c.amount.truncateInt < 2 ^ 255) :
    ∃ t r, coins.TruncateDecimal = .ok (t, r) ∧ Coins.Canonical t ∧ Canonical r ∧
      (∀ c ∈ r, 0 < c.amount ∧ c.amount < Dec.one) ∧
      ∀ d, Dec.ofInt (t.AmountOf d) + r.AmountOf d = coins.AmountOf d := by
  have hstart := TruncateInv.start hc.sorted fun c hc' =>
    ⟨(hc.pos c hc').le, hbound c hc', hdenom c hc'⟩
  obtain ⟨⟨t, r⟩, hrun, hinv⟩ :=
    Except.foldlM_ok (TruncateInv coins) (fun _ _ _ h => truncateStep_inv h) coins ([], []) hstart
  have hr := canonical_iff_units.1 hinv.change
  have hcoins := canonical_iff_units.1 hc
  refine ⟨t, r, hrun, hinv.truncated, hinv.change, fun c hc' => ⟨hinv.change.pos c hc', ?_⟩, ?_⟩
  · -- a change is the amount of its denomination among the changes
    have hmem : c.units ∈ r.map units := List.mem_map_of_mem hc'
    have hamount := Coins.amount_of_mem hr.sorted hmem
    have hlt := hinv.change_lt c.denom
    rw [units_denom, units_amount] at hamount
    rw [hamount] at hlt
    exact hlt
  · intro d
    apply Dec.i_injective
    have hd := hinv.amounts d
    simp only [List.map_nil, Coins.amount_nil, add_zero] at hd
    rw [Dec.add_i, Dec.ofInt_i, AmountOf_i, AmountOf_i, Coins.AmountOf_eq_amount hinv.truncated.sorted,
      Coins.AmountOf_eq_amount hr.sorted, Coins.AmountOf_eq_amount hcoins.sorted]
    exact hd

theorem TruncateDecimal_conserves_atom :
    ∃ t r, TruncateDecimal [⟨"atom", ⟨15 * 10 ^ 17⟩⟩] = .ok (t, r) ∧ Coins.Canonical t ∧
      Canonical r ∧ (∀ c ∈ r, 0 < c.amount ∧ c.amount < Dec.one) ∧
      ∀ d, Dec.ofInt (t.AmountOf d) + r.AmountOf d = AmountOf [⟨"atom", ⟨15 * 10 ^ 17⟩⟩] d :=
  TruncateDecimal_conserves ⟨List.pairwise_singleton _ _, by decide⟩ (by decide) (by decide)

/-- A sorted set of positive coins with a denomination that `validateDenom` refuses panics in
`NewCoin`. -/
theorem TruncateDecimal_invalid_denom :
    Canonical [⟨"a", ⟨15 * 10 ^ 17⟩⟩] ∧
      TruncateDecimal [⟨"a", ⟨15 * 10 ^ 17⟩⟩] = .error ⟨"invalid denom: a"⟩ := by
  refine ⟨⟨List.pairwise_singleton _ _, by decide⟩, ?_⟩
  have hcoin : DecCoin.TruncateDecimal ⟨"a", ⟨15 * 10 ^ 17⟩⟩ = .error ⟨"invalid denom: " ++ "a"⟩ :=
    DecCoin.TruncateDecimal_of_validateDenom (by decide) (by decide) (by decide)
  rw [TruncateDecimal, List.foldlM_cons, truncateStep, hcoin]
  rfl

end DecCoins

/-! ### Conversion, subtraction and products -/

namespace DecCoin

/-- `DecCoin.IsNegative`: the amount's sign is `-1`. -/
def IsNegative (coin : DecCoin) : Bool := decide (coin.amount.i < 0)

@[simp] theorem IsNegative_units (coin : DecCoin) : coin.units.IsNegative = coin.IsNegative := rfl

end DecCoin

/-- `NewDecCoinFromCoin`: refuses a negative amount and a denomination with upper case. -/
def NewDecCoinFromCoin (coin : Coin) : Except Panic DecCoin :=
  if coin.amount < 0 then throw ⟨"negative decimal coin amount: " ++ toString coin.amount ++ "\n"⟩
  else if coin.denom.toLower ≠ coin.denom then
    throw ⟨"denom cannot contain upper case characters: " ++ coin.denom ++ "\n"⟩
  else pure ⟨coin.denom, Dec.ofInt coin.amount⟩

/-- `NewDecCoins`: each coin converted, in the order given. -/
def NewDecCoins (coins : Coins) : Except Panic DecCoins := coins.mapM NewDecCoinFromCoin

namespace DecCoins

open DecCoin

/-- `DecCoins.negative`. -/
def negative (coins : DecCoins) : DecCoins := coins.map fun coin => ⟨coin.denom, -coin.amount⟩

/-- `DecCoins.IsAnyNegative`. -/
def IsAnyNegative (coins : DecCoins) : Bool := coins.any DecCoin.IsNegative

/-- `DecCoins.IsZero`: no coins, or only zero ones. -/
def IsZero (coins : DecCoins) : Bool := coins.all DecCoin.IsZero

/-- `DecCoins.SafeSub`: the difference, and whether an amount of it is negative. -/
def SafeSub (coins coinsB : DecCoins) : DecCoins × Bool :=
  let diff := safeAdd coins (negative coinsB)
  (diff, IsAnyNegative diff)

/-- `DecCoins.Sub`: panics when an amount goes negative. -/
def Sub (coins coinsB : DecCoins) : Except Panic DecCoins :=
  let (diff, hasNeg) := SafeSub coins coinsB
  if hasNeg then throw ⟨"negative coin amount"⟩ else pure diff

/-- The loop of `MulDec` and `MulDecTruncate`: the product of each coin by `mul`, added to
the result unless it is zero. -/
def mulEach (mul : Dec → Dec) (coins : DecCoins) : DecCoins :=
  coins.foldl (fun res coin =>
    let product : DecCoin := ⟨coin.denom, mul coin.amount⟩
    if !product.IsZero then DecCoins.Add res [product] else res) []

/-- `DecCoins.MulDec`. -/
def MulDec (coins : DecCoins) (d : Dec) : DecCoins := mulEach (fun a => a.mul d) coins

/-- `DecCoins.MulDecTruncate`. -/
def MulDecTruncate (coins : DecCoins) (d : Dec) : DecCoins := mulEach (fun a => a.mulTruncate d) coins

/-- The units a set holds of a denomination: the amount of its coins of units. -/
def amount (coins : DecCoins) (denom : String) : ℤ := Coins.amount (coins.map units) denom

section Amount

variable (denom : String)

@[simp] theorem amount_nil : amount [] denom = 0 := rfl

@[simp] theorem amount_cons (c : DecCoin) (coins : DecCoins) :
    amount (c :: coins) denom = (if c.denom = denom then c.amount.i else 0) + amount coins denom :=
  Coins.amount_cons denom c.units (coins.map units)

@[simp] theorem amount_Add (a b : DecCoins) : amount (a.Add b) denom = amount a denom + amount b denom :=
  amount_units_Add a b denom

theorem map_units_negative (coins : DecCoins) :
    (negative coins).map units = Coins.negative (coins.map units) := by
  simp only [negative, Coins.negative, List.map_map]
  rfl

@[simp] theorem amount_negative (coins : DecCoins) : amount (negative coins) denom = -amount coins denom := by
  rw [amount, map_units_negative, Coins.amount_negative]
  rfl

theorem IsAnyNegative_units (coins : DecCoins) : Coins.IsAnyNegative (coins.map units) = coins.IsAnyNegative := by
  simp only [Coins.IsAnyNegative, IsAnyNegative, List.any_map]
  rfl

/-- The subtraction of decimal coins is the subtraction of their units. -/
theorem SafeSub_units (a b : DecCoins) :
    ((a.SafeSub b).1.map units, (a.SafeSub b).2) = Coins.SafeSub (a.map units) (b.map units) := by
  dsimp only [SafeSub, Coins.SafeSub]
  rw [← IsAnyNegative_units, map_units_safeAdd, map_units_negative]

@[simp] theorem amount_SafeSub (a b : DecCoins) :
    amount (a.SafeSub b).1 denom = amount a denom - amount b denom := by
  have h : (a.SafeSub b).1.map units = (Coins.SafeSub (a.map units) (b.map units)).1 :=
    congrArg Prod.fst (SafeSub_units a b)
  rw [amount, h, Coins.amount_SafeSub]
  rfl

end Amount

/-- A set of zero coins holds nothing. -/
theorem amount_eq_zero_of_IsZero {coins : DecCoins} (h : coins.IsZero = true) (denom : String) :
    amount coins denom = 0 := by
  induction coins with
  | nil => rfl
  | cons c coins ih =>
    simp only [IsZero, List.all_cons, Bool.and_eq_true] at h
    have hc : c.amount.i = 0 := by simpa [DecCoin.IsZero] using h.1
    rw [amount_cons, ih h.2, hc]
    simp

/-- A canonical set holds a nonnegative amount of each denomination. -/
theorem Canonical.amount_nonneg {coins : DecCoins} (h : Canonical coins) (denom : String) :
    0 ≤ amount coins denom :=
  (canonical_iff_units.1 h).amount_nonneg denom

theorem Sub_eq (a b : DecCoins) :
    a.Sub b = if (a.SafeSub b).2 then throw ⟨"negative coin amount"⟩ else pure (a.SafeSub b).1 := rfl

/-- What `Sub` returns holds the differences. -/
theorem amount_of_Sub_eq_ok {a b c : DecCoins} (h : a.Sub b = .ok c) (d : String) :
    amount c d = amount a d - amount b d := by
  rw [Sub_eq] at h
  split_ifs at h
  cases h
  exact amount_SafeSub d a b

/-- Whatever the amount, what `DecCoin.TruncateDecimal` returns adds up to it: the whole units
and the change, both of the coin's denomination. -/
theorem units_of_TruncateDecimal_eq_ok {coin : DecCoin} {t : Coin} {change : DecCoin}
    (h : coin.TruncateDecimal = .ok (t, change)) :
    t.denom = coin.denom ∧ change.denom = coin.denom ∧
      t.amount * Dec.precisionReuse + change.amount.i = coin.amount.i := by
  unfold DecCoin.TruncateDecimal at h
  obtain ⟨truncated, -, h⟩ := Except.bind_eq_ok.mp h
  obtain ⟨-, -, h⟩ := Except.bind_eq_ok.mp h
  obtain ⟨t', ht', h⟩ := Except.bind_eq_ok.mp h
  cases h
  unfold Coin.NewCoin at ht'
  split_ifs at ht'
  cases ht'
  refine ⟨rfl, rfl, ?_⟩
  rw [Dec.sub_i, Dec.ofInt_i]
  ring

/-- One coin of the loop of `TruncateDecimal` moves its amount to the whole units and the
change. -/
theorem amount_of_truncateStep_eq_ok {acc acc' : Coins × DecCoins} {coin : DecCoin}
    (h : truncateStep acc coin = .ok acc') (d : String) :
    Coins.amount acc'.1 d * Dec.precisionReuse + amount acc'.2 d =
      Coins.amount acc.1 d * Dec.precisionReuse + amount acc.2 d + amount [coin] d := by
  unfold truncateStep at h
  obtain ⟨⟨t, change⟩, hcoin, h⟩ := Except.bind_eq_ok.mp h
  cases h
  obtain ⟨htd, hcd, hsum⟩ := units_of_TruncateDecimal_eq_ok hcoin
  unfold amount
  rw [amount_add_unless_zero, amount_units_add_unless_zero]
  simp only [Coins.amount_cons, Coins.amount_nil, List.map_cons, List.map_nil, units_denom,
    units_amount, htd, hcd, add_zero]
  by_cases hd : coin.denom = d
  · simp only [hd, if_true]
    linarith
  · simp only [hd, if_false]
    ring

/-- Whatever the coins, what `TruncateDecimal` returns holds their amounts: the whole units of
each denomination, times one unit, with its change. -/
theorem amount_of_TruncateDecimal_eq_ok {coins : DecCoins} {t : Coins} {r : DecCoins}
    (h : coins.TruncateDecimal = .ok (t, r)) (d : String) :
    Coins.amount t d * Dec.precisionReuse + amount r d = amount coins d := by
  -- the loop keeps what was moved, with what is still to come, equal to the input
  have hend := Except.foldlM_invariant_rest
    (fun rest (acc : Coins × DecCoins) =>
      Coins.amount acc.1 d * Dec.precisionReuse + amount acc.2 d + amount rest d = amount coins d)
    (fun coin rest acc acc' hacc hstep => by
      rw [← hacc, amount_of_truncateStep_eq_ok hstep d, amount_cons, amount_cons, amount_nil]
      ring)
    coins ([], []) (t, r) (by simp) h
  simpa using hend

/-- `Sub` of canonical sets returns when the second holds at most the first of each
denomination: a canonical set of the differences. -/
theorem Sub_eq_ok_of_le {a b : DecCoins} (ha : Canonical a) (hb : Canonical b)
    (hle : ∀ d, amount b d ≤ amount a d) :
    ∃ c, a.Sub b = .ok c ∧ Canonical c ∧ ∀ d, amount c d = amount a d - amount b d := by
  have hA := canonical_iff_units.1 ha
  have hB := canonical_iff_units.1 hb
  have hunits := SafeSub_units a b
  -- no denomination goes negative, so `SafeSub` of the units reports nothing
  have hneg : (a.SafeSub b).2 = false := by
    rw [congrArg Prod.snd hunits, Bool.eq_false_iff, ne_eq, Coins.SafeSub_hasNeg_iff hA hB]
    rintro ⟨d, hd⟩
    rw [Coins.AmountOf_eq_amount hA.sorted, Coins.AmountOf_eq_amount hB.sorted] at hd
    exact absurd (hle d) (not_le.2 hd)
  have hcanon := (Coins.SafeSub_canonical hA hB (by rw [← congrArg Prod.snd hunits]; exact hneg)).1
  rw [← congrArg Prod.fst hunits] at hcanon
  refine ⟨(a.SafeSub b).1, by rw [Sub_eq, hneg]; rfl, canonical_iff_units.2 hcanon, ?_⟩
  intro d
  exact amount_SafeSub d a b

/-! ### The products of a set -/

section MulEach

variable (mul : Dec → Dec)

/-- The loop from any accumulator adds the amounts of the products. -/
theorem amount_foldl_mulEach (d : String) : ∀ (coins res : DecCoins),
    amount (coins.foldl (fun res coin =>
      let product : DecCoin := ⟨coin.denom, mul coin.amount⟩
      if !product.IsZero then DecCoins.Add res [product] else res) res) d =
      amount res d + amount (coins.map fun c => ⟨c.denom, mul c.amount⟩) d
  | [], res => by simp
  | c :: coins, res => by
    have hstep : amount (if !(⟨c.denom, mul c.amount⟩ : DecCoin).IsZero then
        DecCoins.Add res [⟨c.denom, mul c.amount⟩] else res) d =
        amount res d + amount [⟨c.denom, mul c.amount⟩] d :=
      amount_units_add_unless_zero res _ d
    rw [List.foldl_cons, amount_foldl_mulEach d coins, hstep, List.map_cons, amount_cons,
      amount_cons, amount_nil]
    abel

/-- The products hold, of each denomination, the sum of the products of its coins. -/
theorem amount_mulEach (coins : DecCoins) (d : String) :
    amount (mulEach mul coins) d = amount (coins.map fun c => ⟨c.denom, mul c.amount⟩) d := by
  rw [mulEach, amount_foldl_mulEach, amount_nil, zero_add]

/-- On a sorted set, each denomination's product is the product of its amount, when `mul`
keeps zero. -/
theorem amount_mulEach_of_sorted {coins : DecCoins} (hs : coins.Pairwise fun a b => a.denom < b.denom)
    (hmul : mul 0 = 0) (d : String) :
    amount (mulEach mul coins) d = (mul ⟨amount coins d⟩).i := by
  have hsorted : Coins.Sorted (coins.map units) :=
    (List.pairwise_map (R := fun a b : Coin => a.denom < b.denom)).2 hs
  have hprod : Coins.Sorted ((coins.map fun c => (⟨c.denom, mul c.amount⟩ : DecCoin)).map units) := by
    rw [List.map_map]
    exact (List.pairwise_map (R := fun a b : Coin => a.denom < b.denom)).2 hs
  rw [amount_mulEach]
  by_cases hd : ∃ c ∈ coins, c.denom = d
  · -- the one coin of the denomination, and its product
    obtain ⟨c, hc, rfl⟩ := hd
    have hmem : (⟨c.denom, mul c.amount⟩ : DecCoin).units ∈
        (coins.map fun c => (⟨c.denom, mul c.amount⟩ : DecCoin)).map units :=
      List.mem_map_of_mem (List.mem_map_of_mem hc)
    have hamount := Coins.amount_of_mem hsorted (List.mem_map_of_mem hc)
    have hproduct := Coins.amount_of_mem hprod hmem
    simp only [units_denom, units_amount] at hamount hproduct
    rw [amount, hproduct, amount, hamount]
  · push Not at hd
    have h0 : amount coins d = 0 :=
      Coins.amount_eq_zero_of_forall_ne fun x hx => by
        obtain ⟨c, hc, rfl⟩ := List.mem_map.1 hx
        exact hd c hc
    have h0' : amount (coins.map fun c => (⟨c.denom, mul c.amount⟩ : DecCoin)) d = 0 :=
      Coins.amount_eq_zero_of_forall_ne fun x hx => by
        obtain ⟨c, hc, rfl⟩ := List.mem_map.1 (List.map_map ▸ hx)
        exact hd c hc
    rw [h0', h0]
    exact (congrArg Dec.i hmul).symm

/-- The loop from a canonical accumulator, over products that are not negative, stays
canonical. -/
theorem canonical_foldl_mulEach : ∀ (coins : DecCoins) {res : DecCoins}, Canonical res →
    (∀ c ∈ coins, 0 ≤ (mul c.amount).i) →
    Canonical (coins.foldl (fun res coin =>
      let product : DecCoin := ⟨coin.denom, mul coin.amount⟩
      if !product.IsZero then DecCoins.Add res [product] else res) res)
  | [], _, hres, _ => hres
  | c :: coins, _, hres, hnonneg => by
    rw [List.foldl_cons]
    exact canonical_foldl_mulEach coins
      (canonical_add_unless_zero' hres (hnonneg c List.mem_cons_self))
      fun x hx => hnonneg x (List.mem_cons_of_mem _ hx)

theorem canonical_mulEach {coins : DecCoins} (hnonneg : ∀ c ∈ coins, 0 ≤ (mul c.amount).i) :
    Canonical (mulEach mul coins) :=
  canonical_foldl_mulEach mul coins ⟨List.Pairwise.nil, fun _ h => by cases h⟩ hnonneg

end MulEach

/-! ### Coins as decimal coins -/

/-- Each coin's amount as a decimal. -/
theorem NewDecCoins_eq_ok : ∀ {coins : Coins},
    (∀ c ∈ coins, 0 ≤ c.amount ∧ c.denom.toLower = c.denom) →
      NewDecCoins coins = .ok (coins.map fun c => ⟨c.denom, Dec.ofInt c.amount⟩)
  | [], _ => rfl
  | c :: coins, h => by
    have hc : NewDecCoinFromCoin c = .ok ⟨c.denom, Dec.ofInt c.amount⟩ := by
      obtain ⟨h0, hlow⟩ := h c List.mem_cons_self
      rw [NewDecCoinFromCoin, if_neg (not_lt.2 h0), if_neg (not_not.2 hlow)]
      rfl
    have hrest := NewDecCoins_eq_ok fun x hx => h x (List.mem_cons_of_mem c hx)
    unfold NewDecCoins at hrest ⊢
    rw [List.mapM_cons, hc, Except.ok_bind, hrest]
    rfl

/-- What `NewDecCoins` returns is each coin's amount as a decimal. -/
theorem eq_map_of_NewDecCoins_eq_ok {coins : Coins} {F : DecCoins} (h : NewDecCoins coins = .ok F) :
    F = coins.map fun c => ⟨c.denom, Dec.ofInt c.amount⟩ := by
  refine Except.eq_map_of_mapM_eq_ok (fun coin c hc => ?_) h
  unfold NewDecCoinFromCoin at hc
  split_ifs at hc
  cases hc
  rfl

theorem amount_map_ofInt (coins : Coins) (denom : String) :
    amount (coins.map fun c => ⟨c.denom, Dec.ofInt c.amount⟩) denom =
      Coins.amount coins denom * Dec.precisionReuse := by
  induction coins with
  | nil => simp
  | cons c coins ih =>
    rw [List.map_cons, amount_cons, ih, Coins.amount_cons, Dec.ofInt_i]
    split_ifs <;> ring

/-- Canonical coins become canonical decimal coins. -/
theorem canonical_map_ofInt {coins : Coins} (h : Coins.Canonical coins) :
    Canonical (coins.map fun c => ⟨c.denom, Dec.ofInt c.amount⟩) where
  sorted := (List.pairwise_map (R := fun a b : DecCoin => a.denom < b.denom)).2 h.sorted
  pos c hc := by
    obtain ⟨x, hx, rfl⟩ := List.mem_map.1 hc
    exact mul_pos (h.pos x hx) Dec.precisionReuse_pos

end DecCoins

/-! ### Quotients, intersections and comparison -/

namespace DecCoin

/-- `DecCoin.IsEqual`: panics on two denominations. -/
def IsEqual (coin other : DecCoin) : Except Panic Bool :=
  if coin.denom ≠ other.denom then
    throw ⟨"invalid coin denominations; " ++ coin.denom ++ ", " ++ other.denom⟩
  else pure (coin.amount == other.amount)

end DecCoin

namespace DecCoins

open DecCoin

/-- `DecCoins.QuoDecTruncate`: the truncated quotient of each coin, added to the result unless
it is zero; a zero divisor panics. -/
def QuoDecTruncate (coins : DecCoins) (d : Dec) : Except Panic DecCoins :=
  if d.isZero then throw ⟨"invalid zero decimal"⟩
  else coins.foldlM (fun res coin => do
    let quotient : DecCoin := ⟨coin.denom, ← coin.amount.quoTruncate d⟩
    pure (if !quotient.IsZero then DecCoins.Add res [quotient] else res)) []

/-- `DecCoins.Intersect`: each coin down to what `coinsB` holds of its denomination, the zero
coins dropped. -/
def Intersect (coins coinsB : DecCoins) : DecCoins :=
  removeZeroDecCoins (coins.map fun coin =>
    ⟨coin.denom, Dec.MinDec coin.amount (coinsB.AmountOf coin.denom)⟩)

/-- `DecCoins.Sort`: `sort.Sort` by denomination. -/
def sort (coins : DecCoins) : DecCoins := coins.mergeSort fun a b => decide (a.denom ≤ b.denom)

/-- `DecCoins.IsEqual`: the same length, and after sorting the same coins one by one; two
coins of different denominations at one index panic. -/
def IsEqual (coins coinsB : DecCoins) : Except Panic Bool :=
  if coins.length ≠ coinsB.length then pure false
  else go coins.sort coinsB.sort
where
  /-- The loop over the indexes, stopping at the first difference. -/
  go : DecCoins → DecCoins → Except Panic Bool
    | coin :: coins, coinB :: coinsB => do
      if !(← coin.IsEqual coinB) then pure false else go coins coinsB
    | _, _ => pure true

/-- The quotient of an amount by a nonzero divisor, as `QuoTruncate` computes it. -/
def quoTruncateBy (d a : Dec) : Dec :=
  ⟨Dec.chopPrecisionAndTruncate ((a.i * Dec.precisionReuse * Dec.precisionReuse).tdiv d.i)⟩

/-- By a nonzero divisor no quotient panics, and the loop is the loop of products by the
quotient. -/
theorem QuoDecTruncate_eq {coins : DecCoins} {d : Dec} (hd : d.i ≠ 0) :
    coins.QuoDecTruncate d = .ok (mulEach (quoTruncateBy d) coins) := by
  have hq : ∀ a : Dec, a.quoTruncate d = .ok (quoTruncateBy d a) := fun a => by
    simp [Dec.quoTruncate, hd, quoTruncateBy]
  unfold QuoDecTruncate mulEach
  rw [if_neg (by simpa using hd)]
  exact Except.foldlM_pure (fun res coin => by rw [hq]; rfl) coins []

/-- The quotient of a nonnegative amount by a positive divisor is nonnegative. -/
theorem quoTruncateBy_nonneg {d a : Dec} (hd : 0 < d.i) (ha : 0 ≤ a.i) : 0 ≤ (quoTruncateBy d a).i := by
  have hP := Dec.precisionReuse_pos
  have hnum : 0 ≤ a.i * Dec.precisionReuse * Dec.precisionReuse := by positivity
  exact Int.tdiv_nonneg (Int.tdiv_nonneg hnum hd.le) hP.le

/-- On a sorted set, rewriting each coin's amount by a function of its denomination and
amount that keeps zero rewrites each denomination's amount so. -/
theorem amount_map_of_sorted {coins : DecCoins} (hs : coins.Pairwise fun a b => a.denom < b.denom)
    (g : String → Dec → Dec) (hg : ∀ d, g d 0 = 0) (d : String) :
    amount (coins.map fun c => ⟨c.denom, g c.denom c.amount⟩) d = (g d ⟨amount coins d⟩).i := by
  have hsorted : Coins.Sorted (coins.map units) :=
    (List.pairwise_map (R := fun a b : Coin => a.denom < b.denom)).2 hs
  have himage : Coins.Sorted ((coins.map fun c => (⟨c.denom, g c.denom c.amount⟩ : DecCoin)).map units) := by
    rw [List.map_map]
    exact (List.pairwise_map (R := fun a b : Coin => a.denom < b.denom)).2 hs
  by_cases hd : ∃ c ∈ coins, c.denom = d
  · -- the one coin of the denomination, and what it becomes
    obtain ⟨c, hc, rfl⟩ := hd
    have hmem : (⟨c.denom, g c.denom c.amount⟩ : DecCoin).units ∈
        (coins.map fun c => (⟨c.denom, g c.denom c.amount⟩ : DecCoin)).map units :=
      List.mem_map_of_mem (List.mem_map_of_mem hc)
    have hamount := Coins.amount_of_mem hsorted (List.mem_map_of_mem hc)
    have himg := Coins.amount_of_mem himage hmem
    simp only [units_denom, units_amount] at hamount himg
    rw [amount, himg, amount, hamount]
  · push Not at hd
    have h0 : amount coins d = 0 :=
      Coins.amount_eq_zero_of_forall_ne fun x hx => by
        obtain ⟨c, hc, rfl⟩ := List.mem_map.1 hx
        exact hd c hc
    have h0' : amount (coins.map fun c => (⟨c.denom, g c.denom c.amount⟩ : DecCoin)) d = 0 :=
      Coins.amount_eq_zero_of_forall_ne fun x hx => by
        obtain ⟨c, hc, rfl⟩ := List.mem_map.1 (List.map_map ▸ hx)
        exact hd c hc
    rw [h0', h0]
    exact (congrArg Dec.i (hg d)).symm

/-- What a canonical set holds of a denomination is what `AmountOf` finds. -/
theorem Canonical.AmountOf_i {coins : DecCoins} (h : Canonical coins) (d : String) :
    (coins.AmountOf d).i = amount coins d := by
  rw [DecCoins.AmountOf_i, Coins.AmountOf_eq_amount (canonical_iff_units.1 h).sorted]
  rfl

/-- Of each denomination, the intersection holds the lesser of the two amounts. -/
theorem amount_Intersect {a b : DecCoins} (ha : a.Pairwise fun x y => x.denom < y.denom)
    (hb : Canonical b) (d : String) :
    amount (a.Intersect b) d = min (amount a d) (amount b d) := by
  have hkeep : ∀ d, Dec.MinDec 0 (b.AmountOf d) = 0 := fun d => by
    rw [Dec.MinDec_eq_min]
    exact min_eq_left ((Dec.le_iff _ _).2 (by rw [hb.AmountOf_i]; exact hb.amount_nonneg d))
  rw [Intersect, amount, map_units_removeZeroDecCoins, Coins.amount_removeZeroCoins, ← amount,
    amount_map_of_sorted ha (fun d x => Dec.MinDec x (b.AmountOf d)) hkeep, Dec.MinDec_eq_min]
  rcases le_total (amount a d) (amount b d) with h | h
  · rw [min_eq_left ((Dec.le_iff _ _).2 (by rw [hb.AmountOf_i]; exact h)), min_eq_left h]
  · rw [min_eq_right ((Dec.le_iff _ _).2 (by rw [hb.AmountOf_i]; exact h)), min_eq_right h,
      hb.AmountOf_i]

/-- The intersection of two canonical sets is canonical. -/
theorem canonical_Intersect {a b : DecCoins} (ha : Canonical a) (hb : Canonical b) :
    Canonical (a.Intersect b) where
  sorted := by
    unfold Intersect removeZeroDecCoins
    refine List.Pairwise.filter _ ((List.pairwise_map (R := fun x y : DecCoin => x.denom < y.denom)
      (f := fun c : DecCoin => (⟨c.denom, Dec.MinDec c.amount (b.AmountOf c.denom)⟩ : DecCoin))).2
      ha.sorted)
  pos c hc := by
    obtain ⟨hc, hnz⟩ := List.mem_filter.1 hc
    obtain ⟨x, hx, rfl⟩ := List.mem_map.1 hc
    -- the lesser of a positive amount and a nonnegative one, and not zero
    have hB : 0 ≤ (b.AmountOf x.denom).i := by rw [hb.AmountOf_i]; exact hb.amount_nonneg _
    have h0 : 0 ≤ (Dec.MinDec x.amount (b.AmountOf x.denom)).i := by
      rw [Dec.MinDec_eq_min]
      rcases le_total x.amount (b.AmountOf x.denom) with h | h
      · rw [min_eq_left h]; exact (ha.pos x hx).le
      · rw [min_eq_right h]; exact hB
    have hne : (Dec.MinDec x.amount (b.AmountOf x.denom)).i ≠ 0 := by
      simpa [DecCoin.IsZero] using hnz
    exact lt_of_le_of_ne h0 (Ne.symm hne)

/-- The loop of `IsEqual` over a rewrite of a set's amounts and the set never panics: the
denominations agree at every index. -/
theorem IsEqual_go_map (g : DecCoin → Dec) :
    ∀ a : DecCoins, ∃ r, IsEqual.go (a.map fun c => ⟨c.denom, g c⟩) a = .ok r
  | [] => ⟨true, rfl⟩
  | c :: a => by
    obtain ⟨r, hr⟩ := IsEqual_go_map g a
    have hc : DecCoin.IsEqual ⟨c.denom, g c⟩ c = .ok (g c == c.amount) := if_neg (not_not.2 rfl)
    rw [List.map_cons, IsEqual.go, hc, Except.ok_bind]
    cases g c == c.amount
    · exact ⟨false, rfl⟩
    · exact ⟨r, hr⟩

/-- An intersection compared with the sorted set it was taken of never panics. -/
theorem IsEqual_Intersect {a b : DecCoins} (ha : a.Pairwise fun x y => x.denom < y.denom) :
    ∃ r, (a.Intersect b).IsEqual a = .ok r := by
  unfold IsEqual
  split_ifs with hlen
  · exact ⟨false, rfl⟩
  · -- of the same length, the intersection dropped no coin: it is the rewritten set
    have hlen' : (a.Intersect b).length = a.length := not_not.1 hlen
    have hall := List.length_filter_eq_length_iff.1 (hlen'.trans (List.length_map _).symm)
    have heq : a.Intersect b = a.map fun c => ⟨c.denom, Dec.MinDec c.amount (b.AmountOf c.denom)⟩ :=
      List.filter_eq_self.2 hall
    have hle : a.Pairwise fun x y => decide (x.denom ≤ y.denom) = true :=
      ha.imp fun h => decide_eq_true h.le
    have hsortA : a.sort = a := List.mergeSort_of_pairwise hle
    have hsortI : (a.Intersect b).sort = a.Intersect b := by
      rw [heq]
      exact List.mergeSort_of_pairwise (List.pairwise_map.2 hle)
    rw [hsortA, hsortI, heq]
    exact IsEqual_go_map _ a

end DecCoins

end CosmosSdk
