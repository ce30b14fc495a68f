import CosmosSdk.Types.Basic
import Mathlib.Data.List.Pairwise
import Mathlib.Order.Basic

/-!
# `sdk.Coins`

A set of coins is a list sorted by denomination, without zero amounts (`types/coin.go`).
Addition merges two such lists (`safeAdd`); subtraction adds the negated coins and reports
whether an amount went negative (`SafeSub`); `AmountOf` finds a denomination by binary
search.

The model keeps the Go algorithms: `safeAdd` is the two-index merge loop, written as a
recursion on the first list whose step walks the second; `AmountOf` is the binary search,
with the length of the list as its fuel.

`mustValidateDenom` in `AmountOf` panics on a malformed denomination.  `AmountOf` is the
lookup without it, which the modelled code calls on the denominations of coin sets that
`IsValid` accepted and on the bond denomination; `checkedAmountOf` is the lookup with it.
-/

namespace CosmosSdk

namespace Coin

/-- `Coin.IsZero`. -/
def IsZero (coin : Coin) : Bool := coin.amount == 0

/-- `Coin.IsPositive`: `Sign() == 1`. -/
def IsPositive (coin : Coin) : Bool := decide (0 < coin.amount)

/-- `Coin.IsNegative`: `Sign() == -1`. -/
def IsNegative (coin : Coin) : Bool := decide (coin.amount < 0)

/-- `sdk.NewCoin` after its `mustValidateDenom`: panics on a negative amount. -/
def NewCoin (denom : String) (amount : ℤ) : Except Panic Coin :=
  if amount < 0 then throw ⟨"negative coin amount: " ++ ToString.toString amount⟩
  else pure ⟨denom, amount⟩

/-- `Coin.Add`, on coins of one denomination (Go panics on two: `safeAdd` never asks). -/
def Add (coin coinB : Coin) : Coin := ⟨coin.denom, coin.amount + coinB.amount⟩

/-- `Coin.IsEqual`: panics on two denominations. -/
def IsEqual (coin other : Coin) : Except Panic Bool :=
  if coin.denom ≠ other.denom then
    throw ⟨"invalid coin denominations; " ++ coin.denom ++ ", " ++ other.denom⟩
  else pure (coin.amount == other.amount)

/-- `Coin.String()`: the amount, then the denomination. -/
def toString (coin : Coin) : String := ToString.toString coin.amount ++ coin.denom

@[simp] theorem IsZero_iff (coin : Coin) : coin.IsZero = true ↔ coin.amount = 0 := by
  simp [IsZero]

end Coin

/-- `sdk.Coins`. -/
abbrev Coins := List Coin

namespace Coins

/-- `validateDenom`: the denomination matches `[a-z][a-z0-9]{2,15}`. -/
def validateDenom (denom : String) : Bool :=
  match denom.toList with
  | [] => false
  | c :: cs =>
    c.isLower && cs.all (fun d => d.isLower || d.isDigit) && 2 ≤ cs.length && cs.length ≤ 15

/-- `mustValidateDenom`, which `sdk.NewCoin` calls before it looks at the amount. -/
def mustValidateDenom (denom : String) : Except Panic Unit :=
  if validateDenom denom then pure () else throw ⟨"invalid denom: " ++ denom⟩

/-- `removeZeroCoins`. -/
def removeZeroCoins (coins : Coins) : Coins := coins.filter fun c => !c.IsZero

/-- The coin as `safeAdd` appends it: not at all when it is zero. -/
def keep (coin : Coin) : Coins := if coin.IsZero then [] else [coin]

/-- One round of the merge loop of `safeAdd` for the coin `coinA` at the head of the first
set: the coins of the second set with smaller denominations go first, one with the same
denomination is added to it, and `rest` continues with the tail of the first set. -/
def addInto (coinA : Coin) (rest : Coins → Coins) : Coins → Coins
  | [] => keep coinA ++ rest []
  | coinB :: coinsB =>
    match compare coinA.denom coinB.denom with
    | .lt => keep coinA ++ rest (coinB :: coinsB)
    | .eq => keep (coinA.Add coinB) ++ rest coinsB
    | .gt => keep coinB ++ addInto coinA rest coinsB

/-- `Coins.safeAdd`: the merge of two sorted sets, adding the amounts of equal
denominations and dropping the zero coins. -/
def safeAdd : Coins → Coins → Coins
  | [], coinsB => removeZeroCoins coinsB
  | coinA :: coins, coinsB => addInto coinA (safeAdd coins) coinsB

/-- `Coins.Add`. -/
def Add (coins coinsB : Coins) : Coins := safeAdd coins coinsB

/-- `Coins.negative`. -/
def negative (coins : Coins) : Coins := coins.map fun coin => ⟨coin.denom, -coin.amount⟩

/-- `Coins.IsAnyNegative`. -/
def IsAnyNegative (coins : Coins) : Bool := coins.any Coin.IsNegative

/-- `Coins.SafeSub`: the difference, and whether an amount of it is negative. -/
def SafeSub (coins coinsB : Coins) : Coins × Bool :=
  let diff := coins.safeAdd coinsB.negative
  (diff, diff.IsAnyNegative)

/-- `Coins.Sub`: panics when an amount goes negative. -/
def Sub (coins coinsB : Coins) : Except Panic Coins :=
  let (diff, hasNeg) := coins.SafeSub coinsB
  if hasNeg then throw ⟨"negative coin amount"⟩ else pure diff

/-- `Coins.String()`: the coins separated by commas. -/
def toString (coins : Coins) : String := ",".intercalate (coins.map Coin.toString)

/-- `Coins.IsZero`: no coins, or only zero ones. -/
def IsZero (coins : Coins) : Bool := coins.all Coin.IsZero

/-- `Coins.IsAllPositive`. -/
def IsAllPositive (coins : Coins) : Bool := !coins.isEmpty && coins.all Coin.IsPositive

/-- `Coins.IsValid`: sorted by denomination, positive amounts; the first denomination is
validated in full (the single-coin case of the Go `switch`), the later ones checked for lower
case only. -/
def IsValid : Coins → Bool
  | [] => true
  | coin :: coins => (validateDenom coin.denom && coin.IsPositive) && validTail coin.denom coins
where
  /-- The loop over `coins[1:]`, with the last denomination seen. -/
  validTail (lowDenom : String) : Coins → Bool
    | [] => true
    | coin :: coins =>
      coin.denom.toLower == coin.denom && decide (lowDenom < coin.denom) && coin.IsPositive &&
        validTail coin.denom coins

/-- `Coins.AmountOf`: the binary search of the Go code, on its `len(coins)` halvings. -/
def AmountOf (coins : Coins) (denom : String) : ℤ := search coins.length coins
where
  /-- The search with `fuel` halvings left; `len(coins)` of them are always enough. -/
  search : ℕ → Coins → ℤ
    | 0, _ => 0
    | _ + 1, [] => 0
    | _ + 1, [coin] => if coin.denom = denom then coin.amount else 0
    | fuel + 1, coins@(_ :: _ :: _) =>
      let midIdx := coins.length / 2
      let coin := coins.getD midIdx ⟨"", 0⟩
      if denom < coin.denom then search fuel (coins.take midIdx)
      else if denom = coin.denom then coin.amount
      else search fuel (coins.drop (midIdx + 1))

/-- `Coins.IsAllGTE`: no denomination of `coinsB` has a larger amount than in `coins`. -/
def IsAllGTE (coins coinsB : Coins) : Bool :=
  if coinsB.isEmpty then true
  else if coins.isEmpty then false
  else coinsB.all fun coinB => !decide (coins.AmountOf coinB.denom < coinB.amount)

/-- `Coins.AmountOf` with the `mustValidateDenom` it starts with, which panics on a malformed
denomination. -/
def checkedAmountOf (coins : Coins) (denom : String) : Except Panic ℤ := do
  mustValidateDenom denom
  pure (coins.AmountOf denom)

/-- `Coins.DenomsSubsetOf`: no more coins than `coinsB`, and each denomination held by it. -/
def DenomsSubsetOf (coins coinsB : Coins) : Bool :=
  if coins.length > coinsB.length then false
  else coins.all fun coin => coinsB.AmountOf coin.denom != 0

/-- `Coins.IsAllGT`: every denomination of `coinsB` is held by `coins` at a larger amount. -/
def IsAllGT (coins coinsB : Coins) : Bool :=
  if coins.isEmpty then false
  else if coinsB.isEmpty then true
  else if !coinsB.DenomsSubsetOf coins then false
  else coinsB.all fun coinB => decide (coinB.amount < coins.AmountOf coinB.denom)

/-- `Coins.IsAllLT`. -/
def IsAllLT (coins coinsB : Coins) : Bool := coinsB.IsAllGT coins

/-- `Coins.IsAllLTE`. -/
def IsAllLTE (coins coinsB : Coins) : Bool := coinsB.IsAllGTE coins

/-- `Coins.Sort`: `sort.Sort` by denomination. -/
def sort (coins : Coins) : Coins := coins.mergeSort fun a b => decide (a.denom ≤ b.denom)

/-- `Coins.IsEqual`: the same length, and after sorting the same coins one by one; two coins
of different denominations at one index panic. -/
def IsEqual (coins coinsB : Coins) : Except Panic Bool :=
  if coins.length ≠ coinsB.length then pure false
  else go coins.sort coinsB.sort
where
  /-- The loop over the indexes, stopping at the first difference. -/
  go : Coins → Coins → Except Panic Bool
    | coin :: coins, coinB :: coinsB => do
      if !(← coin.IsEqual coinB) then pure false else go coins coinsB
    | _, _ => pure true

/-- The coins are sorted by strictly increasing denomination. -/
def Sorted (coins : Coins) : Prop := coins.Pairwise fun a b => a.denom < b.denom

end Coins

end CosmosSdk
