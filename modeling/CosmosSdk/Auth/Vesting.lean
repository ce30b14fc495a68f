import CosmosSdk.Auth.Account
import CosmosSdk.Types.Dec

/-!
# Vesting accounts

The vesting schedules of `x/auth/types/account.go`: a continuous vesting account unlocks its
original vesting coins linearly between its start and end times, a delayed one all at its
end time (`GetVestedCoins`, `GetVestingCoins`).  The coins of a vesting account that may be
spent are those not locked (`spendableCoins`); a delegation draws first on the vesting coins
not yet delegated (`trackDelegation`), an undelegation returns first the free delegated coins
(`TrackUndelegation`).

Each loop of the Go code is a `foldlM` over the coins, in `Except Panic` where `NewCoin` or
`Sub` may panic.
-/

namespace CosmosSdk.Auth

/-- `blockTime.Unix()`: whole seconds since the epoch, rounded down. -/
def unix (blockTime : Time) : ℤ := blockTime / 10 ^ 9

namespace BaseVestingAccount

variable (bva : BaseVestingAccount)

/-- `ContinuousVestingAccount.GetVestedCoins`: nothing before the start, everything from the
end, and in between each original coin scaled by the elapsed fraction
`Dec(x).Quo(Dec(y))`, rounded with `RoundInt`. -/
def continuousVestedCoins (startTime : ℤ) (blockTime : Time) : Except Panic Coins :=
  if unix blockTime ≤ startTime then pure []
  else if bva.endTime ≤ unix blockTime then pure bva.originalVesting
  else do
    let x := unix blockTime - startTime
    let y := bva.endTime - startTime
    let s ← (Dec.ofInt x).quo (Dec.ofInt y)
    bva.originalVesting.mapM fun ovc => Coin.NewCoin ovc.denom ((Dec.ofInt ovc.amount).mul s).roundInt

/-- `DelayedVestingAccount.GetVestedCoins`: everything from the end time, nothing before. -/
def delayedVestedCoins (blockTime : Time) : Coins :=
  if bva.endTime ≤ unix blockTime then bva.originalVesting else []

/-- One coin of the loop of `spendableCoins`. -/
def spendableCoin (vestingCoins spendableCoins : Coins) (coin : Coin) : Except Panic Coins := do
  let baseAmt := coin.amount
  let vestingAmt := vestingCoins.AmountOf coin.denom
  let delVestingAmt := bva.delegatedVesting.AmountOf coin.denom
  let spendableCoin ← Coin.NewCoin coin.denom (min (baseAmt + delVestingAmt - vestingAmt) baseAmt)
  pure (if !spendableCoin.IsZero then spendableCoins.Add [spendableCoin] else spendableCoins)

/-- `spendableCoins(vestingCoins)`: for each coin `bc` of the account,
`min((BC + DV) - V, BC)`; `NewCoin` panics when that is negative. -/
def spendableCoins (bc vestingCoins : Coins) : Except Panic Coins :=
  bc.foldlM (spendableCoin bva vestingCoins) []

/-- One coin of `trackDelegation`: `X := min(max(V - DV, 0), D)` moves to the delegated
vesting coins, `Y := D - X` to the delegated free ones, and `D` leaves the account's coins.
`bc` and `vestingCoins` are read before the loop. -/
def trackDelegationCoin (bc vestingCoins : Coins) (acc : BaseVestingAccount × Coins)
    (coin : Coin) : Except Panic (BaseVestingAccount × Coins) := do
  let (bva, coins) := acc
  let baseAmt := bc.AmountOf coin.denom
  let vestingAmt := vestingCoins.AmountOf coin.denom
  let delVestingAmt := bva.delegatedVesting.AmountOf coin.denom
  if coin.amount = 0 ∨ baseAmt < coin.amount then
    throw ⟨"delegation attempt with zero coins or insufficient funds"⟩
  let x := min (max (vestingAmt - delVestingAmt) 0) coin.amount
  let y := coin.amount - x
  let bva ← if x ≠ 0 then do
      let xCoin ← Coin.NewCoin coin.denom x
      pure { bva with delegatedVesting := bva.delegatedVesting.Add [xCoin] }
    else pure bva
  let bva ← if y ≠ 0 then do
      let yCoin ← Coin.NewCoin coin.denom y
      pure { bva with delegatedFree := bva.delegatedFree.Add [yCoin] }
    else pure bva
  let coins ← coins.Sub [coin]
  pure (bva, coins)

/-- `trackDelegation(vestingCoins, amount)` on an account holding `bc`: the new vesting
fields and the new coins. -/
def trackDelegation (bc vestingCoins amount : Coins) :
    Except Panic (BaseVestingAccount × Coins) :=
  amount.foldlM (trackDelegationCoin bc vestingCoins) (bva, bc)

/-- One coin of `TrackUndelegation`: `X := min(DF, D)` leaves the delegated free coins,
`Y := min(DV, D - X)` the delegated vesting ones, and `D` returns to the account. -/
def trackUndelegationCoin (acc : BaseVestingAccount × Coins) (coin : Coin) :
    Except Panic (BaseVestingAccount × Coins) := do
  let (bva, coins) := acc
  if coin.amount = 0 then throw ⟨"undelegation attempt with zero coins"⟩
  let delegatedFree := bva.delegatedFree.AmountOf coin.denom
  let delegatedVesting := bva.delegatedVesting.AmountOf coin.denom
  let x := min delegatedFree coin.amount
  let y := min delegatedVesting (coin.amount - x)
  let bva ← if x ≠ 0 then do
      let xCoin ← Coin.NewCoin coin.denom x
      let delegatedFree ← bva.delegatedFree.Sub [xCoin]
      pure { bva with delegatedFree }
    else pure bva
  let bva ← if y ≠ 0 then do
      let yCoin ← Coin.NewCoin coin.denom y
      let delegatedVesting ← bva.delegatedVesting.Sub [yCoin]
      pure { bva with delegatedVesting }
    else pure bva
  pure (bva, coins.Add [coin])

/-- `TrackUndelegation(amount)` on an account holding `coins`. -/
def TrackUndelegation (coins amount : Coins) : Except Panic (BaseVestingAccount × Coins) :=
  amount.foldlM trackUndelegationCoin (bva, coins)

end BaseVestingAccount

namespace Account

/-- `GetVestingCoins(blockTime)`: the original vesting coins less the vested ones; `none` for
an account without a schedule. -/
def GetVestingCoins (blockTime : Time) : Account → Option (Except Panic Coins)
  | continuousVesting _ bva startTime =>
    some (bva.continuousVestedCoins startTime blockTime >>= bva.originalVesting.Sub)
  | delayedVesting _ bva => some (bva.originalVesting.Sub (bva.delayedVestedCoins blockTime))
  | base _ | group _ => none

/-- `SpendableCoins(blockTime)`: all the coins of an account without a schedule. -/
def SpendableCoins (acc : Account) (blockTime : Time) : Except Panic Coins :=
  match acc with
  | continuousVesting b bva _ | delayedVesting b bva => do
    let vestingCoins ← (acc.GetVestingCoins blockTime).getD (pure [])
    bva.spendableCoins b.coins vestingCoins
  | base b | group b => pure b.coins

/-- The account with its vesting fields replaced. -/
def withVesting (bva : BaseVestingAccount) : Account → Account
  | continuousVesting b _ t => continuousVesting b bva t
  | delayedVesting b _ => delayedVesting b bva
  | acc => acc

end Account

end CosmosSdk.Auth
