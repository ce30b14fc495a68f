import CosmosSdk.Distribution.Allocation
import CosmosSdk.Staking.Keeper
import CosmosSdk.Bank.Keeper

/-!
# F1 rewards: periods, historical rewards and the staking hooks

`x/distribution` pays a delegation what its validator earned while it was bonded, without
touching every delegation at every block.  Each validator counts *periods*: a period ends
whenever the validator's stake changes, and the historical record of the period holds the
cumulative reward ratio, the sum over the ended periods of their rewards per token.  A
delegation stores the period it started after (its *starting info*); its rewards are its
stake times the difference of two cumulative ratios, corrected by the validator's slash
events in between.  A historical record is kept while something may still read it, which its
reference count tracks.

* `ValidatorHistoricalRewards`, `DelegatorStartingInfo`, `ValidatorSlashEvent` (`types/`);
* `Keeper`: the records of the allocation (`State`) with those of `keeper/store.go`, under
  their store keys (the validator, then the period, the delegator or the height), the
  withdraw addresses, the `WithdrawAddrEnabled` parameter, and the accounts the bank keeper
  pays into;
* `incrementReferenceCount`, `decrementReferenceCount`, `initializeValidator`,
  `incrementValidatorPeriod`, `updateValidatorSlashFraction` (`keeper/validator.go`), the
  blocks `currentRatio` and `slashedPeriod` of the last two named;
* `initializeDelegation`, `calculateDelegationRewardsBetween`, `calculateDelegationRewards`,
  `withdrawDelegationRewards` (`keeper/delegation.go`);
* `SetWithdrawAddr`, `WithdrawDelegationRewards`, `WithdrawValidatorCommission`
  (`keeper/keeper.go`);
* the hooks the staking keeper calls (`keeper/hooks.go`), each reading the staking store as it
  is at the call, with the block `forceWithdrawCommission` of `AfterValidatorRemoved`;
* `ReferenceCountInvariant` and `NonNegativeOutstandingInvariant` (`keeper/invariants.go`).

Periods and heights are `ℕ`.  The source's `uint64` would wrap in `Period - 1` at period zero,
which no stored current rewards reach (they start at one), and in `Period + 1`, after `2^64`
periods.  A method called on the `nil` that the staking keeper returns for an unknown
validator or delegation panics (`nilPanic`); the hooks read both before they use them.
-/

namespace CosmosSdk.Distribution

/-- `types.ValidatorHistoricalRewards`: the cumulative reward ratio up to the period, and how
many records may still read it (a `uint16`, which `incrementReferenceCount` keeps below 4). -/
structure ValidatorHistoricalRewards where
  cumulativeRewardRatio : DecCoins
  referenceCount : ℕ
  deriving DecidableEq, Repr

/-- `types.DelegatorStartingInfo`: the period the delegation started after, its stake in
tokens then, and the height. -/
structure DelegatorStartingInfo where
  previousPeriod : ℕ
  stake : Dec
  height : ℕ
  deriving DecidableEq, Repr

/-- `types.ValidatorSlashEvent`: the period the slash ended, and the fraction slashed. -/
structure ValidatorSlashEvent where
  validatorPeriod : ℕ
  fraction : Dec
  deriving DecidableEq, Repr

/-- The distribution store: the allocation's records, and the historical rewards (keyed by
validator and period), the delegators' starting infos (by validator and delegator), the slash
events (by validator and height) and the withdraw addresses; with the `WithdrawAddrEnabled`
parameter and the bank keeper's accounts. -/
structure Keeper extends State where
  validatorHistoricalRewards : SortedMap (ValAddress ×ₗ ℕ) ValidatorHistoricalRewards
  delegatorStartingInfo : SortedMap (ValAddress ×ₗ AccAddress) DelegatorStartingInfo
  validatorSlashEvents : SortedMap (ValAddress ×ₗ ℕ) ValidatorSlashEvent
  delegatorWithdrawAddr : SortedMap AccAddress AccAddress
  withdrawAddrEnabled : Bool
  accounts : Auth.State

/-- `ErrNoDelegationDistInfo`. -/
def ErrNoDelegationDistInfo : Error := ⟨.module 104, "no delegation distribution info", by decide⟩

/-- `ErrNoValidatorDistInfo`. -/
def ErrNoValidatorDistInfo : Error := ⟨.module 104, "no validator distribution info", by decide⟩

/-- `ErrNoValidatorCommission`. -/
def ErrNoValidatorCommission : Error :=
  ⟨.module 105, "no validator commission to withdraw", by decide⟩

/-- `ErrSetWithdrawAddrDisabled`. -/
def ErrSetWithdrawAddrDisabled : Error := ⟨.module 106, "set withdraw address disabled", by decide⟩

/-! ### What the hooks read of the staking keeper -/

/-- `stakingKeeper.Validator`, for a caller that calls a method on it: the `nil` of an unknown
address panics. -/
def stakingValidator (sk : Staking.State) (valAddr : ValAddress) : Except Panic Staking.Validator :=
  match sk.GetValidator valAddr with
  | none => throw nilPanic
  | some val => pure val

/-- `stakingKeeper.Delegation`, for a caller that calls a method on it. -/
def stakingDelegation (sk : Staking.State) (delAddr : AccAddress) (valAddr : ValAddress) :
    Except Panic Staking.Delegation :=
  match sk.GetDelegation delAddr valAddr with
  | none => throw nilPanic
  | some del => pure del

/-- `TokensFromShares` of the staking validator (`x/staking/types/validator.go`), whose one
failure is the panic of a division by zero shares. -/
def TokensFromShares (val : Staking.Validator) (shares : Dec) : Except Panic Dec :=
  (shares.mulInt val.tokens).quo val.delegatorShares

/-- `TokensFromSharesTruncated` of the staking validator. -/
def TokensFromSharesTruncated (val : Staking.Validator) (shares : Dec) : Except Panic Dec :=
  (shares.mulInt val.tokens).quoTruncate val.delegatorShares

namespace Keeper

variable (k : Keeper)

/-! ### The store -/

/-- `GetValidatorHistoricalRewards`: a missing record does not decode. -/
def GetValidatorHistoricalRewards (val : ValAddress) (period : ℕ) :
    Except Panic ValidatorHistoricalRewards :=
  match k.validatorHistoricalRewards.get? (toLex (val, period)) with
  | none => throw emptyBytesPanic
  | some rewards => pure rewards

/-- `SetValidatorHistoricalRewards`. -/
def SetValidatorHistoricalRewards (val : ValAddress) (period : ℕ)
    (rewards : ValidatorHistoricalRewards) : Keeper :=
  { k with
    validatorHistoricalRewards := k.validatorHistoricalRewards.insert (toLex (val, period)) rewards }

/-- `DeleteValidatorHistoricalReward`. -/
def DeleteValidatorHistoricalReward (val : ValAddress) (period : ℕ) : Keeper :=
  { k with validatorHistoricalRewards := k.validatorHistoricalRewards.erase (toLex (val, period)) }

/-- `DeleteValidatorHistoricalRewards`: every period of the validator, by the key prefix. -/
def DeleteValidatorHistoricalRewards (val : ValAddress) : Keeper :=
  { k with
    validatorHistoricalRewards := k.validatorHistoricalRewards.filter fun key => (ofLex key).1 ≠ val }

/-- `GetValidatorHistoricalReferenceCount`: the reference counts of all historical records. -/
def GetValidatorHistoricalReferenceCount : ℕ :=
  k.validatorHistoricalRewards.sum fun _ rewards => rewards.referenceCount

/-- `SetValidatorCurrentRewards`. -/
def SetValidatorCurrentRewards (val : ValAddress) (rewards : ValidatorCurrentRewards) : Keeper :=
  { k with toState := k.toState.SetValidatorCurrentRewards val rewards }

/-- `DeleteValidatorCurrentRewards`. -/
def DeleteValidatorCurrentRewards (val : ValAddress) : Keeper :=
  { k with validatorCurrentRewards := k.validatorCurrentRewards.erase val }

/-- `SetValidatorAccumulatedCommission`. -/
def SetValidatorAccumulatedCommission (val : ValAddress) (commission : DecCoins) : Keeper :=
  { k with toState := k.toState.SetValidatorAccumulatedCommission val commission }

/-- `DeleteValidatorAccumulatedCommission`. -/
def DeleteValidatorAccumulatedCommission (val : ValAddress) : Keeper :=
  { k with validatorAccumulatedCommission := k.validatorAccumulatedCommission.erase val }

/-- `SetValidatorOutstandingRewards`. -/
def SetValidatorOutstandingRewards (val : ValAddress) (rewards : DecCoins) : Keeper :=
  { k with toState := k.toState.SetValidatorOutstandingRewards val rewards }

/-- `DeleteValidatorOutstandingRewards`. -/
def DeleteValidatorOutstandingRewards (val : ValAddress) : Keeper :=
  { k with validatorOutstandingRewards := k.validatorOutstandingRewards.erase val }

/-- `SetFeePool`. -/
def SetFeePool (feePool : FeePool) : Keeper := { k with toState := k.toState.SetFeePool feePool }

/-- `GetDelegatorStartingInfo`: a missing record does not decode. -/
def GetDelegatorStartingInfo (val : ValAddress) (del : AccAddress) :
    Except Panic DelegatorStartingInfo :=
  match k.delegatorStartingInfo.get? (toLex (val, del)) with
  | none => throw emptyBytesPanic
  | some period => pure period

/-- `SetDelegatorStartingInfo`. -/
def SetDelegatorStartingInfo (val : ValAddress) (del : AccAddress) (period : DelegatorStartingInfo) :
    Keeper :=
  { k with delegatorStartingInfo := k.delegatorStartingInfo.insert (toLex (val, del)) period }

/-- `HasDelegatorStartingInfo`. -/
def HasDelegatorStartingInfo (val : ValAddress) (del : AccAddress) : Bool :=
  (k.delegatorStartingInfo.get? (toLex (val, del))).isSome

/-- `DeleteDelegatorStartingInfo`. -/
def DeleteDelegatorStartingInfo (val : ValAddress) (del : AccAddress) : Keeper :=
  { k with delegatorStartingInfo := k.delegatorStartingInfo.erase (toLex (val, del)) }

/-- `GetValidatorSlashEvent`: `none` for the `found = false` of no record. -/
def GetValidatorSlashEvent (val : ValAddress) (height : ℕ) : Option ValidatorSlashEvent :=
  k.validatorSlashEvents.get? (toLex (val, height))

/-- `SetValidatorSlashEvent`. -/
def SetValidatorSlashEvent (val : ValAddress) (height : ℕ) (event : ValidatorSlashEvent) : Keeper :=
  { k with validatorSlashEvents := k.validatorSlashEvents.insert (toLex (val, height)) event }

/-- `DeleteValidatorSlashEvents`: every height of the validator, by the key prefix. -/
def DeleteValidatorSlashEvents (val : ValAddress) : Keeper :=
  { k with validatorSlashEvents := k.validatorSlashEvents.filter fun key => (ofLex key).1 ≠ val }

/-- `IterateValidatorSlashEventsBetween`: the validator's events from `startingHeight` up to and
with `endingHeight` (the iterator ends before the key of `endingHeight + 1`), by height. -/
def ValidatorSlashEventsBetween (val : ValAddress) (startingHeight endingHeight : ℕ) :
    List (ℕ × ValidatorSlashEvent) :=
  (k.validatorSlashEvents.range (some (toLex (val, startingHeight)))
    (some (toLex (val, endingHeight + 1)))).map fun e => ((ofLex e.1).2, e.2)

/-- `GetDelegatorWithdrawAddr`: the delegator itself when none is set. -/
def GetDelegatorWithdrawAddr (delAddr : AccAddress) : AccAddress :=
  (k.delegatorWithdrawAddr.get? delAddr).getD delAddr

/-- `SetDelegatorWithdrawAddr`. -/
def SetDelegatorWithdrawAddr (delAddr withdrawAddr : AccAddress) : Keeper :=
  { k with delegatorWithdrawAddr := k.delegatorWithdrawAddr.insert delAddr withdrawAddr }

/-- `bankKeeper.AddCoins` on the accounts. -/
def AddCoins (addr : AccAddress) (amt : Coins) : Except Abort Keeper := do
  let (_, accounts) ← Bank.addCoins k.accounts addr amt
  pure { k with accounts := accounts }

/-! ### Periods and reference counts (`keeper/validator.go`) -/

/-- `incrementReferenceCount`. -/
def incrementReferenceCount (valAddr : ValAddress) (period : ℕ) : Except Panic Keeper := do
  let historical ← k.GetValidatorHistoricalRewards valAddr period
  if historical.referenceCount > 2 then throw ⟨"reference count should never exceed 2"⟩
  pure (k.SetValidatorHistoricalRewards valAddr period
    { historical with referenceCount := historical.referenceCount + 1 })

/-- `decrementReferenceCount`: the record is deleted when no reference remains. -/
def decrementReferenceCount (valAddr : ValAddress) (period : ℕ) : Except Panic Keeper := do
  let historical ← k.GetValidatorHistoricalRewards valAddr period
  if historical.referenceCount = 0 then throw ⟨"cannot set negative reference count"⟩
  let historical := { historical with referenceCount := historical.referenceCount - 1 }
  if historical.referenceCount = 0 then pure (k.DeleteValidatorHistoricalReward valAddr period)
  else pure (k.SetValidatorHistoricalRewards valAddr period historical)

/-- `initializeValidator`: period zero, referenced by the validator, and current rewards from
period one. -/
def initializeValidator (val : Staking.Validator) : Keeper :=
  let k := k.SetValidatorHistoricalRewards val.operatorAddress 0 ⟨[], 1⟩
  let k := k.SetValidatorCurrentRewards val.operatorAddress ⟨[], 1⟩
  let k := k.SetValidatorAccumulatedCommission val.operatorAddress []
  k.SetValidatorOutstandingRewards val.operatorAddress []

/-- The ratio of the period `incrementValidatorPeriod` ends: its rewards per token, truncated so
that no more can be withdrawn than is owed; a validator without tokens has no ratio, and its
rewards go to the community pool. -/
def currentRatio (val : Staking.Validator) (rewards : ValidatorCurrentRewards) :
    Except Panic (Keeper × DecCoins) :=
  if val.tokens = 0 then do
    -- can't calculate ratio for zero-token validators, ergo we instead add to the community pool
    let feePool ← k.GetFeePool
    let outstanding ← k.GetValidatorOutstandingRewards val.operatorAddress
    let feePool := { feePool with communityPool := feePool.communityPool.Add rewards.rewards }
    let outstanding ← outstanding.Sub rewards.rewards
    let k := k.SetFeePool feePool
    pure (k.SetValidatorOutstandingRewards val.operatorAddress outstanding, [])
  else do
    let current ← rewards.rewards.QuoDecTruncate (Dec.ofInt val.tokens)
    pure (k, current)

/-- `incrementValidatorPeriod`: the current period ends with its ratio added to the cumulative
ratio; the validator's reference moves from the last ended period to this one.  Returns the
period ended. -/
def incrementValidatorPeriod (val : Staking.Validator) : Except Panic (Keeper × ℕ) := do
  -- fetch current rewards
  let rewards ← k.GetValidatorCurrentRewards val.operatorAddress
  -- calculate current ratio
  let (k, current) ← k.currentRatio val rewards
  -- fetch historical rewards for last period
  let historical := (← k.GetValidatorHistoricalRewards val.operatorAddress (rewards.period - 1)).cumulativeRewardRatio
  -- decrement reference count
  let k ← k.decrementReferenceCount val.operatorAddress (rewards.period - 1)
  -- set new historical rewards with reference count of 1
  let k := k.SetValidatorHistoricalRewards val.operatorAddress rewards.period ⟨historical.Add current, 1⟩
  -- set current rewards, incrementing period by 1
  let k := k.SetValidatorCurrentRewards val.operatorAddress ⟨[], rewards.period + 1⟩
  pure (k, rewards.period)

/-- The branch of `updateValidatorSlashFraction` on whether the height has a slash event
already: if so, its fraction so far, and the period `endedPeriod` the caller read; if not, the
validator's period ends, the event will reference it, and the fraction so far is zero. -/
def slashedPeriod (sk : Staking.State) (height : ℕ) (valAddr : ValAddress) (endedPeriod : ℕ) :
    Except Panic (Keeper × Dec × ℕ) :=
  match k.GetValidatorSlashEvent valAddr height with
  | some current => pure (k, current.fraction, endedPeriod)
  | none => do
    let val ← stakingValidator sk valAddr
    -- increment current period
    let (k, endedPeriod) ← k.incrementValidatorPeriod val
    -- increment reference count on period we need to track
    let k ← k.incrementReferenceCount valAddr endedPeriod
    pure (k, 0, endedPeriod)

/-- `updateValidatorSlashFraction`: the first slash of a height ends the validator's period and
records the event, referencing the period ended; a second one at the same height compounds the
fraction, and records the validator's last ended period in the event. -/
def updateValidatorSlashFraction (sk : Staking.State) (height : ℕ) (valAddr : ValAddress)
    (fraction : Dec) : Except Panic Keeper := do
  if fraction > Dec.one then throw ⟨"fraction greater than one"⟩
  let endedPeriod := (← k.GetValidatorCurrentRewards valAddr).period - 1
  let (k, currentFraction, endedPeriod) ← k.slashedPeriod sk height valAddr endedPeriod
  let currentMultiplicand := Dec.one - currentFraction
  let newMultiplicand := Dec.one - fraction
  -- truncating conservatively increases the slashing amount
  let updatedFraction := Dec.one - currentMultiplicand.mulTruncate newMultiplicand
  if updatedFraction < 0 then throw ⟨"negative slash fraction"⟩
  pure (k.SetValidatorSlashEvent valAddr height ⟨endedPeriod, updatedFraction⟩)

/-! ### Delegation rewards (`keeper/delegation.go`) -/

/-- `initializeDelegation`: the delegation references the period its own action just ended, and
records its stake in tokens, truncated. -/
def initializeDelegation (sk : Staking.State) (height : ℕ) (val : ValAddress) (del : AccAddress) :
    Except Panic Keeper := do
  -- period has already been incremented - we want to store the period ended by this delegation action
  let previousPeriod := (← k.GetValidatorCurrentRewards val).period - 1
  -- increment reference count for the period we're going to track
  let k ← k.incrementReferenceCount val previousPeriod
  let validator ← stakingValidator sk val
  let delegation ← stakingDelegation sk del val
  let stake ← TokensFromSharesTruncated validator delegation.shares
  pure (k.SetDelegatorStartingInfo val del ⟨previousPeriod, stake, height⟩)

/-- `calculateDelegationRewardsBetween`: the stake times the growth of the cumulative ratio,
truncated. -/
def calculateDelegationRewardsBetween (val : Staking.Validator) (startingPeriod endingPeriod : ℕ)
    (stake : Dec) : Except Panic DecCoins := do
  if startingPeriod > endingPeriod then throw ⟨"startingPeriod cannot be greater than endingPeriod"⟩
  if stake < 0 then throw ⟨"stake should not be negative"⟩
  -- return staking * (ending - starting)
  let starting ← k.GetValidatorHistoricalRewards val.operatorAddress startingPeriod
  let ending ← k.GetValidatorHistoricalRewards val.operatorAddress endingPeriod
  let difference ← ending.cumulativeRewardRatio.Sub starting.cumulativeRewardRatio
  if difference.IsAnyNegative then throw ⟨"negative rewards should not be possible"⟩
  pure (difference.MulDecTruncate stake)

/-- One slash event of the loop of `calculateDelegationRewards`: an event that ended a later
period than the one started from adds the rewards up to it, and the stake left by its
fraction, truncated, goes on from there. -/
def slashStep (val : Staking.Validator) (acc : DecCoins × ℕ × Dec) (event : ℕ × ValidatorSlashEvent) :
    Except Panic (DecCoins × ℕ × Dec) := do
  let (rewards, startingPeriod, stake) := acc
  let endingPeriod := event.2.validatorPeriod
  if endingPeriod > startingPeriod then
    let between ← k.calculateDelegationRewardsBetween val startingPeriod endingPeriod stake
    pure (rewards.Add between, endingPeriod, stake.mulTruncate (Dec.one - event.2.fraction))
  else pure acc

/-- `calculateDelegationRewards`: through the slash events between the starting height and
this one, then to the period ending now with the stake recalculated; a recalculated stake
above the current one by more than three units of the last decimal panics. -/
def calculateDelegationRewards (height : ℕ) (val : Staking.Validator) (del : Staking.Delegation)
    (endingPeriod : ℕ) : Except Panic DecCoins := do
  -- fetch starting info for delegation
  let startingInfo ← k.GetDelegatorStartingInfo del.validatorAddress del.delegatorAddress
  if startingInfo.height = height then
    -- started this height, no rewards yet
    pure []
  else do
    let startingHeight := startingInfo.height
    let endingHeight := height
    let (rewards, startingPeriod, stake) ←
      if endingHeight > startingHeight then
        (k.ValidatorSlashEventsBetween del.validatorAddress startingHeight endingHeight).foldlM
          (k.slashStep val) ([], startingInfo.previousPeriod, startingInfo.stake)
      else pure ([], startingInfo.previousPeriod, startingInfo.stake)
    -- the recalculated stake may exceed the current one by the rounding of the slashes
    let currentStake ← TokensFromShares val del.shares
    let stake ←
      if stake > currentStake then
        let marginOfErr := Dec.smallest.mulInt 3
        if stake ≤ currentStake + marginOfErr then pure currentStake
        else throw ⟨"calculated final stake for delegator %s greater than current stake" ++
          "\n\tfinal stake:\t%s\n\tcurrent stake:\t%s"⟩
      else pure stake
    -- calculate rewards for final period
    let final ← k.calculateDelegationRewardsBetween val startingPeriod endingPeriod stake
    pure (rewards.Add final)

/-- `withdrawDelegationRewards`: ends the period, pays the rewards (at most the outstanding
ones) in whole coins to the withdraw address with the change to the community pool, releases
the starting period and deletes the starting info.  Comparing the rewards with the raw ones is
only logged in the source. -/
def withdrawDelegationRewards (height : ℕ) (val : Staking.Validator) (del : Staking.Delegation) :
    Except Abort (Keeper × Coins) := do
  -- check existence of delegator starting info
  if !k.HasDelegatorStartingInfo del.validatorAddress del.delegatorAddress then
    throw (.err ErrNoDelegationDistInfo)
  -- end current period and calculate rewards
  let (k, endingPeriod) ← Abort.lift (k.incrementValidatorPeriod val)
  let rewardsRaw ← Abort.lift (k.calculateDelegationRewards height val del endingPeriod)
  let outstanding ← Abort.lift (k.GetValidatorOutstandingRewards del.validatorAddress)
  -- defensive edge case may happen on the very final digits of the decCoins
  let rewards := rewardsRaw.Intersect outstanding
  let _ ← Abort.lift (rewards.IsEqual rewardsRaw)
  -- decrement reference count of starting period
  let startingInfo ← Abort.lift (k.GetDelegatorStartingInfo del.validatorAddress del.delegatorAddress)
  let startingPeriod := startingInfo.previousPeriod
  let k ← Abort.lift (k.decrementReferenceCount del.validatorAddress startingPeriod)
  -- truncate coins, return remainder to community pool
  let (coins, remainder) ← Abort.lift rewards.TruncateDecimal
  let k := k.SetValidatorOutstandingRewards del.validatorAddress
    (← Abort.lift (outstanding.Sub rewards))
  let feePool ← Abort.lift k.GetFeePool
  let k := k.SetFeePool { feePool with communityPool := feePool.communityPool.Add remainder }
  -- add coins to user account
  let k ← if !coins.IsZero then
      k.AddCoins (k.GetDelegatorWithdrawAddr del.delegatorAddress) coins
    else pure k
  -- remove delegator starting info
  pure (k.DeleteDelegatorStartingInfo del.validatorAddress del.delegatorAddress, coins)

/-! ### The keeper's own operations (`keeper/keeper.go`) -/

/-- `SetWithdrawAddr`. -/
def SetWithdrawAddr (delegatorAddr withdrawAddr : AccAddress) : Except Abort Keeper :=
  if !k.withdrawAddrEnabled then throw (.err ErrSetWithdrawAddrDisabled)
  else pure (k.SetDelegatorWithdrawAddr delegatorAddr withdrawAddr)

/-- `WithdrawDelegationRewards`: the rewards, then a new starting info for the delegation. -/
def WithdrawDelegationRewards (sk : Staking.State) (height : ℕ) (delAddr : AccAddress)
    (valAddr : ValAddress) : Except Abort (Keeper × Coins) := do
  let some val := sk.GetValidator valAddr | throw (.err ErrNoValidatorDistInfo)
  let some del := sk.GetDelegation delAddr valAddr | throw (.err ErrNoDelegationDistInfo)
  -- withdraw rewards
  let (k, rewards) ← k.withdrawDelegationRewards height val del
  -- reinitialize the delegation
  let k ← Abort.lift (k.initializeDelegation sk height valAddr delAddr)
  pure (k, rewards)

/-- `WithdrawValidatorCommission`: the whole coins of the commission, the change left to
withdraw later. -/
def WithdrawValidatorCommission (valAddr : ValAddress) : Except Abort (Keeper × Coins) := do
  -- fetch validator accumulated commission
  let commission := k.GetValidatorAccumulatedCommission valAddr
  if commission.IsZero then throw (.err ErrNoValidatorCommission)
  let (coins, remainder) ← Abort.lift commission.TruncateDecimal
  -- leave remainder to withdraw later
  let k := k.SetValidatorAccumulatedCommission valAddr remainder
  -- update outstanding
  let outstanding ← Abort.lift (k.GetValidatorOutstandingRewards valAddr)
  let k := k.SetValidatorOutstandingRewards valAddr
    (← Abort.lift (outstanding.Sub (← Abort.lift (NewDecCoins coins))))
  let k ← if !coins.IsZero then k.AddCoins (k.GetDelegatorWithdrawAddr valAddr) coins
    else pure k
  pure (k, coins)

/-! ### The staking hooks (`keeper/hooks.go`) -/

/-- `AfterValidatorCreated`. -/
def AfterValidatorCreated (sk : Staking.State) (valAddr : ValAddress) : Except Panic Keeper := do
  let val ← stakingValidator sk valAddr
  pure (k.initializeValidator val)

/-- The commission `AfterValidatorRemoved` force-withdraws: taken off the outstanding rewards,
its whole coins paid to the validator's withdraw address and its change to the community
pool.  An error of the bank keeper panics. -/
def forceWithdrawCommission (valAddr : ValAddress) (outstanding : DecCoins) :
    Except Panic (Keeper × DecCoins) := do
  let commission := k.GetValidatorAccumulatedCommission valAddr
  if !commission.IsZero then do
    -- subtract from outstanding
    let outstanding ← outstanding.Sub commission
    -- split into integral & remainder
    let (coins, remainder) ← commission.TruncateDecimal
    -- remainder to community pool
    let feePool ← k.GetFeePool
    let k := k.SetFeePool { feePool with communityPool := feePool.communityPool.Add remainder }
    -- add to validator account
    if !coins.IsZero then do
      let k ← (k.AddCoins (k.GetDelegatorWithdrawAddr valAddr) coins).mapError Abort.toPanic
      pure (k, outstanding)
    else pure (k, outstanding)
  else pure (k, outstanding)

/-- `AfterValidatorRemoved`: the commission is paid out, the outstanding rewards go to the
community pool, and every record of the validator is deleted. -/
def AfterValidatorRemoved (valAddr : ValAddress) : Except Panic Keeper := do
  -- fetch outstanding
  let outstanding ← k.GetValidatorOutstandingRewards valAddr
  -- force-withdraw commission
  let (k, outstanding) ← k.forceWithdrawCommission valAddr outstanding
  -- add outstanding to community pool
  let feePool ← k.GetFeePool
  let k := k.SetFeePool { feePool with communityPool := feePool.communityPool.Add outstanding }
  -- delete outstanding, commission, slashes, historical and current rewards
  let k := k.DeleteValidatorOutstandingRewards valAddr
  let k := k.DeleteValidatorAccumulatedCommission valAddr
  let k := k.DeleteValidatorSlashEvents valAddr
  let k := k.DeleteValidatorHistoricalRewards valAddr
  pure (k.DeleteValidatorCurrentRewards valAddr)

/-- `BeforeDelegationCreated`: ends the validator's period. -/
def BeforeDelegationCreated (sk : Staking.State) (valAddr : ValAddress) : Except Panic Keeper := do
  let val ← stakingValidator sk valAddr
  let (k, _) ← k.incrementValidatorPeriod val
  pure k

/-- `BeforeDelegationSharesModified`: withdraws the delegation's rewards, which also ends the
period; an error panics. -/
def BeforeDelegationSharesModified (sk : Staking.State) (height : ℕ) (delAddr : AccAddress)
    (valAddr : ValAddress) : Except Panic Keeper := do
  let val ← stakingValidator sk valAddr
  let del ← stakingDelegation sk delAddr valAddr
  let (k, _) ← (k.withdrawDelegationRewards height val del).mapError Abort.toPanic
  pure k

/-- `AfterDelegationModified`: a new starting info. -/
def AfterDelegationModified (sk : Staking.State) (height : ℕ) (delAddr : AccAddress)
    (valAddr : ValAddress) : Except Panic Keeper :=
  k.initializeDelegation sk height valAddr delAddr

/-- `BeforeValidatorSlashed`: records the slash event. -/
def BeforeValidatorSlashed (sk : Staking.State) (height : ℕ) (valAddr : ValAddress)
    (fraction : Dec) : Except Panic Keeper :=
  k.updateValidatorSlashFraction sk height valAddr fraction

/-! ### The registered invariants (`keeper/invariants.go`) -/

/-- `ReferenceCountInvariant`: one reference per validator (its last ended period), one per
delegation (the period it started after) and one per slash event. -/
def ReferenceCountInvariant (sk : Staking.State) : Bool :=
  let valCount := sk.validators.size
  let dels := sk.delegations.size
  let slashCount := k.validatorSlashEvents.size
  k.GetValidatorHistoricalReferenceCount == valCount + dels + slashCount

/-- `NonNegativeOutstandingInvariant`: the iteration stops at the first validator whose
outstanding rewards hold a negative amount, and the last rewards it saw are checked. -/
def NonNegativeOutstandingInvariant : Bool :=
  let entries := k.validatorOutstandingRewards.entries
  let outstanding : DecCoins := ((entries.find? fun e => e.2.IsAnyNegative).map (·.2)).getD
    ((entries.getLast?.map (·.2)).getD [])
  !outstanding.IsAnyNegative

end Keeper

end CosmosSdk.Distribution
