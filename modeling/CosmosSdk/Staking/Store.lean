import CosmosSdk.Staking.Types
import CosmosSdk.Lib.SortedMap

/-!
# The staking store

The state the staking keeper reads and writes: one sorted map per key prefix of its store
(`keys.go`), the pool and the parameters, and, from the bank module, the balance in the
bond denomination of each account.  The getters and setters are those of `keeper.go`,
`validator.go` and `delegation.go`; the bank calls are `DelegateCoins` and
`UndelegateCoins` of `x/bank/keeper.go`.

* A delegation and an unbonding delegation are keyed by delegator then validator, a
  redelegation by delegator, source, destination.  The store's key is the concatenation
  of the addresses; for addresses of `AddrLen` bytes its byte order is this lexicographic
  order, and the indexes by validator (`GetUBDsByValIndexKey`,
  `GetREDsFromValSrcIndexKey`) list the same records in the same order as the filters
  below.
* The queues of unbonding delegations and redelegations are left out: the end blocker
  completes the pairs they name, and the model lets any pair be completed.
* Vesting accounts are left out: `DelegateCoins` and `UndelegateCoins` move the coins of
  every account as those of a base account.
-/

namespace CosmosSdk.Staking

/-- The key of a delegation or an unbonding delegation. -/
abbrev DelKey := AccAddress ×ₗ ValAddress

/-- The key of a redelegation. -/
abbrev RedKey := AccAddress ×ₗ (ValAddress ×ₗ ValAddress)

/-- The state of the staking store, and the bank balances it moves. -/
structure State where
  params : Params
  pool : Pool
  validators : SortedMap ValAddress Validator
  validatorsByConsAddr : SortedMap ConsAddress ValAddress
  validatorsByPower : SortedMap Bytes ValAddress
  lastValidatorPower : SortedMap ValAddress ℤ
  lastTotalPower : ℤ
  delegations : SortedMap DelKey Delegation
  unbondingDelegations : SortedMap DelKey UnbondingDelegation
  redelegations : SortedMap RedKey Redelegation
  validatorQueue : SortedMap Time (List ValAddress)
  accounts : SortedMap AccAddress ℤ

/-- `sdk.NewCoin` in the bond denomination: a negative amount panics. -/
def NewCoin (amount : ℤ) : Except Fault ℤ :=
  if amount < 0 then throw (.panic "negative coin amount: %v") else pure amount

@[simp] theorem NewCoin_eq_ok {a c : ℤ} : NewCoin a = .ok c ↔ 0 ≤ a ∧ c = a := by
  unfold NewCoin
  split_ifs with h
  · simp only [false_iff]
    omega
  · simp only [Except.pure_eq_ok, Except.ok_inj]
    constructor
    · rintro rfl
      exact ⟨by omega, rfl⟩
    · rintro ⟨-, rfl⟩
      rfl

namespace State

variable (s : State)

/-! ### Validators and their indexes -/

/-- `GetValidator`. -/
def GetValidator (addr : ValAddress) : Option Validator := s.validators.get? addr

/-- `mustGetValidator`. -/
def mustGetValidator (addr : ValAddress) : Except Fault Validator :=
  match s.GetValidator addr with
  | some v => pure v
  | none => throw (.panic "validator record not found for address: %X\n")

@[simp] theorem mustGetValidator_eq_ok {addr : ValAddress} {v : Validator} :
    s.mustGetValidator addr = .ok v ↔ s.GetValidator addr = some v := by
  unfold mustGetValidator
  split <;> simp_all

/-- `GetValidatorByConsAddr`. -/
def GetValidatorByConsAddr (consAddr : ConsAddress) : Option Validator :=
  (s.validatorsByConsAddr.get? consAddr).bind s.GetValidator

/-- `mustGetValidatorByConsAddr`. -/
def mustGetValidatorByConsAddr (consAddr : ConsAddress) : Except Fault Validator :=
  match s.GetValidatorByConsAddr consAddr with
  | some v => pure v
  | none => throw (.panic "validator with consensus-Address %s not found")

@[simp] theorem mustGetValidatorByConsAddr_eq_ok {consAddr : ConsAddress} {v : Validator} :
    s.mustGetValidatorByConsAddr consAddr = .ok v ↔ s.GetValidatorByConsAddr consAddr = some v := by
  unfold mustGetValidatorByConsAddr
  split <;> simp_all

/-- The validator found by its consensus address is one of the stored validators. -/
theorem GetValidator_of_mustGetValidatorByConsAddr {consAddr : ConsAddress} {v : Validator}
    (h : s.mustGetValidatorByConsAddr consAddr = .ok v) : ∃ a, s.GetValidator a = some v := by
  obtain ⟨a, -, hva⟩ := Option.bind_eq_some_iff.mp ((s.mustGetValidatorByConsAddr_eq_ok).mp h)
  exact ⟨a, hva⟩

/-- `SetValidator`. -/
def SetValidator (validator : Validator) : State :=
  { s with validators := s.validators.insert validator.operatorAddress validator }

/-- `SetValidatorByConsAddr`. -/
def SetValidatorByConsAddr (validator : Validator) : State :=
  { s with
    validatorsByConsAddr :=
      s.validatorsByConsAddr.insert validator.ConsAddress validator.operatorAddress }

/-- `SetValidatorByPowerIndex`: jailed validators are not kept in the power index. -/
def SetValidatorByPowerIndex (validator : Validator) : State :=
  if validator.jailed then s
  else
    { s with
      validatorsByPower :=
        s.validatorsByPower.insert (GetValidatorsByPowerIndexKey validator)
          validator.operatorAddress }

theorem SetValidatorByPowerIndex_eq (validator : Validator) :
    s.SetValidatorByPowerIndex validator =
      { s with
        validatorsByPower :=
          if validator.jailed then s.validatorsByPower
          else s.validatorsByPower.insert (GetValidatorsByPowerIndexKey validator)
            validator.operatorAddress } := by
  unfold SetValidatorByPowerIndex
  split <;> rfl

/-- `DeleteValidatorByPowerIndex`. -/
def DeleteValidatorByPowerIndex (validator : Validator) : State :=
  { s with validatorsByPower := s.validatorsByPower.erase (GetValidatorsByPowerIndexKey validator) }

/-- `SetNewValidatorByPowerIndex`: as `SetValidatorByPowerIndex`, without the jail check. -/
def SetNewValidatorByPowerIndex (validator : Validator) : State :=
  { s with
    validatorsByPower :=
      s.validatorsByPower.insert (GetValidatorsByPowerIndexKey validator)
        validator.operatorAddress }

/-- `SetPool`. -/
def SetPool (pool : Pool) : State := { s with pool := pool }

/-! ### The last validator set -/

/-- `GetLastValidatorPower`: zero for a validator outside the last set. -/
def GetLastValidatorPower (operator : ValAddress) : ℤ :=
  (s.lastValidatorPower.get? operator).getD 0

/-- `SetLastValidatorPower`. -/
def SetLastValidatorPower (operator : ValAddress) (power : ℤ) : State :=
  { s with lastValidatorPower := s.lastValidatorPower.insert operator power }

/-- `DeleteLastValidatorPower`. -/
def DeleteLastValidatorPower (operator : ValAddress) : State :=
  { s with lastValidatorPower := s.lastValidatorPower.erase operator }

/-- `SetLastTotalPower`. -/
def SetLastTotalPower (power : ℤ) : State := { s with lastTotalPower := power }

/-! ### Delegations -/

/-- `GetDelegation`. -/
def GetDelegation (delAddr : AccAddress) (valAddr : ValAddress) : Option Delegation :=
  s.delegations.get? (toLex (delAddr, valAddr))

/-- `SetDelegation`. -/
def SetDelegation (delegation : Delegation) : State :=
  { s with
    delegations :=
      s.delegations.insert (toLex (delegation.delegatorAddress, delegation.validatorAddress))
        delegation }

/-- `RemoveDelegation`. -/
def RemoveDelegation (delegation : Delegation) : State :=
  { s with
    delegations :=
      s.delegations.erase (toLex (delegation.delegatorAddress, delegation.validatorAddress)) }

/-! ### Unbonding delegations -/

/-- `GetUnbondingDelegation`. -/
def GetUnbondingDelegation (delAddr : AccAddress) (valAddr : ValAddress) :
    Option UnbondingDelegation :=
  s.unbondingDelegations.get? (toLex (delAddr, valAddr))

/-- `GetUnbondingDelegationsFromValidator`: the records under the validator's index prefix,
in the order of their delegators. -/
def GetUnbondingDelegationsFromValidator (valAddr : ValAddress) : List UnbondingDelegation :=
  (s.unbondingDelegations.entries.filter fun e => (ofLex e.1).2 = valAddr).map Prod.snd

/-- `SetUnbondingDelegation`. -/
def SetUnbondingDelegation (ubd : UnbondingDelegation) : State :=
  { s with
    unbondingDelegations :=
      s.unbondingDelegations.insert (toLex (ubd.delegatorAddress, ubd.validatorAddress)) ubd }

/-- `RemoveUnbondingDelegation`. -/
def RemoveUnbondingDelegation (ubd : UnbondingDelegation) : State :=
  { s with
    unbondingDelegations :=
      s.unbondingDelegations.erase (toLex (ubd.delegatorAddress, ubd.validatorAddress)) }

/-- `HasMaxUnbondingDelegationEntries`. -/
def HasMaxUnbondingDelegationEntries (delegatorAddr : AccAddress) (validatorAddr : ValAddress) :
    Bool :=
  match s.GetUnbondingDelegation delegatorAddr validatorAddr with
  | none => false
  | some ubd => decide (s.params.maxEntries ≤ ubd.entries.length)

/-- `SetUnbondingDelegationEntry`: append an entry, creating the record if need be. -/
def SetUnbondingDelegationEntry (delegatorAddr : AccAddress) (validatorAddr : ValAddress)
    (creationHeight : ℤ) (minTime : Time) (balance : ℤ) : State × UnbondingDelegation :=
  let entry := NewUnbondingDelegationEntry creationHeight minTime balance
  let ubd :=
    match s.GetUnbondingDelegation delegatorAddr validatorAddr with
    | some ubd => { ubd with entries := ubd.entries ++ [entry] }
    | none => ⟨delegatorAddr, validatorAddr, [entry]⟩
  (s.SetUnbondingDelegation ubd, ubd)

/-! ### Redelegations -/

/-- `GetRedelegation`. -/
def GetRedelegation (delAddr : AccAddress) (valSrcAddr valDstAddr : ValAddress) :
    Option Redelegation :=
  s.redelegations.get? (toLex (delAddr, toLex (valSrcAddr, valDstAddr)))

/-- `GetRedelegationsFromValidator`: the records under the source validator's index prefix,
in the order of their delegators and destinations. -/
def GetRedelegationsFromValidator (valAddr : ValAddress) : List Redelegation :=
  (s.redelegations.entries.filter fun e => (ofLex (ofLex e.1).2).1 = valAddr).map Prod.snd

/-- `HasReceivingRedelegation`: some redelegation of the delegator ends at the validator. -/
def HasReceivingRedelegation (delAddr : AccAddress) (valDstAddr : ValAddress) : Bool :=
  s.redelegations.entries.any fun e => (ofLex e.1).1 = delAddr ∧ (ofLex (ofLex e.1).2).2 = valDstAddr

/-- `SetRedelegation`. -/
def SetRedelegation (red : Redelegation) : State :=
  { s with
    redelegations :=
      s.redelegations.insert
        (toLex (red.delegatorAddress, toLex (red.validatorSrcAddress, red.validatorDstAddress)))
        red }

/-- `RemoveRedelegation`. -/
def RemoveRedelegation (red : Redelegation) : State :=
  { s with
    redelegations :=
      s.redelegations.erase
        (toLex (red.delegatorAddress, toLex (red.validatorSrcAddress, red.validatorDstAddress))) }

/-- `HasMaxRedelegationEntries`. -/
def HasMaxRedelegationEntries (delegatorAddr : AccAddress)
    (validatorSrcAddr validatorDstAddr : ValAddress) : Bool :=
  match s.GetRedelegation delegatorAddr validatorSrcAddr validatorDstAddr with
  | none => false
  | some red => decide (s.params.maxEntries ≤ red.entries.length)

/-- `SetRedelegationEntry`: append an entry, creating the record if need be.  The source
shares are passed and not stored, as in the source. -/
def SetRedelegationEntry (delegatorAddr : AccAddress) (validatorSrcAddr validatorDstAddr : ValAddress)
    (creationHeight : ℤ) (minTime : Time) (balance : ℤ) (_sharesSrc sharesDst : Dec) :
    State × Redelegation :=
  let entry : RedelegationEntry := ⟨creationHeight, minTime, balance, sharesDst⟩
  let red :=
    match s.GetRedelegation delegatorAddr validatorSrcAddr validatorDstAddr with
    | some red => { red with entries := red.entries ++ [entry] }
    | none => ⟨delegatorAddr, validatorSrcAddr, validatorDstAddr, [entry]⟩
  (s.SetRedelegation red, red)

/-! ### The validator queue -/

/-- `GetValidatorQueueTimeSlice`. -/
def GetValidatorQueueTimeSlice (timestamp : Time) : List ValAddress :=
  (s.validatorQueue.get? timestamp).getD []

/-- `SetValidatorQueueTimeSlice`. -/
def SetValidatorQueueTimeSlice (timestamp : Time) (keys : List ValAddress) : State :=
  { s with validatorQueue := s.validatorQueue.insert timestamp keys }

/-- `DeleteValidatorQueueTimeSlice`. -/
def DeleteValidatorQueueTimeSlice (timestamp : Time) : State :=
  { s with validatorQueue := s.validatorQueue.erase timestamp }

/-- `InsertValidatorQueue`: append the validator to the slice of its completion time. -/
def InsertValidatorQueue (val : Validator) : State :=
  let timeSlice := s.GetValidatorQueueTimeSlice val.unbondingCompletionTime
  let keys := if timeSlice.isEmpty then [val.operatorAddress] else timeSlice ++ [val.operatorAddress]
  s.SetValidatorQueueTimeSlice val.unbondingCompletionTime keys

/-- `DeleteValidatorQueue`: drop the validator from the slice of its completion time, and the
slice if it is left empty. -/
def DeleteValidatorQueue (val : Validator) : State :=
  let timeSlice := s.GetValidatorQueueTimeSlice val.unbondingCompletionTime
  let newTimeSlice := timeSlice.filter (· ≠ val.operatorAddress)
  if newTimeSlice.isEmpty then s.DeleteValidatorQueueTimeSlice val.unbondingCompletionTime
  else s.SetValidatorQueueTimeSlice val.unbondingCompletionTime newTimeSlice

theorem DeleteValidatorQueue_eq (val : Validator) :
    s.DeleteValidatorQueue val =
      { s with
        validatorQueue :=
          if ((s.GetValidatorQueueTimeSlice val.unbondingCompletionTime).filter
              (· ≠ val.operatorAddress)).isEmpty then
            s.validatorQueue.erase val.unbondingCompletionTime
          else s.validatorQueue.insert val.unbondingCompletionTime
            ((s.GetValidatorQueueTimeSlice val.unbondingCompletionTime).filter
              (· ≠ val.operatorAddress)) } := by
  unfold DeleteValidatorQueue
  dsimp only
  split <;> rfl

/-! ### The bank -/

/-- `BaseKeeper.DelegateCoins`: take the coins from the account. -/
def DelegateCoins (addr : AccAddress) (amt : ℤ) : Except Fault State :=
  if amt ≤ 0 then throw (.err .invalidCoins)
  else
    match s.accounts.get? addr with
    | none => throw (.err .unknownAddress)
    | some coins =>
      if coins < amt then throw (.err .insufficientCoins)
      else pure { s with accounts := s.accounts.insert addr (coins - amt) }

/-- `BaseKeeper.UndelegateCoins`: credit the coins to the account. -/
def UndelegateCoins (addr : AccAddress) (amt : ℤ) : Except Fault State :=
  if amt ≤ 0 then throw (.err .invalidCoins)
  else
    match s.accounts.get? addr with
    | none => throw (.err .unknownAddress)
    | some coins => pure { s with accounts := s.accounts.insert addr (coins + amt) }

end State

end CosmosSdk.Staking
