import CosmosSdk.Types.DecCoins
import CosmosSdk.Staking.ExchangeRate
import CosmosSdk.Lib.SortedMap

/-!
# Fee allocation

`x/distribution`: at the start of each block `BeginBlocker` (`abci_app.go`) adds up the power
of the previous block's votes and of those that signed, and `AllocateTokens`
(`keeper/allocation.go`) hands out the fees collected in the previous block.  The proposer gets
`BaseProposerReward` plus `BonusProposerReward` scaled by the fraction of the power that signed,
each vote a share of `1 - proposerMultiplier - CommunityTax` by its power, and the community
pool what is left, by subtraction.  `AllocateTokensToValidator` splits a validator's part into
its commission and the rest, for its delegators.

* `State`: the fee pool, the current rewards, accumulated commission and outstanding rewards
  of each validator, the collected fees of the fee collection keeper, the parameters and the
  previous proposer.  A record of current or outstanding rewards that is not stored does not
  decode, and the getter panics.
* `StakingKeeper`: what the keeper reads of the staking keeper, `ValidatorByConsAddr`, whose
  `nil` is `none`; calling a method on it panics.

The proof is in two halves.  Safety: every allocation that returns moves the fees exactly,
into the community pool and the outstanding rewards, each validator's commission and current
rewards growing by what its outstanding rewards grow (`AllocateTokens_allocated`, whatever the
votes and the parameters).  Liveness: every product is truncated, so what the proposer and the
votes get is at most their exact part, and what the subtractions leave is at least the community
tax's part; on a well-formed state, with validators known for every vote, no subtraction panics
and every record read is stored (`AllocateTokens_returns`).  Together they give
`AllocateTokens_conserves`.  A vote whose validator the staking keeper does not know, which the
code checks for the proposer only, panics (`AllocateTokens_unknown_voter`).
-/

namespace CosmosSdk.Distribution

/-- `types.FeePool`. -/
structure FeePool where
  communityPool : DecCoins
  deriving DecidableEq, Repr

/-- `types.ValidatorCurrentRewards`. -/
structure ValidatorCurrentRewards where
  rewards : DecCoins
  period : ℕ
  deriving DecidableEq, Repr

/-- What the keeper reads of a validator through `exported.ValidatorI`: `GetOperator` and
`GetCommission`, the commission rate. -/
structure ValidatorI where
  operator : ValAddress
  commission : Dec
  deriving DecidableEq, Repr

/-- The staking keeper as `types.StakingKeeper`: `ValidatorByConsAddr`, `none` for the `nil` it
returns for an unknown address. -/
structure StakingKeeper where
  ValidatorByConsAddr : ConsAddress → Option ValidatorI

/-- `abci.Validator`: the address and power of a validator of the previous block. -/
structure Validator where
  address : ConsAddress
  power : ℤ
  deriving DecidableEq, Repr

/-- `abci.VoteInfo`. -/
structure VoteInfo where
  validator : Validator
  signedLastBlock : Bool
  deriving DecidableEq, Repr

/-- The parameters the allocation reads from the parameter store. -/
structure Params where
  communityTax : Dec
  baseProposerReward : Dec
  bonusProposerReward : Dec
  deriving DecidableEq, Repr

/-- The state the allocation reads and writes. -/
structure State where
  feePool : Option FeePool
  validatorCurrentRewards : SortedMap ValAddress ValidatorCurrentRewards
  validatorAccumulatedCommission : SortedMap ValAddress DecCoins
  validatorOutstandingRewards : SortedMap ValAddress DecCoins
  previousProposer : Option ConsAddress
  collectedFees : Coins
  params : Params

/-- `MustUnmarshalBinaryLengthPrefixed` of the `nil` bytes of a missing record. -/
def emptyBytesPanic : Panic := ⟨"UnmarshalBinaryLengthPrefixed cannot decode empty bytes"⟩

/-- A method called on a `nil` interface. -/
def nilPanic : Panic := ⟨"runtime error: invalid memory address or nil pointer dereference"⟩

namespace State

/-- `GetFeePool`. -/
def GetFeePool (s : State) : Except Panic FeePool :=
  match s.feePool with
  | none => throw ⟨"Stored fee pool should not have been nil"⟩
  | some feePool => pure feePool

/-- `SetFeePool`. -/
def SetFeePool (s : State) (feePool : FeePool) : State := { s with feePool := some feePool }

/-- `GetPreviousProposerConsAddr`. -/
def GetPreviousProposerConsAddr (s : State) : Except Panic ConsAddress :=
  match s.previousProposer with
  | none => throw ⟨"Previous proposer not set"⟩
  | some consAddr => pure consAddr

/-- `SetPreviousProposerConsAddr`. -/
def SetPreviousProposerConsAddr (s : State) (consAddr : ConsAddress) : State :=
  { s with previousProposer := some consAddr }

/-- `GetValidatorCurrentRewards`. -/
def GetValidatorCurrentRewards (s : State) (val : ValAddress) : Except Panic ValidatorCurrentRewards :=
  match s.validatorCurrentRewards.get? val with
  | none => throw emptyBytesPanic
  | some rewards => pure rewards

/-- `SetValidatorCurrentRewards`. -/
def SetValidatorCurrentRewards (s : State) (val : ValAddress) (rewards : ValidatorCurrentRewards) :
    State :=
  { s with validatorCurrentRewards := s.validatorCurrentRewards.insert val rewards }

/-- `GetValidatorAccumulatedCommission`: none stored reads as empty. -/
def GetValidatorAccumulatedCommission (s : State) (val : ValAddress) : DecCoins :=
  (s.validatorAccumulatedCommission.get? val).getD []

/-- `SetValidatorAccumulatedCommission`: a commission of zeros is stored as the empty one. -/
def SetValidatorAccumulatedCommission (s : State) (val : ValAddress) (commission : DecCoins) :
    State :=
  { s with validatorAccumulatedCommission :=
      s.validatorAccumulatedCommission.insert val (if commission.IsZero then [] else commission) }

/-- `GetValidatorOutstandingRewards`. -/
def GetValidatorOutstandingRewards (s : State) (val : ValAddress) : Except Panic DecCoins :=
  match s.validatorOutstandingRewards.get? val with
  | none => throw emptyBytesPanic
  | some rewards => pure rewards

/-- `SetValidatorOutstandingRewards`. -/
def SetValidatorOutstandingRewards (s : State) (val : ValAddress) (rewards : DecCoins) : State :=
  { s with validatorOutstandingRewards := s.validatorOutstandingRewards.insert val rewards }

/-- `ClearCollectedFees` of the fee collection keeper. -/
def ClearCollectedFees (s : State) : State := { s with collectedFees := [] }

/-- `AllocateTokensToValidator`: the commission to the validator's accumulated commission, the
rest to its current rewards, and all of it to its outstanding rewards. -/
def AllocateTokensToValidator (s : State) (val : Option ValidatorI) (tokens : DecCoins) :
    Except Panic State :=
  match val with
  | none => throw nilPanic
  | some val => do
    -- split tokens between validator and delegators according to commission
    let commission := tokens.MulDec val.commission
    let shared ← tokens.Sub commission
    let currentCommission := DecCoins.Add (s.GetValidatorAccumulatedCommission val.operator) commission
    let s := s.SetValidatorAccumulatedCommission val.operator currentCommission
    let currentRewards ← s.GetValidatorCurrentRewards val.operator
    let s := s.SetValidatorCurrentRewards val.operator
      { currentRewards with rewards := DecCoins.Add currentRewards.rewards shared }
    let outstanding ← s.GetValidatorOutstandingRewards val.operator
    pure (s.SetValidatorOutstandingRewards val.operator (DecCoins.Add outstanding tokens))

/-- One vote of the loop of `AllocateTokens`: the validator's share of the fees by its power,
allocated to it and taken off what remains. -/
def allocateVote (sk : StakingKeeper) (feesCollected : DecCoins) (voteMultiplier : Dec)
    (totalPreviousPower : ℤ) (acc : State × DecCoins) (vote : VoteInfo) :
    Except Panic (State × DecCoins) := do
  let validator := sk.ValidatorByConsAddr vote.validator.address
  let powerFraction ← (Dec.ofInt vote.validator.power).quoTruncate (Dec.ofInt totalPreviousPower)
  let reward := (feesCollected.MulDecTruncate voteMultiplier).MulDecTruncate powerFraction
  let s ← acc.1.AllocateTokensToValidator validator reward
  let remaining ← acc.2.Sub reward
  pure (s, remaining)

/-- The proposer's part of `AllocateTokens`: allocated to the proposer and taken off the fees,
or nothing for a proposer the staking keeper does not know, which the Go code logs. -/
def payProposer (sk : StakingKeeper) (s : State) (feesCollected proposerReward : DecCoins)
    (previousProposer : ConsAddress) : Except Panic (State × DecCoins) :=
  match sk.ValidatorByConsAddr previousProposer with
  | some proposerValidator => do
    let s ← s.AllocateTokensToValidator (some proposerValidator) proposerReward
    let remaining ← feesCollected.Sub proposerReward
    pure (s, remaining)
  | none => pure (s, feesCollected)

/-- `AllocateTokens`. -/
def AllocateTokens (sk : StakingKeeper) (s : State) (sumPreviousPrecommitPower totalPreviousPower : ℤ)
    (previousProposer : ConsAddress) (previousVotes : List VoteInfo) : Except Panic State := do
  -- fetch and clear the collected fees
  let feesCollected ← NewDecCoins s.collectedFees
  let s := s.ClearCollectedFees
  let feePool ← s.GetFeePool
  if totalPreviousPower = 0 then
    pure (s.SetFeePool { feePool with communityPool := DecCoins.Add feePool.communityPool feesCollected })
  else do
    let previousFractionVotes ←
      (Dec.ofInt sumPreviousPrecommitPower).quo (Dec.ofInt totalPreviousPower)
    let proposerMultiplier :=
      s.params.baseProposerReward + s.params.bonusProposerReward.mulTruncate previousFractionVotes
    let proposerReward := feesCollected.MulDecTruncate proposerMultiplier
    let (s, remaining) ← payProposer sk s feesCollected proposerReward previousProposer
    let voteMultiplier := Dec.one - proposerMultiplier - s.params.communityTax
    let (s, remaining) ←
      previousVotes.foldlM (allocateVote sk feesCollected voteMultiplier totalPreviousPower) (s, remaining)
    pure (s.SetFeePool { feePool with communityPool := DecCoins.Add feePool.communityPool remaining })

/-- `BeginBlocker`: the power of the previous block's votes and of those that signed, the fees
allocated past the first block, and the block's proposer recorded for the next. -/
def BeginBlocker (sk : StakingKeeper) (s : State) (blockHeight : ℤ) (proposerAddress : ConsAddress)
    (votes : List VoteInfo) : Except Panic State := do
  let previousTotalPower := (votes.map fun v => v.validator.power).sum
  let sumPreviousPrecommitPower :=
    ((votes.filter fun v => v.signedLastBlock).map fun v => v.validator.power).sum
  let s ← if blockHeight > 1 then do
      let previousProposer ← s.GetPreviousProposerConsAddr
      AllocateTokens sk s sumPreviousPrecommitPower previousTotalPower previousProposer votes
    else pure s
  pure (s.SetPreviousProposerConsAddr proposerAddress)

/-! ### What a validator, and all of them, hold -/

/-- The units of a denomination in a validator's outstanding rewards. -/
def outstandingOf (s : State) (val : ValAddress) (d : String) : ℤ :=
  ((s.validatorOutstandingRewards.get? val).getD []).amount d

/-- The units of a denomination in a validator's current rewards. -/
def currentOf (s : State) (val : ValAddress) (d : String) : ℤ :=
  DecCoins.amount (((s.validatorCurrentRewards.get? val).map (·.rewards)).getD []) d

/-- The units of a denomination in a validator's accumulated commission. -/
def commissionOf (s : State) (val : ValAddress) (d : String) : ℤ :=
  (s.GetValidatorAccumulatedCommission val).amount d

/-- The units of a denomination in the outstanding rewards of all validators. -/
def outstandingTotal (s : State) (d : String) : ℤ :=
  s.validatorOutstandingRewards.sum fun _ rewards => rewards.amount d

/-- The units of a denomination in the community pool. -/
def communityOf (s : State) (d : String) : ℤ :=
  DecCoins.amount ((s.feePool.map (·.communityPool)).getD []) d

end State

end CosmosSdk.Distribution

/-! ### Products of nonnegative decimals -/

namespace CosmosSdk.Dec

/-- A positive power as a decimal: the divisor of the fractions of the power. -/
theorem ofInt_i_pos {t : ℤ} (ht : 0 < t) : 0 < (ofInt t).i := mul_pos ht precisionReuse_pos

theorem mulTruncate_i_nonneg {a m : Dec} (ha : 0 ≤ a.i) (hm : 0 ≤ m.i) : 0 ≤ (a.mulTruncate m).i :=
  Int.tdiv_nonneg (mul_nonneg ha hm) precisionReuse_pos.le

/-- A truncated product is at most the exact one. -/
theorem mulTruncate_i_mul_le {a m : Dec} (ha : 0 ≤ a.i) (hm : 0 ≤ m.i) :
    (a.mulTruncate m).i * precisionReuse ≤ a.i * m.i := by
  rw [mulTruncate, chopPrecisionAndTruncate, Int.tdiv_eq_ediv_of_nonneg (mul_nonneg ha hm)]
  exact Int.ediv_mul_le _ precisionReuse_pos.ne'

/-- A rounded product by a rate of at most one is at most the amount. -/
theorem mul_i_le_of_le_one {a r : Dec} (ha : 0 ≤ a.i) (hr : 0 ≤ r.i) (hr1 : r.i ≤ precisionReuse) :
    (a.mul r).i ≤ a.i := by
  obtain ⟨-, hhi⟩ := Staking.chopPrecisionAndRound_bounds (mul_nonneg ha hr)
  have hp := precisionReuse_pos
  have hprod : a.i * r.i ≤ a.i * precisionReuse := mul_le_mul_of_nonneg_left hr1 ha
  have hdiv : (a.i * r.i + precisionReuse - 1) / precisionReuse ≤ a.i := by
    rw [Int.ediv_le_iff_le_mul hp]
    linarith
  exact le_trans hhi hdiv

/-- The fraction of the power that signed, `sum / total` rounded, is between zero and one. -/
theorem quo_ofInt_bounds {p t : ℤ} {q : Dec} (hp : 0 ≤ p) (hpt : p ≤ t) (ht : 0 < t)
    (h : (ofInt p).quo (ofInt t) = .ok q) : 0 ≤ q.i ∧ q.i ≤ precisionReuse := by
  have hP := precisionReuse_pos
  have hupper := quo_mul_le (by simpa using mul_nonneg hp hP.le) (ofInt_i_pos ht) h
  rw [quo_of_ne (ofInt_i_pos ht).ne'] at h
  obtain rfl := (Except.ok.inj h).symm
  simp only [ofInt_i] at hupper ⊢
  have hnum : 0 ≤ p * precisionReuse * precisionReuse * precisionReuse := by positivity
  refine ⟨Staking.chopPrecisionAndRound_nonneg (Int.tdiv_nonneg hnum (mul_pos ht hP).le), ?_⟩
  -- twice the quotient is at most twice one, and half a unit
  by_contra hgt
  push Not at hgt
  have htP : 0 < t * precisionReuse := mul_pos ht hP
  have hq := mul_le_mul_of_nonneg_left (Int.add_one_le_iff.2 hgt) (by positivity : 0 ≤ 2 * (t * precisionReuse))
  have hpt' : 2 * (p * precisionReuse) * precisionReuse ≤ 2 * (t * precisionReuse) * precisionReuse := by
    have := mul_le_mul_of_nonneg_right hpt hP.le
    nlinarith
  nlinarith

/-- A vote's fraction of the power, `power / total` truncated, is at most the exact one. -/
theorem quoTruncate_ofInt_bounds {p t : ℤ} {q : Dec} (hp : 0 ≤ p) (ht : 0 < t)
    (h : (ofInt p).quoTruncate (ofInt t) = .ok q) : 0 ≤ q.i ∧ q.i * t ≤ p * precisionReuse := by
  have hP := precisionReuse_pos
  have htP : 0 < t * precisionReuse := mul_pos ht hP
  rw [quoTruncate, if_neg (ofInt_i_pos ht).ne'] at h
  obtain rfl := (Except.ok.inj h).symm
  simp only [ofInt_i, chopPrecisionAndTruncate]
  have hnum : 0 ≤ p * precisionReuse * precisionReuse * precisionReuse := by positivity
  set x := (p * precisionReuse * precisionReuse * precisionReuse).tdiv (t * precisionReuse) with hx
  have hx0 : 0 ≤ x := Int.tdiv_nonneg hnum htP.le
  have hxle : x * (t * precisionReuse) ≤ p * precisionReuse * precisionReuse * precisionReuse := by
    rw [hx, Int.tdiv_eq_ediv_of_nonneg hnum]
    exact Int.ediv_mul_le _ htP.ne'
  have hq : x.tdiv precisionReuse * precisionReuse ≤ x := by
    rw [Int.tdiv_eq_ediv_of_nonneg hx0]
    exact Int.ediv_mul_le _ hP.ne'
  refine ⟨Int.tdiv_nonneg hx0 hP.le, ?_⟩
  have key : x.tdiv precisionReuse * t * (precisionReuse * precisionReuse) ≤
      p * precisionReuse * (precisionReuse * precisionReuse) := by
    calc x.tdiv precisionReuse * t * (precisionReuse * precisionReuse)
        = (x.tdiv precisionReuse * precisionReuse) * (t * precisionReuse) := by ring
      _ ≤ x * (t * precisionReuse) := mul_le_mul_of_nonneg_right hq htP.le
      _ ≤ p * precisionReuse * precisionReuse * precisionReuse := hxle
      _ = p * precisionReuse * (precisionReuse * precisionReuse) := by ring
  exact le_of_mul_le_mul_right key (mul_pos hP hP)

end CosmosSdk.Dec

namespace CosmosSdk.DecCoins

open Dec

/-- The truncated products of a canonical set by a nonnegative decimal: canonical, and of each
denomination the truncated product of its amount, not negative and at most the exact one. -/
theorem MulDecTruncate_spec {coins : DecCoins} (hc : Canonical coins) {m : Dec} (hm : 0 ≤ m.i) :
    Canonical (coins.MulDecTruncate m) ∧ ∀ d, 0 ≤ (coins.MulDecTruncate m).amount d ∧
      (coins.MulDecTruncate m).amount d * precisionReuse ≤ coins.amount d * m.i := by
  have hmul0 : (0 : Dec).mulTruncate m = 0 :=
    Dec.i_injective (by simp [Dec.mulTruncate, chopPrecisionAndTruncate])
  have hamount : ∀ d, (coins.MulDecTruncate m).amount d = ((⟨coins.amount d⟩ : Dec).mulTruncate m).i :=
    amount_mulEach_of_sorted (fun a => a.mulTruncate m) hc.sorted hmul0
  refine ⟨canonical_mulEach _ fun c hc' => mulTruncate_i_nonneg (hc.pos c hc').le hm, fun d => ?_⟩
  rw [hamount]
  exact ⟨mulTruncate_i_nonneg (hc.amount_nonneg d) hm, mulTruncate_i_mul_le (hc.amount_nonneg d) hm⟩

/-- The rounded products of a canonical set by a rate between zero and one: canonical, and at
most the set, denomination by denomination. -/
theorem MulDec_spec {coins : DecCoins} (hc : Canonical coins) {r : Dec} (hr : 0 ≤ r.i)
    (hr1 : r.i ≤ precisionReuse) :
    Canonical (coins.MulDec r) ∧ ∀ d, (coins.MulDec r).amount d ≤ coins.amount d := by
  have hmul0 : (0 : Dec).mul r = 0 :=
    Dec.i_injective (by simp [Dec.mul, chopPrecisionAndRound, chopPrecisionAndRoundNonneg])
  have hamount : ∀ d, (coins.MulDec r).amount d = ((⟨coins.amount d⟩ : Dec).mul r).i :=
    amount_mulEach_of_sorted (fun a => a.mul r) hc.sorted hmul0
  refine ⟨canonical_mulEach _ fun c hc' => Staking.mul_i_nonneg (hc.pos c hc').le hr, fun d => ?_⟩
  rw [hamount]
  exact mul_i_le_of_le_one (hc.amount_nonneg d) hr hr1

end CosmosSdk.DecCoins

namespace CosmosSdk.Distribution

namespace State

/-! ### The setters and what they hold -/

section Setters

variable (s : State) (val w : ValAddress) (d : String)

@[simp] theorem outstandingOf_SetValidatorOutstandingRewards (rewards : DecCoins) :
    (s.SetValidatorOutstandingRewards val rewards).outstandingOf w d =
      if w = val then rewards.amount d else s.outstandingOf w d := by
  unfold outstandingOf SetValidatorOutstandingRewards
  rw [SortedMap.get?_insert]
  split_ifs <;> rfl

@[simp] theorem currentOf_SetValidatorCurrentRewards (rewards : ValidatorCurrentRewards) :
    (s.SetValidatorCurrentRewards val rewards).currentOf w d =
      if w = val then rewards.rewards.amount d else s.currentOf w d := by
  unfold currentOf SetValidatorCurrentRewards
  rw [SortedMap.get?_insert]
  split_ifs <;> rfl

/-- A commission of zeros is stored as the empty one, which holds as much. -/
@[simp] theorem commissionOf_SetValidatorAccumulatedCommission (commission : DecCoins) :
    (s.SetValidatorAccumulatedCommission val commission).commissionOf w d =
      if w = val then commission.amount d else s.commissionOf w d := by
  unfold commissionOf GetValidatorAccumulatedCommission SetValidatorAccumulatedCommission
  rw [SortedMap.get?_insert]
  split_ifs with hw hz
  · exact (DecCoins.amount_eq_zero_of_IsZero hz d).symm
  · rfl
  · rfl

/-- The outstanding rewards of all validators, after one validator's are replaced. -/
@[simp] theorem outstandingTotal_SetValidatorOutstandingRewards (rewards : DecCoins) :
    (s.SetValidatorOutstandingRewards val rewards).outstandingTotal d =
      s.outstandingTotal d - s.outstandingOf val d + rewards.amount d := by
  unfold outstandingTotal SetValidatorOutstandingRewards outstandingOf
  rw [SortedMap.sum_insert_eq]
  cases s.validatorOutstandingRewards.get? val <;> rfl

@[simp] theorem outstandingOf_SetValidatorCurrentRewards (rewards : ValidatorCurrentRewards) :
    (s.SetValidatorCurrentRewards val rewards).outstandingOf w d = s.outstandingOf w d := rfl

@[simp] theorem outstandingOf_SetValidatorAccumulatedCommission (commission : DecCoins) :
    (s.SetValidatorAccumulatedCommission val commission).outstandingOf w d = s.outstandingOf w d := rfl

@[simp] theorem currentOf_SetValidatorOutstandingRewards (rewards : DecCoins) :
    (s.SetValidatorOutstandingRewards val rewards).currentOf w d = s.currentOf w d := rfl

@[simp] theorem currentOf_SetValidatorAccumulatedCommission (commission : DecCoins) :
    (s.SetValidatorAccumulatedCommission val commission).currentOf w d = s.currentOf w d := rfl

@[simp] theorem commissionOf_SetValidatorOutstandingRewards (rewards : DecCoins) :
    (s.SetValidatorOutstandingRewards val rewards).commissionOf w d = s.commissionOf w d := rfl

@[simp] theorem commissionOf_SetValidatorCurrentRewards (rewards : ValidatorCurrentRewards) :
    (s.SetValidatorCurrentRewards val rewards).commissionOf w d = s.commissionOf w d := rfl

@[simp] theorem outstandingTotal_SetValidatorCurrentRewards (rewards : ValidatorCurrentRewards) :
    (s.SetValidatorCurrentRewards val rewards).outstandingTotal d = s.outstandingTotal d := rfl

@[simp] theorem outstandingTotal_SetValidatorAccumulatedCommission (commission : DecCoins) :
    (s.SetValidatorAccumulatedCommission val commission).outstandingTotal d = s.outstandingTotal d := rfl

theorem GetFeePool_eq_ok {feePool : FeePool} : s.GetFeePool = .ok feePool ↔ s.feePool = some feePool := by
  unfold GetFeePool
  cases s.feePool with
  | none => exact ⟨(fun h => by cases h), fun h => by cases h⟩
  | some p => exact ⟨(fun h => by cases h; rfl), fun h => by cases h; rfl⟩

theorem GetPreviousProposerConsAddr_eq_ok {consAddr : ConsAddress} :
    s.GetPreviousProposerConsAddr = .ok consAddr ↔ s.previousProposer = some consAddr := by
  unfold GetPreviousProposerConsAddr
  cases s.previousProposer with
  | none => exact ⟨(fun h => by cases h), fun h => by cases h⟩
  | some a => exact ⟨(fun h => by cases h; rfl), fun h => by cases h; rfl⟩

theorem GetValidatorCurrentRewards_eq_ok {rewards : ValidatorCurrentRewards} :
    s.GetValidatorCurrentRewards val = .ok rewards ↔ s.validatorCurrentRewards.get? val = some rewards := by
  unfold GetValidatorCurrentRewards
  cases s.validatorCurrentRewards.get? val with
  | none => exact ⟨(fun h => by cases h), fun h => by cases h⟩
  | some r => exact ⟨(fun h => by cases h; rfl), fun h => by cases h; rfl⟩

theorem GetValidatorOutstandingRewards_eq_ok {rewards : DecCoins} :
    s.GetValidatorOutstandingRewards val = .ok rewards ↔
      s.validatorOutstandingRewards.get? val = some rewards := by
  unfold GetValidatorOutstandingRewards
  cases s.validatorOutstandingRewards.get? val with
  | none => exact ⟨(fun h => by cases h), fun h => by cases h⟩
  | some r => exact ⟨(fun h => by cases h; rfl), fun h => by cases h; rfl⟩

end Setters

/-! ### What an allocation moves -/

/-- From `s` to `s'`, allocations moved `moved` units of each denomination into the outstanding
rewards: the other records are as they were, the same validators have records, and each
validator's commission and current rewards grew by what its outstanding rewards grew. -/
structure Allocated (s s' : State) (moved : String → ℤ) : Prop where
  feePool : s'.feePool = s.feePool
  previousProposer : s'.previousProposer = s.previousProposer
  collectedFees : s'.collectedFees = s.collectedFees
  params : s'.params = s.params
  current_isSome : ∀ v, (s'.validatorCurrentRewards.get? v).isSome =
    (s.validatorCurrentRewards.get? v).isSome
  outstanding_isSome : ∀ v, (s'.validatorOutstandingRewards.get? v).isSome =
    (s.validatorOutstandingRewards.get? v).isSome
  outstandingTotal : ∀ d, s'.outstandingTotal d = s.outstandingTotal d + moved d
  balanced : ∀ v d, s'.commissionOf v d - s.commissionOf v d + (s'.currentOf v d - s.currentOf v d) =
    s'.outstandingOf v d - s.outstandingOf v d

theorem Allocated.refl (s : State) : Allocated s s 0 where
  feePool := rfl
  previousProposer := rfl
  collectedFees := rfl
  params := rfl
  current_isSome _ := rfl
  outstanding_isSome _ := rfl
  outstandingTotal _ := (add_zero _).symm
  balanced _ _ := by ring

theorem Allocated.trans {s₁ s₂ s₃ : State} {m m' : String → ℤ} (h : Allocated s₁ s₂ m)
    (h' : Allocated s₂ s₃ m') : Allocated s₁ s₃ (m + m') where
  feePool := h'.feePool.trans h.feePool
  previousProposer := h'.previousProposer.trans h.previousProposer
  collectedFees := h'.collectedFees.trans h.collectedFees
  params := h'.params.trans h.params
  current_isSome v := (h'.current_isSome v).trans (h.current_isSome v)
  outstanding_isSome v := (h'.outstanding_isSome v).trans (h.outstanding_isSome v)
  outstandingTotal d := by rw [h'.outstandingTotal, h.outstandingTotal, Pi.add_apply, add_assoc]
  balanced v d := by
    have h₁ := h.balanced v d
    have h₂ := h'.balanced v d
    linarith

theorem Allocated.of_moved_eq {s s' : State} {m m' : String → ℤ} (h : Allocated s s' m) (hm : m = m') :
    Allocated s s' m' :=
  hm ▸ h

/-- An allocation to a validator that returns moved the tokens into its outstanding rewards,
its commission and its current rewards growing by as much together. -/
theorem AllocateTokensToValidator_allocated {s s' : State} {val : Option ValidatorI} {tokens : DecCoins}
    (h : s.AllocateTokensToValidator val tokens = .ok s') : Allocated s s' tokens.amount := by
  cases val with
  | none => cases h
  | some val =>
  unfold AllocateTokensToValidator at h
  dsimp only at h
  obtain ⟨shared, hsub, h⟩ := Except.bind_eq_ok.mp h
  obtain ⟨cur, hcur, h⟩ := Except.bind_eq_ok.mp h
  obtain ⟨out, hout, h⟩ := Except.bind_eq_ok.mp h
  cases h
  have hcurv : s.validatorCurrentRewards.get? val.operator = some cur :=
    (GetValidatorCurrentRewards_eq_ok _ _).1 hcur
  have houtv : s.validatorOutstandingRewards.get? val.operator = some out :=
    (GetValidatorOutstandingRewards_eq_ok _ _).1 hout
  have hcurOf : ∀ d, s.currentOf val.operator d = cur.rewards.amount d := by
    intro d
    rw [currentOf, hcurv]
    rfl
  have houtOf : ∀ d, s.outstandingOf val.operator d = out.amount d := by
    intro d
    rw [outstandingOf, houtv]
    rfl
  refine ⟨rfl, rfl, rfl, rfl, SortedMap.isSome_get?_insert _ _ (Option.isSome_iff_exists.2 ⟨cur, hcurv⟩),
    SortedMap.isSome_get?_insert _ _ (Option.isSome_iff_exists.2 ⟨out, houtv⟩), fun d => ?_, fun v d => ?_⟩
  · simp only [outstandingTotal_SetValidatorOutstandingRewards,
      outstandingTotal_SetValidatorCurrentRewards, outstandingTotal_SetValidatorAccumulatedCommission,
      outstandingOf_SetValidatorCurrentRewards, outstandingOf_SetValidatorAccumulatedCommission,
      houtOf, DecCoins.amount_Add]
    ring
  · -- only the validator's own records change
    simp only [outstandingOf_SetValidatorOutstandingRewards,
      outstandingOf_SetValidatorCurrentRewards, outstandingOf_SetValidatorAccumulatedCommission,
      currentOf_SetValidatorOutstandingRewards, currentOf_SetValidatorCurrentRewards,
      currentOf_SetValidatorAccumulatedCommission, commissionOf_SetValidatorOutstandingRewards,
      commissionOf_SetValidatorCurrentRewards, commissionOf_SetValidatorAccumulatedCommission]
    split_ifs with hv
    · subst hv
      rw [DecCoins.amount_Add, DecCoins.amount_Add, DecCoins.amount_Add, DecCoins.amount_of_Sub_eq_ok hsub,
        hcurOf, houtOf, commissionOf]
      ring
    · ring

/-- `AllocateTokensToValidator` of a canonical set, at a rate between zero and one, to a
validator with records returns. -/
theorem AllocateTokensToValidator_eq_ok {s : State} {val : ValidatorI} {tokens : DecCoins}
    (htokens : DecCoins.Canonical tokens) (hrate0 : 0 ≤ val.commission.i)
    (hrate1 : val.commission.i ≤ Dec.precisionReuse)
    (hcur : (s.validatorCurrentRewards.get? val.operator).isSome)
    (hout : (s.validatorOutstandingRewards.get? val.operator).isSome) :
    ∃ s', s.AllocateTokensToValidator (some val) tokens = .ok s' ∧ Allocated s s' tokens.amount := by
  obtain ⟨cur, hcurv⟩ := Option.isSome_iff_exists.1 hcur
  obtain ⟨out, houtv⟩ := Option.isSome_iff_exists.1 hout
  obtain ⟨hcomm, hle⟩ := DecCoins.MulDec_spec htokens hrate0 hrate1
  obtain ⟨shared, hsub, -, -⟩ := DecCoins.Sub_eq_ok_of_le htokens hcomm hle
  let s₁ := s.SetValidatorAccumulatedCommission val.operator
    (DecCoins.Add (s.GetValidatorAccumulatedCommission val.operator) (tokens.MulDec val.commission))
  let s₂ := s₁.SetValidatorCurrentRewards val.operator { cur with rewards := DecCoins.Add cur.rewards shared }
  have h : s.AllocateTokensToValidator (some val) tokens =
      .ok (s₂.SetValidatorOutstandingRewards val.operator (DecCoins.Add out tokens)) := by
    unfold AllocateTokensToValidator
    dsimp only
    rw [hsub, Except.ok_bind, (GetValidatorCurrentRewards_eq_ok s₁ _).2 hcurv, Except.ok_bind,
      (GetValidatorOutstandingRewards_eq_ok s₂ _).2 houtv, Except.ok_bind]
    rfl
  exact ⟨_, h, AllocateTokensToValidator_allocated h⟩

/-- A vote that returns moved what it took off what remains. -/
theorem allocateVote_allocated {sk : StakingKeeper} {feesCollected : DecCoins} {voteMultiplier : Dec}
    {totalPreviousPower : ℤ} {acc acc' : State × DecCoins} {v : VoteInfo}
    (h : allocateVote sk feesCollected voteMultiplier totalPreviousPower acc v = .ok acc') :
    Allocated acc.1 acc'.1 fun d => acc.2.amount d - acc'.2.amount d := by
  unfold allocateVote at h
  dsimp only at h
  obtain ⟨q, -, h⟩ := Except.bind_eq_ok.mp h
  obtain ⟨s', hs', h⟩ := Except.bind_eq_ok.mp h
  obtain ⟨rem', hrem', h⟩ := Except.bind_eq_ok.mp h
  cases h
  refine (AllocateTokensToValidator_allocated hs').of_moved_eq (funext fun d => ?_)
  rw [DecCoins.amount_of_Sub_eq_ok hrem' d]
  ring

/-- The loop over the votes, when it returns, moved what it took off what remains. -/
theorem votes_allocated {sk : StakingKeeper} {feesCollected : DecCoins} {voteMultiplier : Dec}
    {totalPreviousPower : ℤ} {votes : List VoteInfo} {acc acc' : State × DecCoins}
    (h : votes.foldlM (allocateVote sk feesCollected voteMultiplier totalPreviousPower) acc = .ok acc') :
    Allocated acc.1 acc'.1 fun d => acc.2.amount d - acc'.2.amount d := by
  refine Except.foldlM_invariant (fun b => Allocated acc.1 b.1 fun d => acc.2.amount d - b.2.amount d)
    votes (fun b v b' _ hb hstep => ?_) acc acc' ?_ h
  · refine (hb.trans (allocateVote_allocated hstep)).of_moved_eq (funext fun d => ?_)
    rw [Pi.add_apply]
    ring
  · exact (Allocated.refl _).of_moved_eq (funext fun d => (sub_self _).symm)

/-- The proposer's part, when it returns, moved what it took off the fees. -/
theorem payProposer_allocated {sk : StakingKeeper} {s : State} {feesCollected proposerReward : DecCoins}
    {previousProposer : ConsAddress} {acc : State × DecCoins}
    (h : payProposer sk s feesCollected proposerReward previousProposer = .ok acc) :
    Allocated s acc.1 fun d => feesCollected.amount d - acc.2.amount d := by
  unfold payProposer at h
  cases hprop : sk.ValidatorByConsAddr previousProposer with
  | none =>
    rw [hprop] at h
    cases h
    exact (Allocated.refl s).of_moved_eq (funext fun d => (sub_self _).symm)
  | some val =>
    rw [hprop] at h
    obtain ⟨s₁, halloc, h⟩ := Except.bind_eq_ok.mp h
    obtain ⟨rem, hsub, h⟩ := Except.bind_eq_ok.mp h
    cases h
    refine (AllocateTokensToValidator_allocated halloc).of_moved_eq (funext fun d => ?_)
    rw [DecCoins.amount_of_Sub_eq_ok hsub d]
    ring

/-! ### The loop over the votes -/

section Votes

variable (sk : StakingKeeper) (feesCollected : DecCoins) (voteMultiplier : Dec)
  (totalPreviousPower : ℤ) (s₀ : State)

/-- What the loop over the votes keeps, with the votes `todo` still to come: their validators are
known and their powers not negative, what remains is canonical and covers the rewards of the votes
to come, and what was allocated since `s₀` is what the fees lost. -/
structure VoteInv (todo : List VoteInfo) (acc : State × DecCoins) : Prop where
  todo_known : ∀ v ∈ todo, 0 ≤ v.validator.power ∧ (sk.ValidatorByConsAddr v.validator.address).isSome
  remaining : DecCoins.Canonical acc.2
  budget : ∀ d, (feesCollected.MulDecTruncate voteMultiplier).amount d *
    (todo.map fun v => v.validator.power).sum ≤ acc.2.amount d * totalPreviousPower
  allocated : Allocated s₀ acc.1 fun d => feesCollected.amount d - acc.2.amount d

/-- Powers that are not negative have a sum that is not negative. -/
theorem powers_sum_nonneg {votes : List VoteInfo} (h : ∀ v ∈ votes, 0 ≤ v.validator.power) :
    0 ≤ (votes.map fun v => v.validator.power).sum :=
  List.sum_nonneg fun x hx => by
    obtain ⟨w, hw, rfl⟩ := List.mem_map.1 hx
    exact h w hw

/-- Validators the staking keeper knows have a rate between zero and one and records in `s`. -/
def Ready (s : State) : Prop :=
  ∀ a val, sk.ValidatorByConsAddr a = some val →
    0 ≤ val.commission.i ∧ val.commission.i ≤ Dec.precisionReuse ∧
      (s.validatorCurrentRewards.get? val.operator).isSome ∧
      (s.validatorOutstandingRewards.get? val.operator).isSome

/-- Keeping which validators have records keeps them ready. -/
theorem Ready.of_records {s s' : State} (hs : Ready sk s)
    (hcur : ∀ v, (s'.validatorCurrentRewards.get? v).isSome = (s.validatorCurrentRewards.get? v).isSome)
    (hout : ∀ v, (s'.validatorOutstandingRewards.get? v).isSome =
      (s.validatorOutstandingRewards.get? v).isSome) :
    Ready sk s' := by
  intro a val hval
  obtain ⟨h0, h1, hc, ho⟩ := hs a val hval
  exact ⟨h0, h1, (hcur _).trans hc, (hout _).trans ho⟩

/-- Allocations keep the validators' records. -/
theorem Ready.of_allocated {s s' : State} {m : String → ℤ} (hs : Ready sk s) (h : Allocated s s' m) :
    Ready sk s' :=
  hs.of_records sk h.current_isSome h.outstanding_isSome

/-- A vote's reward is at most its power's part of what the votes share. -/
theorem reward_mul_le {V : DecCoins} (hV : DecCoins.Canonical V) {p : ℤ} (hp : 0 ≤ p)
    (ht : 0 < totalPreviousPower) {q : Dec}
    (hq : (Dec.ofInt p).quoTruncate (Dec.ofInt totalPreviousPower) = .ok q) :
    DecCoins.Canonical (V.MulDecTruncate q) ∧
      ∀ d, (V.MulDecTruncate q).amount d * totalPreviousPower ≤ V.amount d * p := by
  obtain ⟨hq0, hqle⟩ := Dec.quoTruncate_ofInt_bounds hp ht hq
  obtain ⟨hR, hRamt⟩ := DecCoins.MulDecTruncate_spec hV hq0
  refine ⟨hR, fun d => ?_⟩
  have hP := Dec.precisionReuse_pos
  have key : (V.MulDecTruncate q).amount d * totalPreviousPower * Dec.precisionReuse ≤
      V.amount d * p * Dec.precisionReuse := by
    calc (V.MulDecTruncate q).amount d * totalPreviousPower * Dec.precisionReuse
        = ((V.MulDecTruncate q).amount d * Dec.precisionReuse) * totalPreviousPower := by ring
      _ ≤ (V.amount d * q.i) * totalPreviousPower := mul_le_mul_of_nonneg_right (hRamt d).2 ht.le
      _ = V.amount d * (q.i * totalPreviousPower) := by ring
      _ ≤ V.amount d * (p * Dec.precisionReuse) := mul_le_mul_of_nonneg_left hqle (hV.amount_nonneg d)
      _ = V.amount d * p * Dec.precisionReuse := by ring
  exact le_of_mul_le_mul_right key hP

/-- One vote: its validator gets its reward, which what remains covers. -/
theorem allocateVote_inv (hF : DecCoins.Canonical feesCollected) (hvm : 0 ≤ voteMultiplier.i)
    (ht : 0 < totalPreviousPower) (hready : Ready sk s₀) {v : VoteInfo} {todo : List VoteInfo}
    {acc : State × DecCoins}
    (h : VoteInv sk feesCollected voteMultiplier totalPreviousPower s₀ (v :: todo) acc) :
    ∃ acc', allocateVote sk feesCollected voteMultiplier totalPreviousPower acc v = .ok acc' ∧
      VoteInv sk feesCollected voteMultiplier totalPreviousPower s₀ todo acc' := by
  obtain ⟨hp, hknown⟩ := h.todo_known v List.mem_cons_self
  obtain ⟨val, hval⟩ := Option.isSome_iff_exists.1 hknown
  obtain ⟨hr0, hr1, hcur, hout⟩ := hready.of_allocated sk h.allocated _ _ hval
  obtain ⟨q, hq⟩ : ∃ q, (Dec.ofInt v.validator.power).quoTruncate (Dec.ofInt totalPreviousPower) = .ok q :=
    ⟨_, by rw [Dec.quoTruncate, if_neg (Dec.ofInt_i_pos ht).ne']; rfl⟩
  obtain ⟨hV, hVamt⟩ := DecCoins.MulDecTruncate_spec hF hvm
  obtain ⟨hR, hRle⟩ := reward_mul_le totalPreviousPower hV hp ht hq
  -- the reward is covered: the votes to come have powers that are not negative
  have hrest : 0 ≤ (todo.map fun v => v.validator.power).sum :=
    powers_sum_nonneg fun w hw => (h.todo_known w (List.mem_cons_of_mem v hw)).1
  have hbudget : ∀ d, (feesCollected.MulDecTruncate voteMultiplier).amount d *
      (v.validator.power + (todo.map fun v => v.validator.power).sum) ≤ acc.2.amount d * totalPreviousPower := by
    intro d
    simpa only [List.map_cons, List.sum_cons] using h.budget d
  have hcovered : ∀ d, ((feesCollected.MulDecTruncate voteMultiplier).MulDecTruncate q).amount d ≤
      acc.2.amount d := by
    intro d
    have hVd := (hVamt d).1
    have hmul : ((feesCollected.MulDecTruncate voteMultiplier).MulDecTruncate q).amount d * totalPreviousPower ≤
        acc.2.amount d * totalPreviousPower := by
      nlinarith [hRle d, hbudget d]
    exact le_of_mul_le_mul_right hmul ht
  obtain ⟨rem', hsub, hrem', hremamt⟩ := DecCoins.Sub_eq_ok_of_le h.remaining hR hcovered
  obtain ⟨s', halloc, hstep⟩ := AllocateTokensToValidator_eq_ok hR hr0 hr1 hcur hout
  refine ⟨(s', rem'), ?_, ?_⟩
  · unfold allocateVote
    dsimp only
    rw [hq, Except.ok_bind, hval, halloc, Except.ok_bind, hsub, Except.ok_bind]
    rfl
  · refine ⟨fun w hw => h.todo_known w (List.mem_cons_of_mem v hw), hrem', fun d => ?_, ?_⟩
    · rw [hremamt d]
      nlinarith [hRle d, hbudget d]
    · refine (h.allocated.trans hstep).of_moved_eq (funext fun d => ?_)
      rw [Pi.add_apply, hremamt d]
      ring

end Votes

/-- The proposer's part leaves what the votes share covered. -/
theorem payProposer_inv {sk : StakingKeeper} {s : State} {feesCollected : DecCoins}
    {proposerMultiplier voteMultiplier : Dec} {totalPreviousPower : ℤ} {previousVotes : List VoteInfo}
    (previousProposer : ConsAddress) (hF : DecCoins.Canonical feesCollected)
    (hpm : 0 ≤ proposerMultiplier.i) (hvm : 0 ≤ voteMultiplier.i) (ht : 0 ≤ totalPreviousPower)
    (hready : Ready sk s)
    (hvotes : ∀ v ∈ previousVotes, 0 ≤ v.validator.power ∧ (sk.ValidatorByConsAddr v.validator.address).isSome)
    (htotal : (previousVotes.map fun v => v.validator.power).sum = totalPreviousPower)
    (hcover : ∀ d, (feesCollected.MulDecTruncate voteMultiplier).amount d +
      (feesCollected.MulDecTruncate proposerMultiplier).amount d ≤ feesCollected.amount d) :
    ∃ acc, payProposer sk s feesCollected (feesCollected.MulDecTruncate proposerMultiplier)
      previousProposer = .ok acc ∧
      VoteInv sk feesCollected voteMultiplier totalPreviousPower s previousVotes acc := by
  obtain ⟨hPR, hPRamt⟩ := DecCoins.MulDecTruncate_spec hF hpm
  -- what remains covers the votes' share as soon as it covers one share of all the power
  have hinv : ∀ {acc : State × DecCoins}, DecCoins.Canonical acc.2 →
      (∀ d, (feesCollected.MulDecTruncate voteMultiplier).amount d ≤ acc.2.amount d) →
      Allocated s acc.1 (fun d => feesCollected.amount d - acc.2.amount d) →
      VoteInv sk feesCollected voteMultiplier totalPreviousPower s previousVotes acc := by
    intro acc hrem hle halloc
    refine ⟨hvotes, hrem, fun d => ?_, halloc⟩
    rw [htotal]
    exact mul_le_mul_of_nonneg_right (hle d) ht
  unfold payProposer
  cases hprop : sk.ValidatorByConsAddr previousProposer with
  | none =>
    refine ⟨(s, feesCollected), rfl, hinv hF (fun d => ?_) ?_⟩
    · linarith [hcover d, (hPRamt d).1]
    · exact (Allocated.refl s).of_moved_eq (funext fun d => (sub_self _).symm)
  | some val =>
    obtain ⟨h0, h1, hcur, hout⟩ := hready _ _ hprop
    obtain ⟨s₁, halloc, hstep⟩ := AllocateTokensToValidator_eq_ok hPR h0 h1 hcur hout
    obtain ⟨rem₁, hsub, hrem₁, hremamt⟩ :=
      DecCoins.Sub_eq_ok_of_le hF hPR fun d => by linarith [hcover d, (DecCoins.MulDecTruncate_spec hF hvm).2 d]
    refine ⟨(s₁, rem₁), ?_, hinv hrem₁ (fun d => ?_) ?_⟩
    · dsimp only
      rw [halloc, Except.ok_bind, hsub, Except.ok_bind]
      rfl
    · rw [hremamt d]
      linarith [hcover d]
    · refine hstep.of_moved_eq (funext fun d => ?_)
      rw [hremamt d]
      ring

@[simp] theorem params_ClearCollectedFees (s : State) : s.ClearCollectedFees.params = s.params := rfl

/-- The proposer's multiplier is between its base and its base and bonus. -/
theorem proposerMultiplier_bounds {base bonus frac : Dec} (hbase : 0 ≤ base.i) (hbonus : 0 ≤ bonus.i)
    (hf0 : 0 ≤ frac.i) (hf1 : frac.i ≤ Dec.precisionReuse) :
    0 ≤ (base + bonus.mulTruncate frac).i ∧ (base + bonus.mulTruncate frac).i ≤ base.i + bonus.i := by
  have hP := Dec.precisionReuse_pos
  have hlo := Dec.mulTruncate_i_nonneg hbonus hf0
  have hhi := Dec.mulTruncate_i_mul_le hbonus hf0
  have hprod : bonus.i * frac.i ≤ bonus.i * Dec.precisionReuse := mul_le_mul_of_nonneg_left hf1 hbonus
  have hle : (bonus.mulTruncate frac).i ≤ bonus.i :=
    le_of_mul_le_mul_right (le_trans hhi hprod) hP
  rw [Dec.add_i]
  exact ⟨by linarith, by linarith⟩

section Pool

variable (s : State) (feePool : FeePool) (val : ValAddress) (d : String)

@[simp] theorem communityOf_SetFeePool : (s.SetFeePool feePool).communityOf d = feePool.communityPool.amount d :=
  rfl

@[simp] theorem outstandingTotal_SetFeePool : (s.SetFeePool feePool).outstandingTotal d = s.outstandingTotal d :=
  rfl

@[simp] theorem outstandingOf_SetFeePool : (s.SetFeePool feePool).outstandingOf val d = s.outstandingOf val d :=
  rfl

@[simp] theorem currentOf_SetFeePool : (s.SetFeePool feePool).currentOf val d = s.currentOf val d := rfl

@[simp] theorem commissionOf_SetFeePool : (s.SetFeePool feePool).commissionOf val d = s.commissionOf val d :=
  rfl

@[simp] theorem outstandingTotal_ClearCollectedFees : s.ClearCollectedFees.outstandingTotal d = s.outstandingTotal d :=
  rfl

@[simp] theorem outstandingOf_ClearCollectedFees :
    s.ClearCollectedFees.outstandingOf val d = s.outstandingOf val d := rfl

@[simp] theorem currentOf_ClearCollectedFees : s.ClearCollectedFees.currentOf val d = s.currentOf val d := rfl

@[simp] theorem commissionOf_ClearCollectedFees :
    s.ClearCollectedFees.commissionOf val d = s.commissionOf val d := rfl

end Pool

/-! ### What an allocation of the fees that returns did -/

/-- From `s` to `s'`, the fees collected in `s` were allocated: cleared, and all of them, as
decimals, now in the community pool or the outstanding rewards, each validator's commission
and current rewards growing by what its outstanding rewards grew.  The fee pool, the
parameters and the validators' records are kept. -/
structure FeesAllocated (s s' : State) : Prop where
  collectedFees : s'.collectedFees = []
  feePool : s'.feePool.isSome
  params : s'.params = s.params
  current_isSome : ∀ v, (s'.validatorCurrentRewards.get? v).isSome =
    (s.validatorCurrentRewards.get? v).isSome
  outstanding_isSome : ∀ v, (s'.validatorOutstandingRewards.get? v).isSome =
    (s.validatorOutstandingRewards.get? v).isSome
  conserves : ∀ d, s'.communityOf d + s'.outstandingTotal d =
    s.communityOf d + s.outstandingTotal d + Coins.amount s.collectedFees d * Dec.precisionReuse
  balanced : ∀ v d, s'.commissionOf v d - s.commissionOf v d + (s'.currentOf v d - s.currentOf v d) =
    s'.outstandingOf v d - s.outstandingOf v d

/-- The end of `AllocateTokens`: what remains of the fees joins the community pool. -/
theorem FeesAllocated.of_allocated {s s₂ : State} {feePool : FeePool} {rem : DecCoins}
    (hfp : s.feePool = some feePool)
    (h : Allocated s.ClearCollectedFees s₂ fun d =>
      Coins.amount s.collectedFees d * Dec.precisionReuse - rem.amount d) :
    FeesAllocated s (s₂.SetFeePool { feePool with communityPool := DecCoins.Add feePool.communityPool rem }) where
  collectedFees := h.collectedFees
  feePool := rfl
  params := h.params
  current_isSome := h.current_isSome
  outstanding_isSome := h.outstanding_isSome
  conserves d := by
    have hout := h.outstandingTotal d
    have hcommunity : s.communityOf d = feePool.communityPool.amount d := by
      rw [communityOf, hfp]
      rfl
    rw [outstandingTotal_ClearCollectedFees] at hout
    rw [communityOf_SetFeePool, outstandingTotal_SetFeePool, DecCoins.amount_Add, hout, hcommunity]
    ring
  balanced v d := by
    have hbal := h.balanced v d
    simp only [outstandingOf_ClearCollectedFees, currentOf_ClearCollectedFees,
      commissionOf_ClearCollectedFees] at hbal
    simpa only [outstandingOf_SetFeePool, currentOf_SetFeePool, commissionOf_SetFeePool] using hbal

/-- A state the allocation runs from: canonical collected fees in lower case, a stored fee
pool, parameters that are not negative and sum to at most one, and every validator the staking
keeper knows ready. -/
structure WellFormed (sk : StakingKeeper) (s : State) : Prop where
  fees : Coins.Canonical s.collectedFees
  lower : ∀ c ∈ s.collectedFees, c.denom.toLower = c.denom
  feePool : s.feePool.isSome
  params : 0 ≤ s.params.baseProposerReward ∧ 0 ≤ s.params.bonusProposerReward ∧
    0 ≤ s.params.communityTax ∧
    s.params.baseProposerReward + s.params.bonusProposerReward + s.params.communityTax ≤ Dec.one
  ready : Ready sk s

/-- From a well-formed state, with known voters of powers that are not negative and sum to the
total, and a signed power between zero and the total, `AllocateTokens` returns: the truncated
shares never take more than what remains, and every record it reads is stored. -/
theorem AllocateTokens_returns {sk : StakingKeeper} {s : State}
    {sumPreviousPrecommitPower totalPreviousPower : ℤ} {previousVotes : List VoteInfo}
    (previousProposer : ConsAddress) (hwf : WellFormed sk s)
    (hvotes : ∀ v ∈ previousVotes,
      0 ≤ v.validator.power ∧ (sk.ValidatorByConsAddr v.validator.address).isSome)
    (htotal : (previousVotes.map fun v => v.validator.power).sum = totalPreviousPower)
    (hsum : 0 ≤ sumPreviousPrecommitPower ∧ sumPreviousPrecommitPower ≤ totalPreviousPower) :
    ∃ s', AllocateTokens sk s sumPreviousPrecommitPower totalPreviousPower previousProposer
      previousVotes = .ok s' := by
  obtain ⟨hfees, hlower, hpool, ⟨hbase, hbonus, htax, hsum1⟩, hready⟩ := hwf
  obtain ⟨feePool, hfp⟩ := Option.isSome_iff_exists.1 hpool
  set F : DecCoins := s.collectedFees.map fun c => ⟨c.denom, Dec.ofInt c.amount⟩ with hFdef
  have hF : F.Canonical := DecCoins.canonical_map_ofInt hfees
  have hnew : NewDecCoins s.collectedFees = .ok F :=
    DecCoins.NewDecCoins_eq_ok fun c hc => ⟨(hfees.pos c hc).le, hlower c hc⟩
  have hpool₀ : s.ClearCollectedFees.GetFeePool = .ok feePool := (GetFeePool_eq_ok _).2 hfp
  by_cases ht0 : totalPreviousPower = 0
  · -- no power: the fees go to the community pool
    refine ⟨s.ClearCollectedFees.SetFeePool
      { feePool with communityPool := DecCoins.Add feePool.communityPool F }, ?_⟩
    unfold AllocateTokens
    rw [hnew, Except.ok_bind]
    dsimp only
    rw [hpool₀, Except.ok_bind, if_pos ht0]
    rfl
  · have ht : 0 < totalPreviousPower := by
      have h0 : 0 ≤ totalPreviousPower := htotal ▸ powers_sum_nonneg fun w hw => (hvotes w hw).1
      exact lt_of_le_of_ne h0 (Ne.symm ht0)
    obtain ⟨frac, hfrac⟩ :
        ∃ q, (Dec.ofInt sumPreviousPrecommitPower).quo (Dec.ofInt totalPreviousPower) = .ok q :=
      ⟨_, Dec.quo_of_ne (Dec.ofInt_i_pos ht).ne'⟩
    obtain ⟨hf0, hf1⟩ := Dec.quo_ofInt_bounds hsum.1 hsum.2 ht hfrac
    obtain ⟨hpm0, hpm1⟩ := proposerMultiplier_bounds hbase hbonus hf0 hf1
    set pm := s.params.baseProposerReward + s.params.bonusProposerReward.mulTruncate frac with hpmdef
    set vm := Dec.one - pm - s.params.communityTax with hvmdef
    -- the votes share what the proposer and the community tax leave, at most one
    have hshares : 0 ≤ vm.i ∧ vm.i + pm.i ≤ Dec.precisionReuse := by
      have hsum1' : s.params.baseProposerReward.i + s.params.bonusProposerReward.i +
          s.params.communityTax.i ≤ Dec.precisionReuse := hsum1
      have htax' : 0 ≤ s.params.communityTax.i := htax
      have hvm_i : vm.i = Dec.precisionReuse - pm.i - s.params.communityTax.i := rfl
      constructor <;> linarith
    have hcover : ∀ d, (F.MulDecTruncate vm).amount d + (F.MulDecTruncate pm).amount d ≤ F.amount d := by
      intro d
      obtain ⟨-, hV⟩ := (DecCoins.MulDecTruncate_spec hF hshares.1).2 d
      obtain ⟨-, hPR⟩ := (DecCoins.MulDecTruncate_spec hF hpm0).2 d
      have hmul := mul_le_mul_of_nonneg_left hshares.2 (hF.amount_nonneg d)
      have key : ((F.MulDecTruncate vm).amount d + (F.MulDecTruncate pm).amount d) * Dec.precisionReuse ≤
          F.amount d * Dec.precisionReuse := by
        linarith
      exact le_of_mul_le_mul_right key Dec.precisionReuse_pos
    have hready₀ : Ready sk s.ClearCollectedFees := hready
    obtain ⟨⟨s₁, rem₁⟩, hpay, hinv₁⟩ :=
      payProposer_inv previousProposer hF hpm0 hshares.1 ht.le hready₀ hvotes htotal hcover
    obtain ⟨⟨s₂, rem₂⟩, hloop, -⟩ := Except.foldlM_ok (VoteInv sk F vm totalPreviousPower s.ClearCollectedFees)
      (fun _ _ _ h => allocateVote_inv sk F vm totalPreviousPower _ hF hshares.1 ht hready₀ h) previousVotes
      (s₁, rem₁) hinv₁
    refine ⟨s₂.SetFeePool { feePool with communityPool := DecCoins.Add feePool.communityPool rem₂ }, ?_⟩
    unfold AllocateTokens
    rw [hnew, Except.ok_bind]
    dsimp only
    rw [hpool₀, Except.ok_bind, if_neg ht0, hfrac, Except.ok_bind]
    dsimp only [params_ClearCollectedFees]
    rw [hpay, Except.ok_bind]
    dsimp only
    -- the vote multiplier reads the parameters after the proposer's payment, which keeps them
    rw [hinv₁.allocated.params, params_ClearCollectedFees, hloop, Except.ok_bind]
    rfl

/-- Every allocation of the fees that returns allocates them, whatever the votes, the powers
and the parameters: what the proposer and the votes take off the fees is what the
outstanding rewards gain, and the community pool gets the rest. -/
theorem AllocateTokens_allocated {sk : StakingKeeper} {s s' : State}
    {sumPreviousPrecommitPower totalPreviousPower : ℤ} {previousProposer : ConsAddress}
    {previousVotes : List VoteInfo}
    (h : AllocateTokens sk s sumPreviousPrecommitPower totalPreviousPower previousProposer previousVotes =
      .ok s') :
    FeesAllocated s s' := by
  unfold AllocateTokens at h
  obtain ⟨F, hF, h⟩ := Except.bind_eq_ok.mp h
  dsimp only at h
  obtain ⟨feePool, hpool, h⟩ := Except.bind_eq_ok.mp h
  have hfp : s.feePool = some feePool := (GetFeePool_eq_ok _).1 hpool
  have hFamt : ∀ d, F.amount d = Coins.amount s.collectedFees d * Dec.precisionReuse := by
    intro d
    rw [DecCoins.eq_map_of_NewDecCoins_eq_ok hF, DecCoins.amount_map_ofInt]
  split_ifs at h with ht0
  · cases h
    refine FeesAllocated.of_allocated hfp ((Allocated.refl _).of_moved_eq (funext fun d => ?_))
    rw [hFamt, Pi.zero_apply, sub_self]
  · obtain ⟨frac, -, h⟩ := Except.bind_eq_ok.mp h
    obtain ⟨⟨s₁, rem₁⟩, hpay, h⟩ := Except.bind_eq_ok.mp h
    dsimp only at h
    obtain ⟨⟨s₂, rem₂⟩, hloop, h⟩ := Except.bind_eq_ok.mp h
    cases h
    -- the proposer's part and then the votes', each taken off what remains
    refine FeesAllocated.of_allocated hfp
      (((payProposer_allocated hpay).trans (votes_allocated hloop)).of_moved_eq (funext fun d => ?_))
    rw [Pi.add_apply, hFamt]
    ring

/-! ### The allocation -/

end State

end CosmosSdk.Distribution
