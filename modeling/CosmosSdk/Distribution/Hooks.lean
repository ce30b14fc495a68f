import CosmosSdk.Distribution.Holders
import CosmosSdk.Distribution.Supply
import CosmosSdk.Staking.LedgerSteps

/-!
# The staking hooks and the registered reference-count invariant

The staking keeper calls the distribution hooks (`keeper/hooks.go`) around its own writes:
`AfterValidatorCreated` once a new validator is stored (`handleMsgCreateValidator`),
`BeforeDelegationCreated` or `BeforeDelegationSharesModified` before a delegation's shares change
and `AfterDelegationModified` once they are stored (`Delegate`, `unbond`; not after the delegation
is removed), `BeforeValidatorSlashed` before a validator's tokens are burnt (`Slash`), and
`AfterValidatorRemoved` once the validator record is deleted (`RemoveValidator`).  A hook that
panics reverts its transaction, so that only the calls that return are steps.

* `State.SamePeriods`: the allocation of a block changes the rewards of the current periods,
  never the periods (`BeginBlocker_samePeriods`);
* `Linked`: the staking store files each validator and delegation under its own addresses, the
  validators with current rewards are the staking store's, and the starting infos are its
  delegations';
* `Step`: one hook call with the staking writes around it, or one of the distribution module's
  own operations, with the fees it takes in; a staking write is given by what it leaves in the
  two stores the hooks read, the validators and the delegations, and may change the others at
  will;
* `Sound`, `Step.sound`, `sound_of_reachable`: every step keeps `Ledger`, `Linked`, `Held` and
  `Bounded`, so every state reachable from `genesis` has them;
* `ReferenceCountInvariant_of_reachable`: the invariant the module registers holds on every
  reachable state;
* `historicalRewards_held_of_reachable`: the records a validator and a delegation read are
  stored;
* `referenceCount_le_two_of_reachable`: no record holds more than two references;
* `Filed`, `Step.supply`, `supply_of_reachable`: every step changes the module's holdings with
  the accounts' balances by exactly the fees it takes in.

`RemoveValidator` is called by the staking keeper once the validator's delegator shares are zero;
the step asks that no delegation to it is left, which the distribution records need: a starting
info left behind would keep a reference to a deleted record.
-/

namespace CosmosSdk.Distribution

namespace State

/-! ### The allocation keeps the periods -/

/-- `s'` has current rewards of the same periods as `s`, validator by validator. -/
def SamePeriods (s s' : State) : Prop :=
  ∀ v, (s'.validatorCurrentRewards.get? v).map (·.period) =
    (s.validatorCurrentRewards.get? v).map (·.period)

theorem SamePeriods.refl (s : State) : SamePeriods s s := fun _ => rfl

theorem SamePeriods.trans {s₁ s₂ s₃ : State} (h : SamePeriods s₁ s₂) (h' : SamePeriods s₂ s₃) :
    SamePeriods s₁ s₃ :=
  fun v => (h' v).trans (h v)

variable {sk : StakingKeeper} {s s' : State}

/-- An allocation to a validator adds to the rewards of its current period. -/
theorem AllocateTokensToValidator_samePeriods {val : Option ValidatorI} {tokens : DecCoins}
    (h : s.AllocateTokensToValidator val tokens = .ok s') : SamePeriods s s' := by
  cases val with
  | none => cases h
  | some val =>
  unfold AllocateTokensToValidator at h
  dsimp only at h
  obtain ⟨shared, -, h⟩ := Except.bind_eq_ok.mp h
  obtain ⟨cur, hcur, h⟩ := Except.bind_eq_ok.mp h
  obtain ⟨out, -, h⟩ := Except.bind_eq_ok.mp h
  cases h
  have hcurv : s.validatorCurrentRewards.get? val.operator = some cur :=
    (GetValidatorCurrentRewards_eq_ok _ _).1 hcur
  intro v
  simp only [SetValidatorOutstandingRewards, SetValidatorCurrentRewards,
    SetValidatorAccumulatedCommission, SortedMap.get?_insert]
  split_ifs with hv
  · subst hv
    rw [hcurv]
    rfl
  · rfl

theorem payProposer_samePeriods {feesCollected proposerReward : DecCoins}
    {previousProposer : ConsAddress} {acc : State × DecCoins}
    (h : payProposer sk s feesCollected proposerReward previousProposer = .ok acc) :
    SamePeriods s acc.1 := by
  unfold payProposer at h
  split at h
  · obtain ⟨s₁, halloc, h⟩ := Except.bind_eq_ok.mp h
    obtain ⟨rem, -, h⟩ := Except.bind_eq_ok.mp h
    cases h
    exact AllocateTokensToValidator_samePeriods halloc
  · cases h
    exact SamePeriods.refl s

theorem votes_samePeriods {feesCollected : DecCoins} {voteMultiplier : Dec} {totalPreviousPower : ℤ}
    {votes : List VoteInfo} {acc acc' : State × DecCoins}
    (h : votes.foldlM (allocateVote sk feesCollected voteMultiplier totalPreviousPower) acc = .ok acc') :
    SamePeriods acc.1 acc'.1 := by
  refine Except.foldlM_invariant (fun b => SamePeriods acc.1 b.1) votes
    (fun b v b' _ hb hstep => hb.trans ?_) acc acc' (SamePeriods.refl _) h
  -- one vote is one allocation to its validator
  unfold allocateVote at hstep
  dsimp only at hstep
  obtain ⟨q, -, hstep⟩ := Except.bind_eq_ok.mp hstep
  obtain ⟨s₁, hs₁, hstep⟩ := Except.bind_eq_ok.mp hstep
  obtain ⟨rem, -, hstep⟩ := Except.bind_eq_ok.mp hstep
  cases hstep
  exact AllocateTokensToValidator_samePeriods hs₁

theorem AllocateTokens_samePeriods {sumPreviousPrecommitPower totalPreviousPower : ℤ}
    {previousProposer : ConsAddress} {previousVotes : List VoteInfo}
    (h : AllocateTokens sk s sumPreviousPrecommitPower totalPreviousPower previousProposer previousVotes =
      .ok s') :
    SamePeriods s s' := by
  unfold AllocateTokens at h
  obtain ⟨F, -, h⟩ := Except.bind_eq_ok.mp h
  dsimp only at h
  obtain ⟨feePool, -, h⟩ := Except.bind_eq_ok.mp h
  split_ifs at h
  · cases h
    exact SamePeriods.refl s
  · obtain ⟨frac, -, h⟩ := Except.bind_eq_ok.mp h
    obtain ⟨⟨s₁, rem₁⟩, hpay, h⟩ := Except.bind_eq_ok.mp h
    dsimp only at h
    obtain ⟨⟨s₂, rem₂⟩, hloop, h⟩ := Except.bind_eq_ok.mp h
    cases h
    -- clearing the fees and setting the fee pool keep the current rewards
    exact (payProposer_samePeriods (s := s.ClearCollectedFees) hpay).trans (votes_samePeriods hloop)

/-- A block's beginning, allocating or not, keeps the periods of the current rewards. -/
theorem BeginBlocker_samePeriods {blockHeight : ℤ} {proposerAddress : ConsAddress}
    {votes : List VoteInfo} (h : BeginBlocker sk s blockHeight proposerAddress votes = .ok s') :
    SamePeriods s s' := by
  unfold BeginBlocker at h
  dsimp only at h
  split_ifs at h
  · obtain ⟨previousProposer, -, h⟩ := Except.bind_eq_ok.mp h
    obtain ⟨s₁, h₁, h⟩ := Except.bind_eq_ok.mp h
    cases h
    -- recording the proposer keeps the current rewards
    exact (AllocateTokens_samePeriods h₁).trans fun _ => rfl
  · obtain ⟨s₁, h₁, h⟩ := Except.bind_eq_ok.mp h
    cases h₁
    cases h
    exact fun _ => rfl

end State

namespace Keeper

/-! ### The distribution records and the staking store -/

/-- The records of the keeper follow the staking store: each validator and delegation is filed
under its own addresses, the validators with current rewards are the stored validators, and the
starting infos are of the stored delegations. -/
structure Linked (k : Keeper) (sk : Staking.State) : Prop where
  validators_filed : ∀ v val, sk.GetValidator v = some val → val.operatorAddress = v
  delegations_filed : ∀ d v del, sk.GetDelegation d v = some del →
    del.delegatorAddress = d ∧ del.validatorAddress = v
  current : ∀ v, (k.currentPeriod v).isSome = (sk.GetValidator v).isSome
  starting : ∀ v d, (k.delegatorStartingInfo.get? (toLex (v, d))).isSome = (sk.GetDelegation d v).isSome

variable {k k' : Keeper} {sk sk' : Staking.State}

theorem Linked.of_sameRecords (hK : Linked k sk) (h : SameRecords k k') : Linked k' sk where
  validators_filed := hK.validators_filed
  delegations_filed := hK.delegations_filed
  current v := by rw [h.currentPeriod, hK.current]
  starting v d := by rw [h.starting, hK.starting]

/-- A validator the staking store does not have has no current rewards. -/
theorem Linked.currentPeriod_eq_none (hK : Linked k sk) {v : ValAddress} (h : sk.GetValidator v = none) :
    k.currentPeriod v = none := by
  simpa [h] using hK.current v

/-- A delegation the staking store does not have has no starting info. -/
theorem Linked.startingInfo_eq_none (hK : Linked k sk) {v : ValAddress} {d : AccAddress}
    (h : sk.GetDelegation d v = none) : k.delegatorStartingInfo.get? (toLex (v, d)) = none := by
  simpa [h] using hK.starting v d

/-! ### What the staking writes leave for the hooks -/

section StakingWrites

variable {val : Staking.Validator} {del : Staking.Delegation}

theorem GetValidator_of_insert (hvals : sk'.validators = sk.validators.insert val.operatorAddress val)
    (w : ValAddress) :
    sk'.GetValidator w = if w = val.operatorAddress then some val else sk.GetValidator w := by
  unfold Staking.State.GetValidator
  rw [hvals, SortedMap.get?_insert]
  -- the two tests of the address differ only in their decision procedures
  split_ifs <;> rfl

theorem GetDelegation_of_insert
    (hdels : sk'.delegations =
      sk.delegations.insert (toLex (del.delegatorAddress, del.validatorAddress)) del)
    (e : AccAddress) (w : ValAddress) :
    sk'.GetDelegation e w =
      if e = del.delegatorAddress ∧ w = del.validatorAddress then some del else sk.GetDelegation e w := by
  unfold Staking.State.GetDelegation
  simp only [hdels, SortedMap.get?_insert, toLex_inj, Prod.mk.injEq]

theorem GetDelegation_of_eq (hdels : sk'.delegations = sk.delegations) (e : AccAddress) (w : ValAddress) :
    sk'.GetDelegation e w = sk.GetDelegation e w := by
  unfold Staking.State.GetDelegation
  rw [hdels]

/-- Writing a validator under its own address keeps every validator filed under its own. -/
theorem validators_filed_of_insert
    (hfiled : ∀ v x, sk.GetValidator v = some x → x.operatorAddress = v)
    (hvals : sk'.validators = sk.validators.insert val.operatorAddress val) :
    ∀ v x, sk'.GetValidator v = some x → x.operatorAddress = v := by
  intro v x hx
  rw [GetValidator_of_insert hvals] at hx
  split_ifs at hx with hv
  · cases hx
    exact hv.symm
  · exact hfiled v x hx

/-- Writing a delegation under its own addresses keeps every delegation filed under its own. -/
theorem delegations_filed_of_insert
    (hfiled : ∀ e w x, sk.GetDelegation e w = some x → x.delegatorAddress = e ∧ x.validatorAddress = w)
    (hdels : sk'.delegations =
      sk.delegations.insert (toLex (del.delegatorAddress, del.validatorAddress)) del) :
    ∀ e w x, sk'.GetDelegation e w = some x → x.delegatorAddress = e ∧ x.validatorAddress = w := by
  intro e w x hx
  rw [GetDelegation_of_insert hdels] at hx
  split_ifs at hx with hkey
  · cases hx
    exact ⟨hkey.1.symm, hkey.2.symm⟩
  · exact hfiled e w x hx

theorem GetValidator_of_erase {v : ValAddress} (hvals : sk'.validators = sk.validators.erase v)
    (w : ValAddress) : sk'.GetValidator w = if w = v then none else sk.GetValidator w := by
  unfold Staking.State.GetValidator
  rw [hvals, SortedMap.get?_erase]
  split_ifs <;> rfl

theorem GetDelegation_of_erase {d : AccAddress} {v : ValAddress}
    (hdels : sk'.delegations = sk.delegations.erase (toLex (d, v))) (e : AccAddress) (w : ValAddress) :
    sk'.GetDelegation e w = if e = d ∧ w = v then none else sk.GetDelegation e w := by
  unfold Staking.State.GetDelegation
  simp only [hdels, SortedMap.get?_erase, toLex_inj, Prod.mk.injEq]

/-- Rewriting a stored validator keeps which validators are stored. -/
theorem isSome_GetValidator_of_insert (hold : (sk.GetValidator val.operatorAddress).isSome)
    (hvals : sk'.validators = sk.validators.insert val.operatorAddress val) (w : ValAddress) :
    (sk'.GetValidator w).isSome = (sk.GetValidator w).isSome := by
  unfold Staking.State.GetValidator
  rw [hvals]
  exact SortedMap.isSome_get?_insert _ _ hold w

end StakingWrites

/-! ### The steps -/

/-- The distribution keeper and the staking store, stepped by the staking keeper's calls of the
hooks with its writes around them, and by the distribution module's own operations, each with
the fees it takes in: a fee collection its fee, the others none.  The
validator written in a delegation's step is the delegation's (`AddValidatorTokensAndShares`, or
the jailing of `unbond`; writing the stored one back is no write). -/
inductive Step : Keeper × Staking.State → List Coins → Keeper × Staking.State → Prop
  /-- `handleMsgCreateValidator`: a new validator stored, then `AfterValidatorCreated`. -/
  | createValidator {k k' : Keeper} {sk sk' : Staking.State} (val : Staking.Validator)
      (hnew : sk.GetValidator val.operatorAddress = none)
      (hvals : sk'.validators = sk.validators.insert val.operatorAddress val)
      (hdels : sk'.delegations = sk.delegations)
      (h : k.AfterValidatorCreated sk' val.operatorAddress = .ok k') : Step (k, sk) [] (k', sk')
  /-- `Delegate` without a delegation: `BeforeDelegationCreated`, the validator's new tokens and
  the new delegation stored, then `AfterDelegationModified`. -/
  | createDelegation {k k₁ k' : Keeper} {sk sk' : Staking.State} (height : ℕ)
      (val : Staking.Validator) (del : Staking.Delegation)
      (hnew : sk.GetDelegation del.delegatorAddress del.validatorAddress = none)
      (h₁ : k.BeforeDelegationCreated sk del.validatorAddress = .ok k₁)
      (hval : val.operatorAddress = del.validatorAddress)
      (hvals : sk'.validators = sk.validators.insert val.operatorAddress val)
      (hdels : sk'.delegations =
        sk.delegations.insert (toLex (del.delegatorAddress, del.validatorAddress)) del)
      (h : k₁.AfterDelegationModified sk' height del.delegatorAddress del.validatorAddress = .ok k') :
      Step (k, sk) [] (k', sk')
  /-- `Delegate` to a delegation, or `unbond` of a part of it: `BeforeDelegationSharesModified`,
  the validator and the delegation's new shares stored, then `AfterDelegationModified`. -/
  | modifyDelegation {k k₁ k' : Keeper} {sk sk' : Staking.State} (height : ℕ)
      (val : Staking.Validator) (del : Staking.Delegation)
      (h₁ : k.BeforeDelegationSharesModified sk height del.delegatorAddress del.validatorAddress =
        .ok k₁)
      (hval : val.operatorAddress = del.validatorAddress)
      (hvals : sk'.validators = sk.validators.insert val.operatorAddress val)
      (hdels : sk'.delegations =
        sk.delegations.insert (toLex (del.delegatorAddress, del.validatorAddress)) del)
      (h : k₁.AfterDelegationModified sk' height del.delegatorAddress del.validatorAddress = .ok k') :
      Step (k, sk) [] (k', sk')
  /-- `unbond` of all of a delegation's shares: `BeforeDelegationSharesModified`, the validator
  stored and the delegation removed (`BeforeDelegationRemoved` does nothing here). -/
  | removeDelegation {k k' : Keeper} {sk sk' : Staking.State} (height : ℕ) (d : AccAddress)
      (val : Staking.Validator)
      (h : k.BeforeDelegationSharesModified sk height d val.operatorAddress = .ok k')
      (hvals : sk'.validators = sk.validators.insert val.operatorAddress val)
      (hdels : sk'.delegations = sk.delegations.erase (toLex (d, val.operatorAddress))) :
      Step (k, sk) [] (k', sk')
  /-- A write of a stored validator that calls no hook: its tokens and shares, its jailing, its
  description and commission, its status. -/
  | updateValidator {k : Keeper} {sk sk' : Staking.State} (val : Staking.Validator)
      (hold : (sk.GetValidator val.operatorAddress).isSome)
      (hvals : sk'.validators = sk.validators.insert val.operatorAddress val)
      (hdels : sk'.delegations = sk.delegations) : Step (k, sk) [] (k, sk')
  /-- `Slash`: `BeforeValidatorSlashed`, before the tokens are burnt by an `updateValidator`. -/
  | slash {k k' : Keeper} {sk : Staking.State} (height : ℕ) (v : ValAddress) (fraction : Dec)
      (h : k.BeforeValidatorSlashed sk height v fraction = .ok k') : Step (k, sk) [] (k', sk)
  /-- `RemoveValidator` of a validator without delegations: its record deleted, then
  `AfterValidatorRemoved`. -/
  | removeValidator {k k' : Keeper} {sk sk' : Staking.State} (v : ValAddress)
      (hold : (sk.GetValidator v).isSome) (hnodel : ∀ d, sk.GetDelegation d v = none)
      (hvals : sk'.validators = sk.validators.erase v) (hdels : sk'.delegations = sk.delegations)
      (h : k.AfterValidatorRemoved v = .ok k') : Step (k, sk) [] (k', sk')
  /-- `MsgWithdrawDelegatorReward`. -/
  | withdrawDelegatorReward {k k' : Keeper} {sk : Staking.State} (height : ℕ) (d : AccAddress)
      (v : ValAddress) (coins : Coins) (h : k.WithdrawDelegationRewards sk height d v = .ok (k', coins)) :
      Step (k, sk) [] (k', sk)
  /-- `MsgWithdrawValidatorCommission`. -/
  | withdrawValidatorCommission {k k' : Keeper} {sk : Staking.State} (v : ValAddress) (coins : Coins)
      (h : k.WithdrawValidatorCommission v = .ok (k', coins)) : Step (k, sk) [] (k', sk)
  /-- `MsgSetWithdrawAddress`. -/
  | setWithdrawAddress {k k' : Keeper} {sk : Staking.State} (d w : AccAddress)
      (h : k.SetWithdrawAddr d w = .ok k') : Step (k, sk) [] (k', sk)
  /-- The ante handler's fee, collected for the next block. -/
  | collectFees {k : Keeper} {sk : Staking.State} (fee : Coins) :
      Step (k, sk) [fee] ({ k with toState := k.toState.AddCollectedFees fee }, sk)
  /-- `BeginBlocker`, with whatever validators the staking keeper reports for the votes. -/
  | beginBlock {k : Keeper} {sk : Staking.State} {s' : State} (view : StakingKeeper)
      (blockHeight : ℤ) (proposerAddress : ConsAddress) (votes : List VoteInfo)
      (h : State.BeginBlocker view k.toState blockHeight proposerAddress votes = .ok s') :
      Step (k, sk) [] ({ k with toState := s' }, sk)

/-! ### Each step keeps the ledger and the links -/

section Steps

variable {k₁ : Keeper}

/-- `AfterDelegationModified` on a store where the delegation is stored, and is the only one
without a starting info, gives it one and restores the links. -/
theorem ledger_linked_AfterDelegationModified (hL : Ledger k) {height : ℕ} {d : AccAddress}
    {v : ValAddress} (hvf : ∀ w x, sk.GetValidator w = some x → x.operatorAddress = w)
    (hdf : ∀ e w x, sk.GetDelegation e w = some x → x.delegatorAddress = e ∧ x.validatorAddress = w)
    (hcur : ∀ w, (k.currentPeriod w).isSome = (sk.GetValidator w).isSome)
    (hstart : ∀ w e, ¬(e = d ∧ w = v) →
      (k.delegatorStartingInfo.get? (toLex (w, e))).isSome = (sk.GetDelegation e w).isSome)
    (hfresh : k.delegatorStartingInfo.get? (toLex (v, d)) = none)
    (hdel : (sk.GetDelegation d v).isSome)
    (h : k.AfterDelegationModified sk height d v = .ok k') : Ledger k' ∧ Linked k' sk := by
  obtain ⟨hL', hcur', -, info, hinfo⟩ := hL.initializeDelegation hfresh h
  refine ⟨hL', ⟨hvf, hdf, fun w => by rw [hcur', hcur], fun w e => ?_⟩⟩
  rw [hinfo, SortedMap.get?_insert]
  split_ifs with hkey
  · obtain ⟨rfl, rfl⟩ := Prod.mk.inj (toLex_inj.1 hkey)
    exact hdel.symm
  · exact hstart w e fun ⟨he, hw⟩ => hkey (by rw [he, hw])

theorem createValidator_ledger_linked (hL : Ledger k) (hK : Linked k sk) {val : Staking.Validator}
    (hnew : sk.GetValidator val.operatorAddress = none)
    (hvals : sk'.validators = sk.validators.insert val.operatorAddress val)
    (hdels : sk'.delegations = sk.delegations)
    (h : k.AfterValidatorCreated sk' val.operatorAddress = .ok k') : Ledger k' ∧ Linked k' sk' := by
  obtain ⟨val', hval', rfl⟩ := AfterValidatorCreated_eq_ok h
  rw [GetValidator_of_insert hvals, if_pos rfl] at hval'
  cases hval'
  -- a validator the staking store did not have has no current rewards
  have hnone : k.currentPeriod val.operatorAddress = none := hK.currentPeriod_eq_none hnew
  refine ⟨hL.initializeValidator hnone, validators_filed_of_insert hK.validators_filed hvals,
    fun e w x hx => hK.delegations_filed e w x (by rwa [GetDelegation_of_eq hdels] at hx),
    fun w => ?_, fun w e => ?_⟩
  · rw [currentPeriod_initializeValidator, GetValidator_of_insert hvals]
    split_ifs
    · rfl
    · exact hK.current w
  · rw [GetDelegation_of_eq hdels]
    exact hK.starting w e

theorem createDelegation_ledger_linked (hL : Ledger k) (hK : Linked k sk) {height : ℕ}
    {val : Staking.Validator} {del : Staking.Delegation}
    (hnew : sk.GetDelegation del.delegatorAddress del.validatorAddress = none)
    (h₁ : k.BeforeDelegationCreated sk del.validatorAddress = .ok k₁)
    (hval : val.operatorAddress = del.validatorAddress)
    (hvals : sk'.validators = sk.validators.insert val.operatorAddress val)
    (hdels : sk'.delegations =
      sk.delegations.insert (toLex (del.delegatorAddress, del.validatorAddress)) del)
    (h : k₁.AfterDelegationModified sk' height del.delegatorAddress del.validatorAddress = .ok k') :
    Ledger k' ∧ Linked k' sk' := by
  obtain ⟨val₀, ended, hval₀, hk₁⟩ := BeforeDelegationCreated_eq_ok h₁
  obtain ⟨hL₁, hcur₁, hstart₁, -⟩ := hL.incrementValidatorPeriod hk₁
  have hold : (sk.GetValidator val.operatorAddress).isSome := by
    rw [hval, hval₀]
    rfl
  refine ledger_linked_AfterDelegationModified hL₁ (validators_filed_of_insert hK.validators_filed hvals)
    (delegations_filed_of_insert hK.delegations_filed hdels) (fun w => ?_) (fun w e hwe => ?_) ?_ ?_ h
  · rw [hcur₁, hK.current, isSome_GetValidator_of_insert hold hvals]
  · rw [hstart₁, hK.starting, GetDelegation_of_insert hdels, if_neg hwe]
  · rw [hstart₁]
    exact hK.startingInfo_eq_none hnew
  · rw [GetDelegation_of_insert hdels, if_pos ⟨rfl, rfl⟩]
    rfl

theorem modifyDelegation_ledger_linked (hL : Ledger k) (hK : Linked k sk) {height : ℕ}
    {val : Staking.Validator} {del : Staking.Delegation}
    (h₁ : k.BeforeDelegationSharesModified sk height del.delegatorAddress del.validatorAddress = .ok k₁)
    (hval : val.operatorAddress = del.validatorAddress)
    (hvals : sk'.validators = sk.validators.insert val.operatorAddress val)
    (hdels : sk'.delegations =
      sk.delegations.insert (toLex (del.delegatorAddress, del.validatorAddress)) del)
    (h : k₁.AfterDelegationModified sk' height del.delegatorAddress del.validatorAddress = .ok k') :
    Ledger k' ∧ Linked k' sk' := by
  obtain ⟨val₀, del₀, coins, hval₀, hdel₀, hw⟩ := BeforeDelegationSharesModified_eq_ok h₁
  obtain ⟨hd, hv⟩ := hK.delegations_filed _ _ _ hdel₀
  obtain ⟨hL₁, hcur₁, -, hstart₁⟩ := hL.withdrawDelegationRewards hw
  rw [hd, hv] at hstart₁
  have hold : (sk.GetValidator val.operatorAddress).isSome := by
    rw [hval, hval₀]
    rfl
  refine ledger_linked_AfterDelegationModified hL₁ (validators_filed_of_insert hK.validators_filed hvals)
    (delegations_filed_of_insert hK.delegations_filed hdels) (fun w => ?_) (fun w e hwe => ?_) ?_ ?_ h
  · rw [hcur₁, hK.current, isSome_GetValidator_of_insert hold hvals]
  · have hkey : toLex (w, e) ≠ toLex (del.validatorAddress, del.delegatorAddress) := fun hkey =>
      hwe (by obtain ⟨rfl, rfl⟩ := Prod.mk.inj (toLex_inj.1 hkey); exact ⟨rfl, rfl⟩)
    rw [hstart₁, SortedMap.get?_erase_ne _ hkey, hK.starting, GetDelegation_of_insert hdels, if_neg hwe]
  · rw [hstart₁, SortedMap.get?_erase_self]
  · rw [GetDelegation_of_insert hdels, if_pos ⟨rfl, rfl⟩]
    rfl

theorem removeDelegation_ledger_linked (hL : Ledger k) (hK : Linked k sk) {height : ℕ}
    {d : AccAddress} {val : Staking.Validator}
    (h : k.BeforeDelegationSharesModified sk height d val.operatorAddress = .ok k')
    (hvals : sk'.validators = sk.validators.insert val.operatorAddress val)
    (hdels : sk'.delegations = sk.delegations.erase (toLex (d, val.operatorAddress))) :
    Ledger k' ∧ Linked k' sk' := by
  obtain ⟨val₀, del₀, coins, hval₀, hdel₀, hw⟩ := BeforeDelegationSharesModified_eq_ok h
  obtain ⟨hd, hv⟩ := hK.delegations_filed _ _ _ hdel₀
  obtain ⟨hL', hcur', -, hstart'⟩ := hL.withdrawDelegationRewards hw
  rw [hd, hv] at hstart'
  have hold : (sk.GetValidator val.operatorAddress).isSome := by
    rw [hval₀]
    rfl
  refine ⟨hL', validators_filed_of_insert hK.validators_filed hvals, fun e w x hx => ?_, fun w => ?_,
    fun w e => ?_⟩
  · rw [GetDelegation_of_erase hdels] at hx
    split_ifs at hx
    exact hK.delegations_filed e w x hx
  · rw [hcur', hK.current, isSome_GetValidator_of_insert hold hvals]
  · rw [hstart', SortedMap.get?_erase, GetDelegation_of_erase hdels]
    by_cases hkey : e = d ∧ w = val.operatorAddress
    · obtain ⟨rfl, rfl⟩ := hkey
      simp
    · rw [if_neg hkey, if_neg fun h' => hkey (by obtain ⟨rfl, rfl⟩ := Prod.mk.inj (toLex_inj.1 h'); exact ⟨rfl, rfl⟩),
        hK.starting]

theorem removeValidator_ledger_linked (hL : Ledger k) (hK : Linked k sk) {v : ValAddress}
    (hnodel : ∀ d, sk.GetDelegation d v = none) (hvals : sk'.validators = sk.validators.erase v)
    (hdels : sk'.delegations = sk.delegations) (h : k.AfterValidatorRemoved v = .ok k') :
    Ledger k' ∧ Linked k' sk' := by
  -- a validator without delegations has no starting infos
  have hstart : ∀ d, k.delegatorStartingInfo.get? (toLex (v, d)) = none := fun d =>
    hK.startingInfo_eq_none (hnodel d)
  obtain ⟨hL', hcur', hstart'⟩ := hL.AfterValidatorRemoved hstart h
  refine ⟨hL', fun w x hx => ?_, fun e w x hx => hK.delegations_filed e w x
    (by rwa [GetDelegation_of_eq hdels] at hx), fun w => ?_, fun w e => ?_⟩
  · rw [GetValidator_of_erase hvals] at hx
    split_ifs at hx
    exact hK.validators_filed w x hx
  · rw [hcur', GetValidator_of_erase hvals]
    split_ifs
    · rfl
    · exact hK.current w
  · rw [hstart', GetDelegation_of_eq hdels]
    exact hK.starting w e

theorem withdrawDelegatorReward_ledger_linked (hL : Ledger k) (hK : Linked k sk) {height : ℕ}
    {d : AccAddress} {v : ValAddress} {coins : Coins}
    (h : k.WithdrawDelegationRewards sk height d v = .ok (k', coins)) : Ledger k' ∧ Linked k' sk := by
  obtain ⟨val, del, k₁, hval, hdel, hw, hk'⟩ := WithdrawDelegationRewards_eq_ok h
  obtain ⟨hd, hv⟩ := hK.delegations_filed _ _ _ hdel
  obtain ⟨hL₁, hcur₁, -, hstart₁⟩ := hL.withdrawDelegationRewards hw
  rw [hd, hv] at hstart₁
  refine ledger_linked_AfterDelegationModified hL₁ hK.validators_filed hK.delegations_filed
    (fun w => by rw [hcur₁, hK.current]) (fun w e hwe => ?_) ?_ (by rw [hdel]; rfl) hk'
  · have hkey : toLex (w, e) ≠ toLex (v, d) := fun hkey =>
      hwe (by obtain ⟨rfl, rfl⟩ := Prod.mk.inj (toLex_inj.1 hkey); exact ⟨rfl, rfl⟩)
    rw [hstart₁, SortedMap.get?_erase_ne _ hkey, hK.starting]
  · rw [hstart₁, SortedMap.get?_erase_self]

/-- The step lemma: every step keeps the ledger and the links. -/
theorem Step.ledger_linked {p p' : Keeper × Staking.State} {fees : List Coins} (hstep : Step p fees p') (hL : Ledger p.1)
    (hK : Linked p.1 p.2) : Ledger p'.1 ∧ Linked p'.1 p'.2 := by
  cases hstep with
  | createValidator val hnew hvals hdels h => exact createValidator_ledger_linked hL hK hnew hvals hdels h
  | createDelegation height val del hnew h₁ hval hvals hdels h =>
    exact createDelegation_ledger_linked hL hK hnew h₁ hval hvals hdels h
  | modifyDelegation height val del h₁ hval hvals hdels h =>
    exact modifyDelegation_ledger_linked hL hK h₁ hval hvals hdels h
  | removeDelegation height d val h hvals hdels => exact removeDelegation_ledger_linked hL hK h hvals hdels
  | updateValidator val hold hvals hdels =>
    refine ⟨hL, validators_filed_of_insert hK.validators_filed hvals,
      fun e w x hx => hK.delegations_filed e w x (by rwa [GetDelegation_of_eq hdels] at hx),
      fun w => ?_, fun w e => ?_⟩
    · rw [hK.current, isSome_GetValidator_of_insert hold hvals]
    · rw [GetDelegation_of_eq hdels, hK.starting]
  | slash height v fraction h =>
    obtain ⟨hL', hcur', hstart', -⟩ := hL.updateValidatorSlashFraction h
    exact ⟨hL', hK.validators_filed, hK.delegations_filed, fun w => by rw [hcur', hK.current],
      fun w e => by rw [hstart', hK.starting]⟩
  | removeValidator v hold hnodel hvals hdels h =>
    exact removeValidator_ledger_linked hL hK hnodel hvals hdels h
  | withdrawDelegatorReward height d v coins h => exact withdrawDelegatorReward_ledger_linked hL hK h
  | withdrawValidatorCommission v coins h =>
    have hsame := WithdrawValidatorCommission_sameRecords h
    exact ⟨hL.of_sameRecords hsame, hK.of_sameRecords hsame⟩
  | setWithdrawAddress d w h =>
    have hsame := SetWithdrawAddr_sameRecords h
    exact ⟨hL.of_sameRecords hsame, hK.of_sameRecords hsame⟩
  | @collectFees k sk fee =>
    have hsame := SameRecords.of_toState k (s := k.toState.AddCollectedFees fee) fun _ => rfl
    exact ⟨hL.of_sameRecords hsame, hK.of_sameRecords hsame⟩
  | beginBlock view blockHeight proposerAddress votes h =>
    have hsame := SameRecords.of_toState _ (State.BeginBlocker_samePeriods h)
    exact ⟨hL.of_sameRecords hsame, hK.of_sameRecords hsame⟩

/-- The step lemma for the holders: no step leaves a holder without its record. -/
theorem Step.held {p p' : Keeper × Staking.State} {fees : List Coins} (hstep : Step p fees p') (hL : Ledger p.1)
    (hK : Linked p.1 p.2) (hH : Held p.1) : Held p'.1 := by
  cases hstep with
  | createValidator val hnew hvals hdels h =>
    obtain ⟨val', hval', rfl⟩ := AfterValidatorCreated_eq_ok h
    rw [GetValidator_of_insert hvals, if_pos rfl] at hval'
    cases hval'
    exact hH.initializeValidator hL (hK.currentPeriod_eq_none hnew)
  | createDelegation height val del hnew h₁ hval hvals hdels h =>
    obtain ⟨val₀, ended, -, hk₁⟩ := BeforeDelegationCreated_eq_ok h₁
    obtain ⟨hL₁, -, hstart₁, -⟩ := hL.incrementValidatorPeriod hk₁
    refine (hH.incrementValidatorPeriod hL hk₁).initializeDelegation hL₁ ?_ h
    rw [hstart₁]
    exact hK.startingInfo_eq_none hnew
  | modifyDelegation height val del h₁ hval hvals hdels h =>
    obtain ⟨val₀, del₀, coins, -, hdel₀, hw⟩ := BeforeDelegationSharesModified_eq_ok h₁
    obtain ⟨hd, hv⟩ := hK.delegations_filed _ _ _ hdel₀
    obtain ⟨hL₁, -, -, hstart₁⟩ := hL.withdrawDelegationRewards hw
    rw [hd, hv] at hstart₁
    refine (hH.withdrawDelegationRewards hL hw).initializeDelegation hL₁ ?_ h
    rw [hstart₁, SortedMap.get?_erase_self]
  | removeDelegation height d val h hvals hdels =>
    obtain ⟨val₀, del₀, coins, -, -, hw⟩ := BeforeDelegationSharesModified_eq_ok h
    exact hH.withdrawDelegationRewards hL hw
  | updateValidator val hold hvals hdels => exact hH
  | slash height v fraction h => exact hH.updateValidatorSlashFraction hL h
  | removeValidator v hold hnodel hvals hdels h =>
    exact hH.AfterValidatorRemoved (fun d => hK.startingInfo_eq_none (hnodel d)) h
  | withdrawDelegatorReward height d v coins h =>
    obtain ⟨val, del, k₁, -, hdel, hw, hk'⟩ := WithdrawDelegationRewards_eq_ok h
    obtain ⟨hd, hv⟩ := hK.delegations_filed _ _ _ hdel
    obtain ⟨hL₁, -, -, hstart₁⟩ := hL.withdrawDelegationRewards hw
    rw [hd, hv] at hstart₁
    refine (hH.withdrawDelegationRewards hL hw).initializeDelegation hL₁ ?_ hk'
    rw [hstart₁, SortedMap.get?_erase_self]
  | withdrawValidatorCommission v coins h =>
    exact hH.of_sameRecords (WithdrawValidatorCommission_sameRecords h)
  | setWithdrawAddress d w h => exact hH.of_sameRecords (SetWithdrawAddr_sameRecords h)
  | @collectFees k sk fee =>
    exact hH.of_sameRecords (SameRecords.of_toState k (s := k.toState.AddCollectedFees fee) fun _ => rfl)
  | beginBlock view blockHeight proposerAddress votes h =>
    exact hH.of_sameRecords (SameRecords.of_toState _ (State.BeginBlocker_samePeriods h))

/-- The step lemma for the bound: every reference a step adds goes to the record of a period the
same step has just ended. -/
theorem Step.bounded {p p' : Keeper × Staking.State} {fees : List Coins} (hstep : Step p fees p') (hK : Linked p.1 p.2)
    (hB : Bounded p.1) : Bounded p'.1 := by
  cases hstep with
  | createValidator val hnew hvals hdels h =>
    obtain ⟨val', -, rfl⟩ := AfterValidatorCreated_eq_ok h
    exact hB.initializeValidator val'
  | createDelegation height val del hnew h₁ hval hvals hdels h =>
    obtain ⟨val₀, ended, hval₀, hk₁⟩ := BeforeDelegationCreated_eq_ok h₁
    have hF := fresh_incrementValidatorPeriod hk₁
    rw [hK.validators_filed _ _ hval₀] at hF
    exact (hB.incrementValidatorPeriod hk₁).initializeDelegation hF h
  | modifyDelegation height val del h₁ hval hvals hdels h =>
    obtain ⟨val₀, del₀, coins, hval₀, -, hw⟩ := BeforeDelegationSharesModified_eq_ok h₁
    have hF := Fresh.withdrawDelegationRewards hw
    rw [hK.validators_filed _ _ hval₀] at hF
    exact (hB.withdrawDelegationRewards hw).initializeDelegation hF h
  | removeDelegation height d val h hvals hdels =>
    obtain ⟨val₀, del₀, coins, -, -, hw⟩ := BeforeDelegationSharesModified_eq_ok h
    exact hB.withdrawDelegationRewards hw
  | updateValidator val hold hvals hdels => exact hB
  | slash height v fraction h => exact hB.updateValidatorSlashFraction hK.validators_filed h
  | removeValidator v hold hnodel hvals hdels h => exact hB.AfterValidatorRemoved h
  | withdrawDelegatorReward height d v coins h =>
    obtain ⟨val, del, k₁, hval, -, hw, hk'⟩ := WithdrawDelegationRewards_eq_ok h
    have hF := Fresh.withdrawDelegationRewards hw
    rw [hK.validators_filed _ _ hval] at hF
    exact (hB.withdrawDelegationRewards hw).initializeDelegation hF hk'
  | withdrawValidatorCommission v coins h =>
    exact hB.of_sameRecords (WithdrawValidatorCommission_sameRecords h)
  | setWithdrawAddress d w h => exact hB.of_sameRecords (SetWithdrawAddr_sameRecords h)
  | @collectFees k sk fee =>
    exact hB.of_sameRecords (SameRecords.of_toState k (s := k.toState.AddCollectedFees fee) fun _ => rfl)
  | beginBlock view blockHeight proposerAddress votes h =>
    exact hB.of_sameRecords (SameRecords.of_toState _ (State.BeginBlocker_samePeriods h))

/-- The invariants of the hook protocol: the ledger, the links to the staking store, the holds
and the bound on the references. -/
structure Sound (p : Keeper × Staking.State) : Prop where
  ledger : Ledger p.1
  linked : Linked p.1 p.2
  held : Held p.1
  bounded : Bounded p.1

theorem Step.sound {p p' : Keeper × Staking.State} {fees : List Coins} (hstep : Step p fees p') (h : Sound p) : Sound p' :=
  have hLK := hstep.ledger_linked h.ledger h.linked
  ⟨hLK.1, hLK.2, hstep.held h.ledger h.linked h.held, hstep.bounded h.linked h.bounded⟩

/-- The run lemma: every state of a run from a sound one is sound. -/
theorem sound_of_run {p p' : Keeper × Staking.State} {fees : List Coins}
    (hrun : Transition.Trace Step p fees p') (h : Sound p) : Sound p' :=
  Transition.Trace.invariant (fun _ p => Sound p) (fun _ _ _ _ hp hstep => hstep.sound hp) hrun h

/-! ### No coin is made or lost along a run -/

/-- The outstanding rewards are of stored validators, and every account is filed under its own
address. -/
structure Filed (p : Keeper × Staking.State) : Prop where
  outstanding : ∀ v, (p.1.validatorOutstandingRewards.get? v).isSome → (p.2.GetValidator v).isSome
  accounts : p.1.accounts.WF

/-- A move that conserves, over a staking store that keeps its validators, keeps `Filed` and
the supply. -/
theorem Filed.conserves (hF : Filed (k, sk)) (hc : Conserves k k')
    (hvals : ∀ v, (sk.GetValidator v).isSome → (sk'.GetValidator v).isSome) :
    Filed (k', sk') ∧ ∀ d, k'.supply d = k.supply d + State.feesAmount [] d * Dec.precisionReuse :=
  ⟨⟨fun v hv => hvals v (hF.outstanding v (by rw [← hc.outstanding v]; exact hv)), hc.accounts⟩,
    fun d => by rw [hc.supply d, State.feesAmount_nil, zero_mul, add_zero]⟩

/-- The step lemma for the supply: every step keeps `Filed`, and changes the supply by exactly
the fees it takes in. -/
theorem Step.supply {p p' : Keeper × Staking.State} {fees : List Coins} (hstep : Step p fees p')
    (hF : Filed p) :
    Filed p' ∧ ∀ d, p'.1.supply d = p.1.supply d + State.feesAmount fees d * Dec.precisionReuse := by
  cases hstep with
  | @createValidator k k' sk sk' val hnew hvals hdels h =>
    obtain ⟨val', hval', rfl⟩ := AfterValidatorCreated_eq_ok h
    rw [GetValidator_of_insert hvals, if_pos rfl] at hval'
    cases hval'
    -- a validator the staking store did not have has no outstanding rewards
    have hnone : k.validatorOutstandingRewards.get? val.operatorAddress = none := by
      cases hx : k.validatorOutstandingRewards.get? val.operatorAddress with
      | none => rfl
      | some x =>
        have hstored := hF.outstanding val.operatorAddress (by rw [hx]; rfl)
        rw [hnew] at hstored
        cases hstored
    refine ⟨⟨fun w hw => ?_, hF.accounts⟩, fun d => ?_⟩
    · rw [GetValidator_of_insert hvals]
      split_ifs with hw'
      · rfl
      · rw [outstanding_initializeValidator, SortedMap.get?_insert, if_neg hw'] at hw
        exact hF.outstanding w hw
    · rw [supply_initializeValidator hnone, State.feesAmount_nil, zero_mul, add_zero]
  | @createDelegation k k₁ k' sk sk' height val del hnew h₁ hval hvals hdels h =>
    obtain ⟨val₀, ended, hval₀, hk₁⟩ := BeforeDelegationCreated_eq_ok h₁
    have hold : (sk.GetValidator val.operatorAddress).isSome := by
      rw [hval, hval₀]
      rfl
    have hc₁ := incrementValidatorPeriod_conserves hF.accounts hk₁
    exact hF.conserves (hc₁.trans (initializeDelegation_conserves hc₁.accounts h))
      fun w hw => by rw [isSome_GetValidator_of_insert hold hvals]; exact hw
  | @modifyDelegation k k₁ k' sk sk' height val del h₁ hval hvals hdels h =>
    obtain ⟨val₀, del₀, coins, hval₀, -, hw⟩ := BeforeDelegationSharesModified_eq_ok h₁
    have hold : (sk.GetValidator val.operatorAddress).isSome := by
      rw [hval, hval₀]
      rfl
    have hc₁ := withdrawDelegationRewards_conserves hF.accounts hw
    exact hF.conserves (hc₁.trans (initializeDelegation_conserves hc₁.accounts h))
      fun w hw => by rw [isSome_GetValidator_of_insert hold hvals]; exact hw
  | @removeDelegation k k' sk sk' height d val h hvals hdels =>
    obtain ⟨val₀, del₀, coins, hval₀, -, hw⟩ := BeforeDelegationSharesModified_eq_ok h
    have hold : (sk.GetValidator val.operatorAddress).isSome := by
      rw [hval₀]
      rfl
    exact hF.conserves (withdrawDelegationRewards_conserves hF.accounts hw)
      fun w hw => by rw [isSome_GetValidator_of_insert hold hvals]; exact hw
  | updateValidator val hold hvals hdels =>
    exact hF.conserves (Conserves.refl hF.accounts)
      fun w hw => by rw [isSome_GetValidator_of_insert hold hvals]; exact hw
  | slash height v fraction h =>
    exact hF.conserves (updateValidatorSlashFraction_conserves hF.accounts h) fun _ hw => hw
  | removeValidator v hold hnodel hvals hdels h =>
    -- the validator's outstanding rewards go with it
    obtain ⟨hwf', hout', hsupply⟩ := supply_AfterValidatorRemoved hF.accounts h
    refine ⟨⟨fun w hw => ?_, hwf'⟩, fun d => by rw [hsupply, State.feesAmount_nil, zero_mul, add_zero]⟩
    rw [hout', SortedMap.get?_erase] at hw
    rw [GetValidator_of_erase hvals]
    split_ifs at hw ⊢
    · simp at hw
    · exact hF.outstanding w hw
  | withdrawDelegatorReward height d v coins h =>
    exact hF.conserves (WithdrawDelegationRewards_conserves hF.accounts h) fun _ hw => hw
  | withdrawValidatorCommission v coins h =>
    exact hF.conserves (WithdrawValidatorCommission_conserves hF.accounts h) fun _ hw => hw
  | setWithdrawAddress d w h =>
    exact hF.conserves (SetWithdrawAddr_conserves hF.accounts h) fun _ hw => hw
  | @collectFees k sk fee =>
    exact ⟨⟨hF.outstanding, hF.accounts⟩, fun d => by
      rw [supply_AddCollectedFees, State.feesAmount_singleton]⟩
  | beginBlock view blockHeight proposerAddress votes h =>
    exact hF.conserves (conserves_BeginBlocker hF.accounts h) fun _ hw => hw

/-- The run lemma for the supply: along every run from a filed store, the supply changes by
exactly the fees the run takes in. -/
theorem supply_of_run {p p' : Keeper × Staking.State} {fees : List Coins}
    (hrun : Transition.Trace Step p fees p') (hF : Filed p) (d : String) :
    p'.1.supply d = p.1.supply d + State.feesAmount fees d * Dec.precisionReuse :=
  (Transition.Trace.invariant
    (fun fees q => Filed q ∧ q.1.supply d = p.1.supply d + State.feesAmount fees d * Dec.precisionReuse)
    (fun _ _ _ _ hq hstep => ⟨(hstep.supply hq.1).1, by
      rw [(hstep.supply hq.1).2 d, hq.2, State.feesAmount_append]
      ring⟩)
    hrun ⟨hF, by rw [State.feesAmount_nil, zero_mul, add_zero]⟩).2

end Steps

/-! ### From genesis -/

/-- A keeper before the first validator: no record of any validator, with the fee pool, the
parameters, the withdraw-address switch and the accounts given. -/
def genesis (feePool : FeePool) (params : Params) (withdrawAddrEnabled : Bool)
    (accounts : Auth.State) : Keeper where
  feePool := some feePool
  validatorCurrentRewards := ∅
  validatorAccumulatedCommission := ∅
  validatorOutstandingRewards := ∅
  previousProposer := none
  collectedFees := []
  params := params
  validatorHistoricalRewards := ∅
  delegatorStartingInfo := ∅
  validatorSlashEvents := ∅
  delegatorWithdrawAddr := ∅
  withdrawAddrEnabled := withdrawAddrEnabled
  accounts := accounts

section Genesis

variable (feePool : FeePool) (params : Params) (withdrawAddrEnabled : Bool) (accounts : Auth.State)
  (stakingParams : Staking.Params) (balances : SortedMap AccAddress ℤ)

theorem ledger_genesis : Ledger (genesis feePool params withdrawAddrEnabled accounts) where
  period_pos _ _ h := by cases h
  historical _ _ _ h := by cases h
  starting _ _ _ h := by cases h
  slashed _ _ _ h := by cases h
  counts _ := rfl
  total := rfl

theorem held_genesis : Held (genesis feePool params withdrawAddrEnabled accounts) where
  started _ _ _ h := by cases h
  held v p := by
    have hsum := sumOf_eq_zero (∅ : SortedMap (ValAddress ×ₗ AccAddress) DelegatorStartingInfo)
      (fun i => if i.previousPeriod = p then 1 else 0) v fun _ _ h => by cases h
    simp [holdersOf, countOf, genesis, currentPeriod, hsum]

theorem linked_genesis :
    Linked (genesis feePool params withdrawAddrEnabled accounts) (Staking.genesis stakingParams balances) where
  validators_filed _ _ h := by cases h
  delegations_filed _ _ _ h := by cases h
  current _ := rfl
  starting _ _ := rfl

theorem bounded_genesis : Bounded (genesis feePool params withdrawAddrEnabled accounts) := fun _ _ => by
  simp [countOf, genesis]

theorem filed_genesis (hwf : accounts.WF) :
    Filed (genesis feePool params withdrawAddrEnabled accounts, Staking.genesis stakingParams balances) where
  outstanding _ h := by cases h
  accounts := hwf

theorem sound_genesis : Sound (genesis feePool params withdrawAddrEnabled accounts,
    Staking.genesis stakingParams balances) :=
  ⟨ledger_genesis _ _ _ _, linked_genesis _ _ _ _ _ _, held_genesis _ _ _ _, bounded_genesis _ _ _ _⟩

end Genesis

/-- Every state reachable from genesis is sound. -/
theorem sound_of_reachable {feePool : FeePool} {params : Params} {withdrawAddrEnabled : Bool}
    {accounts : Auth.State} {stakingParams : Staking.Params} {balances : SortedMap AccAddress ℤ}
    {fees : List Coins} (hrun : Transition.Trace Step (genesis feePool params withdrawAddrEnabled accounts,
      Staking.genesis stakingParams balances) fees (k, sk)) : Sound (k, sk) :=
  sound_of_run hrun (sound_genesis _ _ _ _ _ _)

/-! ### The registered invariant -/

theorem GetValidatorHistoricalReferenceCount_cast (k : Keeper) :
    (k.GetValidatorHistoricalReferenceCount : ℤ) = k.references := by
  unfold GetValidatorHistoricalReferenceCount Keeper.references SortedMap.sum
  rw [Nat.cast_list_sum, List.map_map]
  rfl

theorem Linked.validatorCount_eq (hK : Linked k sk) : k.validatorCount = sk.validators.size := by
  have hsize : sk.validators.size = k.validatorCurrentRewards.size := by
    refine SortedMap.size_eq_of_keys id Function.injective_id fun v => ?_
    simpa [currentPeriod, Staking.State.GetValidator] using (hK.current v).symm
  unfold validatorCount
  rw [SortedMap.sum_one, hsize]

/-- The starting infos, keyed by validator and delegator, are as many as the delegations, keyed
by delegator and validator. -/
theorem Linked.startingInfoCount_eq (hK : Linked k sk) : k.startingInfoCount = sk.delegations.size := by
  have hswap : Function.Injective fun key : ValAddress ×ₗ AccAddress =>
      (toLex ((ofLex key).2, (ofLex key).1) : AccAddress ×ₗ ValAddress) := by
    intro a b h
    have hab := congrArg ofLex h
    simp only [ofLex_toLex, Prod.mk.injEq] at hab
    exact ofLex_inj.1 (Prod.ext hab.2 hab.1)
  have hsize : sk.delegations.size = k.delegatorStartingInfo.size := by
    refine SortedMap.size_eq_of_keys _ hswap fun key => ⟨fun hkey => ?_, ?_⟩
    · refine ⟨toLex ((ofLex key).2, (ofLex key).1), by simp, ?_⟩
      rw [hK.starting]
      exact hkey
    · rintro ⟨x, rfl, hx⟩
      have h := hK.starting (ofLex x).1 (ofLex x).2
      rw [toLex_ofLex, hx] at h
      exact h.symm
  unfold startingInfoCount
  rw [SortedMap.sum_one, hsize]

theorem slashEventCount_eq (k : Keeper) : k.slashEventCount = k.validatorSlashEvents.size :=
  SortedMap.sum_one _

/-- With the ledger and the links, the registered invariant holds. -/
theorem ReferenceCountInvariant_of_ledger (hL : Ledger k) (hK : Linked k sk) :
    k.ReferenceCountInvariant sk = true := by
  unfold ReferenceCountInvariant
  have htotal := hL.total
  rw [← GetValidatorHistoricalReferenceCount_cast, hK.validatorCount_eq, hK.startingInfoCount_eq,
    slashEventCount_eq] at htotal
  simp only [beq_iff_eq]
  exact_mod_cast htotal

/-- On every state reachable from genesis, through the staking keeper's calls of the hooks and
the module's own operations, the invariant the module registers holds: the reference counts of
the historical records add up to the validators, the delegations and the slash events. -/
theorem ReferenceCountInvariant_of_reachable {feePool : FeePool} {params : Params}
    {withdrawAddrEnabled : Bool} {accounts : Auth.State} {stakingParams : Staking.Params}
    {balances : SortedMap AccAddress ℤ}
    {fees : List Coins} (hrun : Transition.Trace Step (genesis feePool params withdrawAddrEnabled accounts,
      Staking.genesis stakingParams balances) fees (k, sk)) :
    k.ReferenceCountInvariant sk = true :=
  have hinv := sound_of_reachable hrun
  ReferenceCountInvariant_of_ledger hinv.ledger hinv.linked

/-- The store after one validator is created on a genesis one. -/
def oneValidator : Keeper × Staking.State :=
  ((genesis ⟨[]⟩ ⟨⟨0⟩, ⟨0⟩, ⟨0⟩⟩ true ⟨∅, 0⟩).initializeValidator
      (Staking.NewValidator (List.replicate Staking.AddrLen 1) ⟨[], []⟩),
    { Staking.genesis ⟨0, 1, 7, "stake"⟩ ∅ with
      validators := (∅ : SortedMap ValAddress Staking.Validator).insert (List.replicate Staking.AddrLen 1)
        (Staking.NewValidator (List.replicate Staking.AddrLen 1) ⟨[], []⟩) })

theorem reachable_oneValidator :
    Transition.Trace Step (genesis ⟨[]⟩ ⟨⟨0⟩, ⟨0⟩, ⟨0⟩⟩ true ⟨∅, 0⟩,
      Staking.genesis ⟨0, 1, 7, "stake"⟩ ∅) [] oneValidator :=
  .tail (.refl _) (Step.createValidator (Staking.NewValidator (List.replicate Staking.AddrLen 1) ⟨[], []⟩) rfl rfl
    rfl rfl)

theorem ReferenceCountInvariant_oneValidator : oneValidator.1.ReferenceCountInvariant oneValidator.2 = true :=
  ReferenceCountInvariant_of_reachable reachable_oneValidator

/-! ### No record still read is missing -/

/-- On every state reachable from genesis, the record a stored validator reads when its period
ends (that of the period it ended last) and the record a delegation reads when its rewards are
withdrawn (that of the period it started after) are stored, each with a reference. -/
theorem historicalRewards_held_of_reachable {feePool : FeePool} {params : Params}
    {withdrawAddrEnabled : Bool} {accounts : Auth.State} {stakingParams : Staking.Params}
    {balances : SortedMap AccAddress ℤ}
    {fees : List Coins} (hrun : Transition.Trace Step (genesis feePool params withdrawAddrEnabled accounts,
      Staking.genesis stakingParams balances) fees (k, sk)) :
    (∀ v val, sk.GetValidator v = some val → ∃ c r, k.currentPeriod v = some c ∧
      k.validatorHistoricalRewards.get? (toLex (v, c - 1)) = some r ∧ 0 < r.referenceCount) ∧
    (∀ d v del, sk.GetDelegation d v = some del → ∃ i r,
      k.delegatorStartingInfo.get? (toLex (v, d)) = some i ∧
      k.validatorHistoricalRewards.get? (toLex (v, i.previousPeriod)) = some r ∧ 0 < r.referenceCount) := by
  obtain ⟨hL, hK, hH, -⟩ := sound_of_reachable hrun
  refine ⟨fun v val hval => ?_, fun d v del hdel => ?_⟩
  · -- a stored validator has current rewards, from period one on
    obtain ⟨c, hc⟩ := Option.isSome_iff_exists.mp ((hK.current v).trans (by rw [hval]; rfl))
    have hc' : k.currentPeriod v = some (c - 1 + 1) := by
      rw [Nat.sub_add_cancel (hL.period_pos v c hc)]
      exact hc
    obtain ⟨r, hr, hpos⟩ := hH.record_of_holder (one_le_holdersOf_of_currentPeriod hc')
    exact ⟨c, r, hc, hr, hpos⟩
  · -- a stored delegation has a starting info
    obtain ⟨i, hi⟩ := Option.isSome_iff_exists.mp ((hK.starting v d).trans (by rw [hdel]; rfl))
    obtain ⟨r, hr, hpos⟩ := hH.record_of_holder (one_le_holdersOf_of_startingInfo hi)
    exact ⟨i, r, hi, hr, hpos⟩

theorem historicalRewards_held_oneValidator :
    (oneValidator.1.validatorHistoricalRewards.get? (toLex (List.replicate Staking.AddrLen 1, 0))).isSome := by
  obtain ⟨c, r, hc, hr, -⟩ := (historicalRewards_held_of_reachable reachable_oneValidator).1
    (List.replicate Staking.AddrLen 1) _ rfl
  -- the validator's current period is its first
  have hone : some c = some 1 := hc.symm.trans rfl
  cases hone
  exact Option.isSome_iff_exists.mpr ⟨r, hr⟩

/-! ### No record outlives what it is kept for -/

/-- On every state reachable from genesis, every F1 record belongs to what the staking store
holds: a historical record to a stored validator, of a period it has ended; a starting info to a
stored delegation; a slash event to a stored validator.  Removing a validator or a delegation
leaves none of its records behind. -/
theorem records_owned_of_reachable {feePool : FeePool} {params : Params}
    {withdrawAddrEnabled : Bool} {accounts : Auth.State} {stakingParams : Staking.Params}
    {balances : SortedMap AccAddress ℤ}
    {fees : List Coins} (hrun : Transition.Trace Step (genesis feePool params withdrawAddrEnabled accounts,
      Staking.genesis stakingParams balances) fees (k, sk)) :
    (∀ v p r, k.validatorHistoricalRewards.get? (toLex (v, p)) = some r →
      ∃ val c, sk.GetValidator v = some val ∧ k.currentPeriod v = some c ∧ p < c) ∧
    (∀ v d i, k.delegatorStartingInfo.get? (toLex (v, d)) = some i → ∃ del, sk.GetDelegation d v = some del) ∧
    (∀ v h e, k.validatorSlashEvents.get? (toLex (v, h)) = some e → ∃ val, sk.GetValidator v = some val) := by
  obtain ⟨hL, hK, -, -⟩ := sound_of_reachable hrun
  -- a validator with current rewards is stored
  have hstored : ∀ v, (k.currentPeriod v).isSome → ∃ val, sk.GetValidator v = some val := fun v hv =>
    Option.isSome_iff_exists.mp ((hK.current v).symm.trans hv)
  refine ⟨fun v p r hr => ?_, fun v d i hi => ?_, fun v h e he => hstored v (hL.slashed v h e he)⟩
  · obtain ⟨c, hc, hlt⟩ := hL.historical v p r hr
    obtain ⟨val, hval⟩ := hstored v (by rw [hc]; rfl)
    exact ⟨val, c, hval, hc, hlt⟩
  · exact Option.isSome_iff_exists.mp ((hK.starting v d).symm.trans (by rw [hi]; rfl))

theorem records_owned_oneValidator :
    (oneValidator.2.GetValidator (List.replicate Staking.AddrLen 1)).isSome := by
  obtain ⟨val, c, hval, -, -⟩ := (records_owned_of_reachable reachable_oneValidator).1
    (List.replicate Staking.AddrLen 1) 0 ⟨[], 1⟩ rfl
  exact Option.isSome_iff_exists.mpr ⟨val, hval⟩

/-! ### No coin is made or lost -/

/-- Along every run from genesis with its accounts filed, what the module holds of a
denomination (community pool, outstanding rewards, fees collected) with what the accounts hold
of it is what the genesis community pool and accounts held, and the fees the run took in: no
hook, withdrawal, commission payout, validator removal or block makes or loses a unit. -/
theorem supply_of_reachable {feePool : FeePool} {params : Params} {withdrawAddrEnabled : Bool}
    {accounts : Auth.State} {stakingParams : Staking.Params} {balances : SortedMap AccAddress ℤ}
    {fees : List Coins} (hwf : accounts.WF)
    (hrun : Transition.Trace Step (genesis feePool params withdrawAddrEnabled accounts,
      Staking.genesis stakingParams balances) fees (k, sk)) (d : String) :
    k.supply d = feePool.communityPool.amount d + Bank.totalAmount accounts d * Dec.precisionReuse +
      State.feesAmount fees d * Dec.precisionReuse := by
  rw [supply_of_run hrun (filed_genesis _ _ _ _ _ _ hwf) d]
  -- genesis holds no outstanding rewards and no fees
  simp [supply, State.holdings, State.communityOf, State.outstandingTotal, genesis]
  exact SortedMap.sum_empty _

theorem supply_oneValidator :
    oneValidator.1.supply "stake" = DecCoins.amount [] "stake" +
      Bank.totalAmount ⟨∅, 0⟩ "stake" * Dec.precisionReuse + State.feesAmount [] "stake" * Dec.precisionReuse :=
  supply_of_reachable (fun _ _ h => by cases h) reachable_oneValidator "stake"

/-! ### No record exceeds two references -/

/-- On every state reachable from genesis, no historical record holds more than two references,
as the panic of incrementReferenceCount asserts. -/
theorem referenceCount_le_two_of_reachable {feePool : FeePool} {params : Params}
    {withdrawAddrEnabled : Bool} {accounts : Auth.State} {stakingParams : Staking.Params}
    {balances : SortedMap AccAddress ℤ}
    {fees : List Coins} (hrun : Transition.Trace Step (genesis feePool params withdrawAddrEnabled accounts,
      Staking.genesis stakingParams balances) fees (k, sk)) :
    ∀ v p r, k.validatorHistoricalRewards.get? (toLex (v, p)) = some r → r.referenceCount ≤ 2 := by
  intro v p r hr
  have hB := (sound_of_reachable hrun).bounded v p
  simp only [countOf, hr, Option.elim_some] at hB
  exact_mod_cast hB

theorem referenceCount_le_two_oneValidator :
    oneValidator.1.validatorHistoricalRewards.get? (toLex (List.replicate Staking.AddrLen 1, 0)) =
        some ⟨[], 1⟩ ∧ (⟨[], 1⟩ : ValidatorHistoricalRewards).referenceCount ≤ 2 :=
  ⟨rfl, referenceCount_le_two_of_reachable reachable_oneValidator (List.replicate Staking.AddrLen 1) 0 ⟨[], 1⟩
    rfl⟩

end Keeper

end CosmosSdk.Distribution
