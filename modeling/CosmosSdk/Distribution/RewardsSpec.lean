import CosmosSdk.Distribution.Rewards

/-!
# What the F1 operations return

One lemma for each operation of `Rewards`, read from the hypothesis that it returned: the
records it read, the guards it passed, and the store it returned, written with the store's
setters.  The proofs about runs cite these and never unfold the operations.

The records the reference counts are about are the historical rewards, the periods of the
current rewards, the starting infos and the slash events; `SameRecords` says that a store
changed none of them.  Moving coins (the fee pool, outstanding rewards, commission, accounts,
withdraw addresses, the rewards of the current period) keeps them.
-/

namespace CosmosSdk.Distribution

namespace Keeper

/-- The period of a validator's current rewards, if it has any. -/
def currentPeriod (k : Keeper) (v : ValAddress) : Option ℕ :=
  (k.validatorCurrentRewards.get? v).map (·.period)

/-- Two stores with the same F1 records: historical rewards, starting infos, slash events, and
current rewards of the same periods. -/
structure SameRecords (k k' : Keeper) : Prop where
  historical : k'.validatorHistoricalRewards = k.validatorHistoricalRewards
  starting : k'.delegatorStartingInfo = k.delegatorStartingInfo
  slashes : k'.validatorSlashEvents = k.validatorSlashEvents
  currentPeriod : ∀ v, k'.currentPeriod v = k.currentPeriod v

theorem SameRecords.refl (k : Keeper) : SameRecords k k := ⟨rfl, rfl, rfl, fun _ => rfl⟩

theorem SameRecords.trans {k₁ k₂ k₃ : Keeper} (h : SameRecords k₁ k₂) (h' : SameRecords k₂ k₃) :
    SameRecords k₁ k₃ :=
  ⟨h'.historical.trans h.historical, h'.starting.trans h.starting, h'.slashes.trans h.slashes,
    fun v => (h'.currentPeriod v).trans (h.currentPeriod v)⟩

/-- A store whose allocation records changed, but not the periods of its current rewards. -/
theorem SameRecords.of_toState (k : Keeper) {s : State}
    (h : ∀ v, (s.validatorCurrentRewards.get? v).map (·.period) = k.currentPeriod v) :
    SameRecords k { k with toState := s } :=
  ⟨rfl, rfl, rfl, h⟩

section Setters

variable (k : Keeper) (v : ValAddress)

theorem sameRecords_SetFeePool (feePool : FeePool) : SameRecords k (k.SetFeePool feePool) :=
  SameRecords.of_toState k fun _ => rfl

theorem sameRecords_SetValidatorOutstandingRewards (rewards : DecCoins) :
    SameRecords k (k.SetValidatorOutstandingRewards v rewards) :=
  SameRecords.of_toState k fun _ => rfl

theorem sameRecords_SetValidatorAccumulatedCommission (commission : DecCoins) :
    SameRecords k (k.SetValidatorAccumulatedCommission v commission) :=
  SameRecords.of_toState k fun _ => rfl

theorem sameRecords_DeleteValidatorOutstandingRewards :
    SameRecords k (k.DeleteValidatorOutstandingRewards v) :=
  ⟨rfl, rfl, rfl, fun _ => rfl⟩

theorem sameRecords_DeleteValidatorAccumulatedCommission :
    SameRecords k (k.DeleteValidatorAccumulatedCommission v) :=
  ⟨rfl, rfl, rfl, fun _ => rfl⟩

theorem sameRecords_SetDelegatorWithdrawAddr (withdrawAddr : AccAddress) :
    SameRecords k (k.SetDelegatorWithdrawAddr v withdrawAddr) :=
  ⟨rfl, rfl, rfl, fun _ => rfl⟩

theorem sameRecords_AddCoins {addr : AccAddress} {amt : Coins} {k' : Keeper}
    (h : k.AddCoins addr amt = .ok k') : SameRecords k k' := by
  unfold AddCoins at h
  obtain ⟨⟨_, accounts⟩, -, h⟩ := Except.bind_eq_ok.mp h
  cases h
  exact ⟨rfl, rfl, rfl, fun _ => rfl⟩

@[simp] theorem currentPeriod_SetValidatorCurrentRewards (rewards : ValidatorCurrentRewards)
    (w : ValAddress) : (k.SetValidatorCurrentRewards v rewards).currentPeriod w =
      if w = v then some rewards.period else k.currentPeriod w := by
  unfold currentPeriod SetValidatorCurrentRewards State.SetValidatorCurrentRewards
  rw [SortedMap.get?_insert]
  split_ifs <;> rfl

@[simp] theorem currentPeriod_DeleteValidatorCurrentRewards (w : ValAddress) :
    (k.DeleteValidatorCurrentRewards v).currentPeriod w =
      if w = v then none else k.currentPeriod w := by
  unfold currentPeriod DeleteValidatorCurrentRewards
  rw [SortedMap.get?_erase]
  split_ifs <;> rfl

@[simp] theorem currentPeriod_SetValidatorHistoricalRewards (p : ℕ) (r : ValidatorHistoricalRewards)
    (w : ValAddress) : (k.SetValidatorHistoricalRewards v p r).currentPeriod w = k.currentPeriod w :=
  rfl

@[simp] theorem currentPeriod_SetDelegatorStartingInfo (d : AccAddress) (info : DelegatorStartingInfo)
    (w : ValAddress) : (k.SetDelegatorStartingInfo v d info).currentPeriod w = k.currentPeriod w :=
  rfl

@[simp] theorem currentPeriod_SetValidatorSlashEvent (height : ℕ) (event : ValidatorSlashEvent)
    (w : ValAddress) : (k.SetValidatorSlashEvent v height event).currentPeriod w = k.currentPeriod w :=
  rfl

@[simp] theorem currentPeriod_DeleteDelegatorStartingInfo (d : AccAddress) (w : ValAddress) :
    (k.DeleteDelegatorStartingInfo v d).currentPeriod w = k.currentPeriod w :=
  rfl

@[simp] theorem currentPeriod_DeleteValidatorSlashEvents (w : ValAddress) :
    (k.DeleteValidatorSlashEvents v).currentPeriod w = k.currentPeriod w :=
  rfl

@[simp] theorem currentPeriod_DeleteValidatorHistoricalRewards (w : ValAddress) :
    (k.DeleteValidatorHistoricalRewards v).currentPeriod w = k.currentPeriod w :=
  rfl

@[simp] theorem currentPeriod_initializeValidator (val : Staking.Validator) (w : ValAddress) :
    (k.initializeValidator val).currentPeriod w =
      if w = val.operatorAddress then some 1 else k.currentPeriod w :=
  currentPeriod_SetValidatorCurrentRewards _ _ _ _

end Setters

section Getters

variable {k : Keeper} {v : ValAddress}

theorem GetValidatorHistoricalRewards_eq_ok {p : ℕ} {r : ValidatorHistoricalRewards} :
    k.GetValidatorHistoricalRewards v p = .ok r ↔
      k.validatorHistoricalRewards.get? (toLex (v, p)) = some r := by
  unfold GetValidatorHistoricalRewards
  cases k.validatorHistoricalRewards.get? (toLex (v, p)) with
  | none => exact ⟨(fun h => by cases h), fun h => by cases h⟩
  | some r => exact ⟨(fun h => by cases h; rfl), fun h => by cases h; rfl⟩

theorem GetDelegatorStartingInfo_eq_ok {d : AccAddress} {info : DelegatorStartingInfo} :
    k.GetDelegatorStartingInfo v d = .ok info ↔
      k.delegatorStartingInfo.get? (toLex (v, d)) = some info := by
  unfold GetDelegatorStartingInfo
  cases k.delegatorStartingInfo.get? (toLex (v, d)) with
  | none => exact ⟨(fun h => by cases h), fun h => by cases h⟩
  | some r => exact ⟨(fun h => by cases h; rfl), fun h => by cases h; rfl⟩

end Getters

theorem stakingValidator_eq_ok {sk : Staking.State} {v : ValAddress} {val : Staking.Validator} :
    stakingValidator sk v = .ok val ↔ sk.GetValidator v = some val := by
  unfold stakingValidator
  cases sk.GetValidator v with
  | none => exact ⟨(fun h => by cases h), fun h => by cases h⟩
  | some r => exact ⟨(fun h => by cases h; rfl), fun h => by cases h; rfl⟩

theorem stakingDelegation_eq_ok {sk : Staking.State} {d : AccAddress} {v : ValAddress}
    {del : Staking.Delegation} :
    stakingDelegation sk d v = .ok del ↔ sk.GetDelegation d v = some del := by
  unfold stakingDelegation
  cases sk.GetDelegation d v with
  | none => exact ⟨(fun h => by cases h), fun h => by cases h⟩
  | some r => exact ⟨(fun h => by cases h; rfl), fun h => by cases h; rfl⟩

/-! ### Reference counts and periods -/

section Operations

variable {k k' : Keeper} {v : ValAddress}

theorem incrementReferenceCount_eq_ok {p : ℕ} (h : k.incrementReferenceCount v p = .ok k') :
    ∃ r, k.validatorHistoricalRewards.get? (toLex (v, p)) = some r ∧ r.referenceCount ≤ 2 ∧
      k' = k.SetValidatorHistoricalRewards v p { r with referenceCount := r.referenceCount + 1 } := by
  unfold incrementReferenceCount at h
  obtain ⟨r, hr, h⟩ := Except.bind_eq_ok.mp h
  refine ⟨r, GetValidatorHistoricalRewards_eq_ok.mp hr, ?_⟩
  split_ifs at h with hc
  · cases h
  · cases h
    exact ⟨not_lt.mp hc, rfl⟩

theorem decrementReferenceCount_eq_ok {p : ℕ} (h : k.decrementReferenceCount v p = .ok k') :
    ∃ r, k.validatorHistoricalRewards.get? (toLex (v, p)) = some r ∧ 0 < r.referenceCount ∧
      k' = if r.referenceCount = 1 then k.DeleteValidatorHistoricalReward v p
        else k.SetValidatorHistoricalRewards v p { r with referenceCount := r.referenceCount - 1 } := by
  unfold decrementReferenceCount at h
  obtain ⟨r, hr, h⟩ := Except.bind_eq_ok.mp h
  refine ⟨r, GetValidatorHistoricalRewards_eq_ok.mp hr, ?_⟩
  split_ifs at h with hc
  · cases h
  · dsimp only at h
    refine ⟨Nat.pos_of_ne_zero hc, ?_⟩
    split_ifs at h with h1 <;> cases h
    · rw [if_pos (by omega)]
    · rw [if_neg (by omega)]

/-- The ratio of a period changes no record. -/
theorem currentRatio_sameRecords {val : Staking.Validator} {rewards : ValidatorCurrentRewards}
    {current : DecCoins} (h : k.currentRatio val rewards = .ok (k', current)) : SameRecords k k' := by
  unfold currentRatio at h
  split_ifs at h
  · obtain ⟨feePool, -, h⟩ := Except.bind_eq_ok.mp h
    obtain ⟨outstanding, -, h⟩ := Except.bind_eq_ok.mp h
    obtain ⟨outstanding', -, h⟩ := Except.bind_eq_ok.mp h
    cases h
    exact (sameRecords_SetFeePool k _).trans (sameRecords_SetValidatorOutstandingRewards _ _ _)
  · obtain ⟨_, -, h⟩ := Except.bind_eq_ok.mp h
    cases h
    exact SameRecords.refl k

/-- `incrementValidatorPeriod`: the period `c` of the current rewards ends; the record of
`c - 1` is released, a record for `c` with one reference is set, and the current rewards go on
from `c + 1`. -/
theorem incrementValidatorPeriod_eq_ok {val : Staking.Validator} {ended : ℕ}
    (h : k.incrementValidatorPeriod val = .ok (k', ended)) :
    ∃ rewards k₁ r k₂ current,
      k.validatorCurrentRewards.get? val.operatorAddress = some rewards ∧ ended = rewards.period ∧
      k.currentRatio val rewards = .ok (k₁, current) ∧
      k₁.validatorHistoricalRewards.get? (toLex (val.operatorAddress, rewards.period - 1)) = some r ∧
      k₁.decrementReferenceCount val.operatorAddress (rewards.period - 1) = .ok k₂ ∧
      k' = (k₂.SetValidatorHistoricalRewards val.operatorAddress rewards.period
        ⟨r.cumulativeRewardRatio.Add current, 1⟩).SetValidatorCurrentRewards val.operatorAddress
        ⟨[], rewards.period + 1⟩ := by
  unfold incrementValidatorPeriod at h
  obtain ⟨rewards, hrewards, h⟩ := Except.bind_eq_ok.mp h
  obtain ⟨⟨k₁, current⟩, hk₁, h⟩ := Except.bind_eq_ok.mp h
  obtain ⟨r, hr, h⟩ := Except.bind_eq_ok.mp h
  obtain ⟨k₂, hk₂, h⟩ := Except.bind_eq_ok.mp h
  cases h
  exact ⟨rewards, k₁, r, k₂, current, (State.GetValidatorCurrentRewards_eq_ok _ _).mp hrewards, rfl, hk₁,
    GetValidatorHistoricalRewards_eq_ok.mp hr, hk₂, rfl⟩

/-- `updateValidatorSlashFraction`'s branch: with an event at the height already, nothing
changes; without one, the validator's period ends and the ended period gains a reference. -/
theorem slashedPeriod_eq_ok {sk : Staking.State} {height ended ended' : ℕ} {fraction : Dec}
    (h : k.slashedPeriod sk height v ended = .ok (k', fraction, ended')) :
    (∃ e, k.validatorSlashEvents.get? (toLex (v, height)) = some e ∧ k' = k) ∨
    (k.validatorSlashEvents.get? (toLex (v, height)) = none ∧ ∃ val k₁,
      sk.GetValidator v = some val ∧ k.incrementValidatorPeriod val = .ok (k₁, ended') ∧
      k₁.incrementReferenceCount v ended' = .ok k') := by
  unfold slashedPeriod at h
  split at h
  · rename_i current hcurrent
    cases h
    exact .inl ⟨current, hcurrent, rfl⟩
  · rename_i hnone
    obtain ⟨val, hval, h⟩ := Except.bind_eq_ok.mp h
    obtain ⟨⟨k₁, e⟩, h₁, h⟩ := Except.bind_eq_ok.mp h
    obtain ⟨k₂, h₂, h⟩ := Except.bind_eq_ok.mp h
    cases h
    exact .inr ⟨hnone, val, k₁, stakingValidator_eq_ok.mp hval, h₁, h₂⟩

/-- `updateValidatorSlashFraction`: the validator has current rewards, and the event is set on
what the branch returned. -/
theorem updateValidatorSlashFraction_eq_ok {sk : Staking.State} {height : ℕ} {fraction : Dec}
    (h : k.updateValidatorSlashFraction sk height v fraction = .ok k') :
    ∃ rewards k₁ currentFraction ended updated,
      k.validatorCurrentRewards.get? v = some rewards ∧
      k.slashedPeriod sk height v (rewards.period - 1) = .ok (k₁, currentFraction, ended) ∧
      k' = k₁.SetValidatorSlashEvent v height ⟨ended, updated⟩ := by
  unfold updateValidatorSlashFraction at h
  split_ifs at h
  · cases h
  · obtain ⟨rewards, hrewards, h⟩ := Except.bind_eq_ok.mp h
    obtain ⟨⟨k₁, f, e⟩, h₁, h⟩ := Except.bind_eq_ok.mp h
    dsimp only at h
    split_ifs at h
    · cases h
    · cases h
      exact ⟨rewards, k₁, f, e, _, (State.GetValidatorCurrentRewards_eq_ok _ _).mp hrewards, h₁, rfl⟩

/-! ### Delegations -/

/-- `initializeDelegation`: the delegation's period, one less than the current one, gains a
reference, and the starting info is set. -/
theorem initializeDelegation_eq_ok {sk : Staking.State} {height : ℕ} {d : AccAddress}
    (h : k.initializeDelegation sk height v d = .ok k') :
    ∃ rewards k₁ val del stake,
      k.validatorCurrentRewards.get? v = some rewards ∧
      k.incrementReferenceCount v (rewards.period - 1) = .ok k₁ ∧
      sk.GetValidator v = some val ∧ sk.GetDelegation d v = some del ∧
      k' = k₁.SetDelegatorStartingInfo v d ⟨rewards.period - 1, stake, height⟩ := by
  unfold initializeDelegation at h
  obtain ⟨rewards, hrewards, h⟩ := Except.bind_eq_ok.mp h
  obtain ⟨k₁, hk₁, h⟩ := Except.bind_eq_ok.mp h
  obtain ⟨val, hval, h⟩ := Except.bind_eq_ok.mp h
  obtain ⟨del, hdel, h⟩ := Except.bind_eq_ok.mp h
  obtain ⟨stake, -, h⟩ := Except.bind_eq_ok.mp h
  cases h
  exact ⟨rewards, k₁, val, del, stake, (State.GetValidatorCurrentRewards_eq_ok _ _).mp hrewards,
    hk₁, stakingValidator_eq_ok.mp hval, stakingDelegation_eq_ok.mp hdel, rfl⟩

/-- `withdrawDelegationRewards`: the delegation has a starting info; the validator's period
ends, the starting period is released, coins move without changing a record, and the starting
info is deleted. -/
theorem withdrawDelegationRewards_eq_ok {height : ℕ} {val : Staking.Validator}
    {del : Staking.Delegation} {coins : Coins}
    (h : k.withdrawDelegationRewards height val del = .ok (k', coins)) :
    ∃ k₁ ended info k₂ k₃,
      (k.delegatorStartingInfo.get? (toLex (del.validatorAddress, del.delegatorAddress))).isSome ∧
      k.incrementValidatorPeriod val = .ok (k₁, ended) ∧
      k₁.delegatorStartingInfo.get? (toLex (del.validatorAddress, del.delegatorAddress)) = some info ∧
      k₁.decrementReferenceCount del.validatorAddress info.previousPeriod = .ok k₂ ∧
      SameRecords k₂ k₃ ∧ k' = k₃.DeleteDelegatorStartingInfo del.validatorAddress del.delegatorAddress := by
  unfold withdrawDelegationRewards at h
  split_ifs at h with hhas
  · cases h
  · obtain ⟨⟨k₁, ended⟩, h₁, h⟩ := Except.bind_eq_ok.mp h
    obtain ⟨_, -, h⟩ := Except.bind_eq_ok.mp h
    obtain ⟨outstanding, -, h⟩ := Except.bind_eq_ok.mp h
    obtain ⟨_, -, h⟩ := Except.bind_eq_ok.mp h
    obtain ⟨info, hinfo, h⟩ := Except.bind_eq_ok.mp h
    obtain ⟨k₂, h₂, h⟩ := Except.bind_eq_ok.mp h
    obtain ⟨⟨_, remainder⟩, -, h⟩ := Except.bind_eq_ok.mp h
    obtain ⟨outstanding', -, h⟩ := Except.bind_eq_ok.mp h
    obtain ⟨feePool, -, h⟩ := Except.bind_eq_ok.mp h
    -- the outstanding rewards and the fee pool change no record, nor does the payout
    have hsame : SameRecords k₂ ((k₂.SetValidatorOutstandingRewards del.validatorAddress outstanding').SetFeePool
        { feePool with communityPool := feePool.communityPool.Add remainder }) :=
      (sameRecords_SetValidatorOutstandingRewards _ _ _).trans (sameRecords_SetFeePool _ _)
    have hhas' : (k.delegatorStartingInfo.get? (toLex (del.validatorAddress, del.delegatorAddress))).isSome :=
      Option.isSome_iff_ne_none.2 (by simpa [HasDelegatorStartingInfo] using hhas)
    split_ifs at h
    · obtain ⟨k₃, h₃, h⟩ := Except.bind_eq_ok.mp h
      cases h
      exact ⟨k₁, ended, info, k₂, k₃, hhas', Abort.lift_eq_ok.mp h₁,
        GetDelegatorStartingInfo_eq_ok.mp (Abort.lift_eq_ok.mp hinfo), Abort.lift_eq_ok.mp h₂,
        hsame.trans (sameRecords_AddCoins _ h₃), rfl⟩
    · cases h
      exact ⟨k₁, ended, info, k₂, _, hhas', Abort.lift_eq_ok.mp h₁,
        GetDelegatorStartingInfo_eq_ok.mp (Abort.lift_eq_ok.mp hinfo), Abort.lift_eq_ok.mp h₂, hsame, rfl⟩

/-! ### The keeper's operations and the hooks -/

theorem SetWithdrawAddr_sameRecords {d w : AccAddress} (h : k.SetWithdrawAddr d w = .ok k') :
    SameRecords k k' := by
  unfold SetWithdrawAddr at h
  -- the refusal returns no store
  split_ifs at h
  cases h
  exact sameRecords_SetDelegatorWithdrawAddr _ _ _

theorem WithdrawValidatorCommission_sameRecords {coins : Coins}
    (h : k.WithdrawValidatorCommission v = .ok (k', coins)) : SameRecords k k' := by
  unfold WithdrawValidatorCommission at h
  dsimp only at h
  split_ifs at h
  · cases h
  · obtain ⟨⟨coins', remainder⟩, -, h⟩ := Except.bind_eq_ok.mp h
    obtain ⟨outstanding, -, h⟩ := Except.bind_eq_ok.mp h
    obtain ⟨F, -, h⟩ := Except.bind_eq_ok.mp h
    obtain ⟨outstanding', -, h⟩ := Except.bind_eq_ok.mp h
    have hsame : SameRecords k ((k.SetValidatorAccumulatedCommission v remainder).SetValidatorOutstandingRewards
        v outstanding') :=
      (sameRecords_SetValidatorAccumulatedCommission _ _ _).trans
        (sameRecords_SetValidatorOutstandingRewards _ _ _)
    split_ifs at h
    · obtain ⟨k₃, h₃, h⟩ := Except.bind_eq_ok.mp h
      cases h
      exact hsame.trans (sameRecords_AddCoins _ h₃)
    · cases h
      exact hsame

theorem WithdrawDelegationRewards_eq_ok {sk : Staking.State} {height : ℕ} {d : AccAddress}
    {coins : Coins} (h : k.WithdrawDelegationRewards sk height d v = .ok (k', coins)) :
    ∃ val del k₁, sk.GetValidator v = some val ∧ sk.GetDelegation d v = some del ∧
      k.withdrawDelegationRewards height val del = .ok (k₁, coins) ∧
      k₁.initializeDelegation sk height v d = .ok k' := by
  unfold WithdrawDelegationRewards at h
  split at h
  · rename_i val hval
    split at h
    · rename_i del hdel
      obtain ⟨⟨k₁, c⟩, h₁, h⟩ := Except.bind_eq_ok.mp h
      obtain ⟨k₂, h₂, h⟩ := Except.bind_eq_ok.mp h
      cases h
      exact ⟨val, del, k₁, hval, hdel, h₁, Abort.lift_eq_ok.mp h₂⟩
    · cases h
  · cases h

theorem AfterValidatorCreated_eq_ok {sk : Staking.State} (h : k.AfterValidatorCreated sk v = .ok k') :
    ∃ val, sk.GetValidator v = some val ∧ k' = k.initializeValidator val := by
  unfold AfterValidatorCreated at h
  obtain ⟨val, hval, h⟩ := Except.bind_eq_ok.mp h
  cases h
  exact ⟨val, stakingValidator_eq_ok.mp hval, rfl⟩

theorem forceWithdrawCommission_sameRecords {outstanding outstanding' : DecCoins}
    (h : k.forceWithdrawCommission v outstanding = .ok (k', outstanding')) : SameRecords k k' := by
  unfold forceWithdrawCommission at h
  dsimp only at h
  split_ifs at h
  · obtain ⟨o, -, h⟩ := Except.bind_eq_ok.mp h
    obtain ⟨⟨coins, remainder⟩, -, h⟩ := Except.bind_eq_ok.mp h
    obtain ⟨feePool, -, h⟩ := Except.bind_eq_ok.mp h
    dsimp only at h
    split_ifs at h
    · obtain ⟨k₁, hk₁, h⟩ := Except.bind_eq_ok.mp h
      cases h
      exact (sameRecords_SetFeePool k _).trans (sameRecords_AddCoins _ (Except.mapError_eq_ok.mp hk₁))
    · cases h
      exact sameRecords_SetFeePool k _
  · cases h
    exact SameRecords.refl k

/-- `AfterValidatorRemoved`: after moving coins, which changes no record, the validator's slash
events, historical and current rewards are deleted. -/
theorem AfterValidatorRemoved_eq_ok (h : k.AfterValidatorRemoved v = .ok k') :
    ∃ k₁, SameRecords k k₁ ∧
      k' = ((k₁.DeleteValidatorSlashEvents v).DeleteValidatorHistoricalRewards v).DeleteValidatorCurrentRewards v := by
  unfold AfterValidatorRemoved at h
  obtain ⟨outstanding, -, h⟩ := Except.bind_eq_ok.mp h
  obtain ⟨⟨k₁, o⟩, h₁, h⟩ := Except.bind_eq_ok.mp h
  obtain ⟨feePool, -, h⟩ := Except.bind_eq_ok.mp h
  cases h
  exact ⟨_, (((forceWithdrawCommission_sameRecords h₁).trans (sameRecords_SetFeePool _ _)).trans
    (sameRecords_DeleteValidatorOutstandingRewards _ _)).trans
    (sameRecords_DeleteValidatorAccumulatedCommission _ _), rfl⟩

theorem BeforeDelegationCreated_eq_ok {sk : Staking.State}
    (h : k.BeforeDelegationCreated sk v = .ok k') :
    ∃ val ended, sk.GetValidator v = some val ∧ k.incrementValidatorPeriod val = .ok (k', ended) := by
  unfold BeforeDelegationCreated at h
  obtain ⟨val, hval, h⟩ := Except.bind_eq_ok.mp h
  obtain ⟨⟨k₁, ended⟩, h₁, h⟩ := Except.bind_eq_ok.mp h
  cases h
  exact ⟨val, ended, stakingValidator_eq_ok.mp hval, h₁⟩

theorem BeforeDelegationSharesModified_eq_ok {sk : Staking.State} {height : ℕ} {d : AccAddress}
    (h : k.BeforeDelegationSharesModified sk height d v = .ok k') :
    ∃ val del coins, sk.GetValidator v = some val ∧ sk.GetDelegation d v = some del ∧
      k.withdrawDelegationRewards height val del = .ok (k', coins) := by
  unfold BeforeDelegationSharesModified at h
  obtain ⟨val, hval, h⟩ := Except.bind_eq_ok.mp h
  obtain ⟨del, hdel, h⟩ := Except.bind_eq_ok.mp h
  obtain ⟨⟨k₁, coins⟩, h₁, h⟩ := Except.bind_eq_ok.mp h
  cases h
  exact ⟨val, del, coins, stakingValidator_eq_ok.mp hval, stakingDelegation_eq_ok.mp hdel,
    Except.mapError_eq_ok.mp h₁⟩

end Operations

end Keeper

end CosmosSdk.Distribution
