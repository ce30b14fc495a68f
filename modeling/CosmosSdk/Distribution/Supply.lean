import CosmosSdk.Distribution.RewardsSpec
import CosmosSdk.Distribution.Blocks
import CosmosSdk.Bank.Conservation

/-!
# No coin is made or lost by the reward accounting

What the module holds of a denomination (its community pool, the validators' outstanding
rewards and the fees collected for it) with what the accounts hold of it is the `supply`.  The
F1 operations move funds between these and never make or lose a unit: the rewards of a
validator without tokens go from its outstanding rewards to the community pool, a withdrawal
takes its rewards off the outstanding ones and pays their whole coins to an account and their
change to the community pool, and a removed validator's commission and outstanding rewards go
the same ways.

* `supply`, `Conserves`: the funds of a store, and a move that keeps them over the outstanding
  rewards of the same validators, with the accounts kept filed;
* how each setter moves the supply, and `paid`: whole coins to an account and the change to the
  community pool are what was truncated;
* one lemma per operation of `Rewards`: `currentRatio`, `incrementValidatorPeriod`,
  `initializeDelegation`, `updateValidatorSlashFraction`, `withdrawDelegationRewards`,
  `WithdrawDelegationRewards`, `WithdrawValidatorCommission` and `SetWithdrawAddr` conserve;
  `initializeValidator` and `AfterValidatorRemoved` keep the supply while they add and delete
  a validator's outstanding rewards.
-/

namespace CosmosSdk.Distribution

namespace Keeper

/-- What the module holds of a denomination and what the accounts hold of it, in units of
`10^-18`. -/
def supply (k : Keeper) (d : String) : ℤ :=
  k.toState.holdings d + Bank.totalAmount k.accounts d * Dec.precisionReuse

/-- `k'` holds the funds of `k`, over the outstanding rewards of the same validators, with its
accounts filed. -/
structure Conserves (k k' : Keeper) : Prop where
  supply : ∀ d, k'.supply d = k.supply d
  outstanding : ∀ v, (k'.validatorOutstandingRewards.get? v).isSome =
    (k.validatorOutstandingRewards.get? v).isSome
  accounts : k'.accounts.WF

variable {k k' : Keeper}

theorem Conserves.refl (hwf : k.accounts.WF) : Conserves k k := ⟨fun _ => rfl, fun _ => rfl, hwf⟩

theorem Conserves.trans {k₁ k₂ k₃ : Keeper} (h : Conserves k₁ k₂) (h' : Conserves k₂ k₃) :
    Conserves k₁ k₃ :=
  ⟨fun d => (h'.supply d).trans (h.supply d), fun v => (h'.outstanding v).trans (h.outstanding v),
    h'.accounts⟩

/-- A store with the funds of `k`: its fee pool, outstanding rewards, collected fees and
accounts. -/
theorem Conserves.of_eq (hwf : k.accounts.WF) (hfee : k'.feePool = k.feePool)
    (hout : k'.validatorOutstandingRewards = k.validatorOutstandingRewards)
    (hcol : k'.collectedFees = k.collectedFees) (hacc : k'.accounts = k.accounts) : Conserves k k' where
  supply d := by
    simp only [Keeper.supply, State.holdings, State.communityOf, State.outstandingTotal, hfee, hout, hcol,
      hacc]
  outstanding v := by rw [hout]
  accounts := by
    rw [hacc]
    exact hwf

/-! ### How the setters move the supply -/

section Setters

variable (k) (v : ValAddress) (d : String)

theorem supply_SetValidatorOutstandingRewards (rewards : DecCoins) :
    (k.SetValidatorOutstandingRewards v rewards).supply d =
      k.supply d - k.outstandingOf v d + rewards.amount d := by
  have h := State.outstandingTotal_SetValidatorOutstandingRewards k.toState v d rewards
  simp only [supply, State.holdings]
  rw [show (k.SetValidatorOutstandingRewards v rewards).toState =
    k.toState.SetValidatorOutstandingRewards v rewards from rfl, h]
  simp only [State.communityOf, State.SetValidatorOutstandingRewards, SetValidatorOutstandingRewards]
  ring

theorem supply_DeleteValidatorOutstandingRewards :
    (k.DeleteValidatorOutstandingRewards v).supply d = k.supply d - k.outstandingOf v d := by
  have h := SortedMap.sum_erase_eq k.validatorOutstandingRewards (fun _ rewards => rewards.amount d) v
  simp only [supply, State.holdings, State.outstandingTotal, State.communityOf, State.outstandingOf,
    DeleteValidatorOutstandingRewards]
  rw [h]
  cases k.validatorOutstandingRewards.get? v with
  | none => simp
  | some rewards =>
    simp only [Option.elim_some, Option.getD_some]
    ring

theorem supply_SetFeePool (feePool : FeePool) :
    (k.SetFeePool feePool).supply d = k.supply d - k.communityOf d + feePool.communityPool.amount d := by
  simp only [supply, State.holdings, SetFeePool, State.communityOf_SetFeePool, State.outstandingTotal_SetFeePool]
  simp only [State.SetFeePool]
  ring

/-- Paying coins to an account raises the supply by them, and keeps the accounts filed. -/
theorem supply_AddCoins {addr : AccAddress} {amt : Coins} (hwf : k.accounts.WF)
    (h : k.AddCoins addr amt = .ok k') :
    k'.accounts.WF ∧ ∀ d, k'.supply d = k.supply d + Coins.amount amt d * Dec.precisionReuse := by
  unfold AddCoins at h
  obtain ⟨⟨coins, accounts⟩, hadd, h⟩ := Except.bind_eq_ok.mp h
  cases h
  obtain ⟨hwf', -, -, htotal⟩ := Bank.addCoins_spec hwf hadd
  refine ⟨hwf', fun d => ?_⟩
  simp only [supply, htotal]
  ring

end Setters

/-! ### The operations -/

section Operations

variable {v : ValAddress}

theorem incrementReferenceCount_conserves (hwf : k.accounts.WF) {p : ℕ}
    (h : k.incrementReferenceCount v p = .ok k') : Conserves k k' := by
  obtain ⟨r, -, -, rfl⟩ := incrementReferenceCount_eq_ok h
  exact Conserves.of_eq hwf rfl rfl rfl rfl

theorem decrementReferenceCount_conserves (hwf : k.accounts.WF) {p : ℕ}
    (h : k.decrementReferenceCount v p = .ok k') : Conserves k k' := by
  obtain ⟨r, -, -, rfl⟩ := decrementReferenceCount_eq_ok h
  split_ifs <;> exact Conserves.of_eq hwf rfl rfl rfl rfl

/-- The rewards of a validator without tokens go from its outstanding rewards to the community
pool. -/
theorem currentRatio_conserves (hwf : k.accounts.WF) {val : Staking.Validator}
    {rewards : ValidatorCurrentRewards} {current : DecCoins}
    (h : k.currentRatio val rewards = .ok (k', current)) : Conserves k k' := by
  unfold currentRatio at h
  split_ifs at h
  · obtain ⟨feePool, hfp, h⟩ := Except.bind_eq_ok.mp h
    obtain ⟨outstanding, hout, h⟩ := Except.bind_eq_ok.mp h
    obtain ⟨outstanding', hsub, h⟩ := Except.bind_eq_ok.mp h
    cases h
    have hfp' := (State.GetFeePool_eq_ok _).mp hfp
    have hout' := (State.GetValidatorOutstandingRewards_eq_ok _ _).mp hout
    refine ⟨fun d => ?_, fun w => ?_, hwf⟩
    · have hcomm : k.communityOf d = feePool.communityPool.amount d := by
        simp [State.communityOf, hfp']
      have hold : (k.SetFeePool { feePool with communityPool := feePool.communityPool.Add rewards.rewards }).outstandingOf
          val.operatorAddress d = outstanding.amount d := by
        simp [State.outstandingOf, SetFeePool, State.SetFeePool, hout']
      rw [supply_SetValidatorOutstandingRewards, supply_SetFeePool, hold, DecCoins.amount_of_Sub_eq_ok hsub,
        hcomm, DecCoins.amount_Add]
      ring
    · exact SortedMap.isSome_get?_insert _ _ (Option.isSome_iff_exists.mpr ⟨_, hout'⟩) w
  · obtain ⟨_, -, h⟩ := Except.bind_eq_ok.mp h
    cases h
    exact Conserves.refl hwf

theorem incrementValidatorPeriod_conserves (hwf : k.accounts.WF) {val : Staking.Validator} {ended : ℕ}
    (h : k.incrementValidatorPeriod val = .ok (k', ended)) : Conserves k k' := by
  obtain ⟨rewards, k₁, r, k₂, current, -, -, hk₁, -, hk₂, rfl⟩ := incrementValidatorPeriod_eq_ok h
  have hc₁ := currentRatio_conserves hwf hk₁
  have hc₂ := decrementReferenceCount_conserves hc₁.accounts hk₂
  exact (hc₁.trans hc₂).trans (Conserves.of_eq hc₂.accounts rfl rfl rfl rfl)

theorem initializeDelegation_conserves (hwf : k.accounts.WF) {sk : Staking.State} {height : ℕ}
    {d : AccAddress} (h : k.initializeDelegation sk height v d = .ok k') : Conserves k k' := by
  obtain ⟨rewards, k₁, val, del, stake, -, hk₁, -, -, rfl⟩ := initializeDelegation_eq_ok h
  have hc₁ := incrementReferenceCount_conserves hwf hk₁
  exact hc₁.trans (Conserves.of_eq hc₁.accounts rfl rfl rfl rfl)

theorem updateValidatorSlashFraction_conserves (hwf : k.accounts.WF) {sk : Staking.State}
    {height : ℕ} {fraction : Dec} (h : k.updateValidatorSlashFraction sk height v fraction = .ok k') :
    Conserves k k' := by
  obtain ⟨rewards, k₁, f, ended, updated, -, hk₁, rfl⟩ := updateValidatorSlashFraction_eq_ok h
  have hc₁ : Conserves k k₁ := by
    rcases slashedPeriod_eq_ok hk₁ with ⟨e, -, rfl⟩ | ⟨-, val, k₂, -, hk₂, hk₁'⟩
    · exact Conserves.refl hwf
    · have hc₂ := incrementValidatorPeriod_conserves hwf hk₂
      exact hc₂.trans (incrementReferenceCount_conserves hc₂.accounts hk₁')
  exact hc₁.trans (Conserves.of_eq hc₁.accounts rfl rfl rfl rfl)

/-- Whole coins paid to an account, unless there are none: the supply rises by them. -/
theorem supply_payCoins {addr : AccAddress} {coins : Coins} {k'' : Keeper}
    (h : (if !coins.IsZero then k.AddCoins addr coins else pure k) = .ok k'') (hwf : k.accounts.WF) :
    k''.accounts.WF ∧ k''.validatorOutstandingRewards = k.validatorOutstandingRewards ∧
      ∀ d, k''.supply d = k.supply d + Coins.amount coins d * Dec.precisionReuse := by
  split_ifs at h with hz
  · obtain ⟨hwf', hsupply⟩ := supply_AddCoins k hwf h
    refine ⟨hwf', ?_, hsupply⟩
    unfold AddCoins at h
    obtain ⟨_, -, h⟩ := Except.bind_eq_ok.mp h
    cases h
    rfl
  · cases h
    -- no coins: nothing of any denomination
    have hzero : ∀ d, Coins.amount coins d = 0 := fun d =>
      Coins.amount_eq_zero_of_IsZero d (by simpa using hz)
    exact ⟨hwf, rfl, fun d => by rw [hzero, zero_mul, add_zero]⟩

/-- A withdrawal takes its rewards off the validator's outstanding ones, and pays their whole
coins to the withdraw address and their change to the community pool. -/
theorem withdrawDelegationRewards_conserves (hwf : k.accounts.WF) {height : ℕ}
    {val : Staking.Validator} {del : Staking.Delegation} {coins : Coins}
    (h : k.withdrawDelegationRewards height val del = .ok (k', coins)) : Conserves k k' := by
  unfold withdrawDelegationRewards at h
  split_ifs at h
  · cases h
  · obtain ⟨⟨k₁, ended⟩, h₁, h⟩ := Except.bind_eq_ok.mp h
    obtain ⟨_, -, h⟩ := Except.bind_eq_ok.mp h
    obtain ⟨outstanding, hout, h⟩ := Except.bind_eq_ok.mp h
    obtain ⟨_, -, h⟩ := Except.bind_eq_ok.mp h
    obtain ⟨info, -, h⟩ := Except.bind_eq_ok.mp h
    obtain ⟨k₂, h₂, h⟩ := Except.bind_eq_ok.mp h
    obtain ⟨⟨t, remainder⟩, htrunc, h⟩ := Except.bind_eq_ok.mp h
    obtain ⟨outstanding', hsub, h⟩ := Except.bind_eq_ok.mp h
    obtain ⟨feePool, hfp, h⟩ := Except.bind_eq_ok.mp h
    dsimp only at h
    -- the coins paid, unless there are none, and the starting info deleted
    obtain ⟨k₃, h₃, rfl⟩ : ∃ k₃, (if !t.IsZero then
        ((k₂.SetValidatorOutstandingRewards del.validatorAddress outstanding').SetFeePool
          { feePool with communityPool := feePool.communityPool.Add remainder }).AddCoins
          (k₂.GetDelegatorWithdrawAddr del.delegatorAddress) t
        else pure ((k₂.SetValidatorOutstandingRewards del.validatorAddress outstanding').SetFeePool
          { feePool with communityPool := feePool.communityPool.Add remainder })) = .ok k₃ ∧
        k' = k₃.DeleteDelegatorStartingInfo del.validatorAddress del.delegatorAddress := by
      split_ifs at h ⊢
      · obtain ⟨k₃, h₃, h⟩ := Except.bind_eq_ok.mp h
        cases h
        exact ⟨k₃, h₃, rfl⟩
      · cases h
        exact ⟨_, rfl, rfl⟩
    have hc₁ := incrementValidatorPeriod_conserves hwf (Abort.lift_eq_ok.mp h₁)
    obtain ⟨r, -, -, hk₂⟩ := decrementReferenceCount_eq_ok (Abort.lift_eq_ok.mp h₂)
    have hc₂ := decrementReferenceCount_conserves hc₁.accounts (Abort.lift_eq_ok.mp h₂)
    have hout₂ : k₂.validatorOutstandingRewards.get? del.validatorAddress = some outstanding := by
      rw [hk₂]
      split_ifs <;> exact (State.GetValidatorOutstandingRewards_eq_ok _ _).mp (Abort.lift_eq_ok.mp hout)
    have hfp₂ : k₂.feePool = some feePool := (State.GetFeePool_eq_ok _).mp (Abort.lift_eq_ok.mp hfp)
    obtain ⟨hwf₃, hout₃, hsupply₃⟩ := supply_payCoins h₃ hc₂.accounts
    -- what the truncation split, and what the subtraction left
    have hsplit := DecCoins.amount_of_TruncateDecimal_eq_ok (Abort.lift_eq_ok.mp htrunc)
    have hleft := DecCoins.amount_of_Sub_eq_ok (Abort.lift_eq_ok.mp hsub)
    refine (hc₁.trans hc₂).trans ⟨fun d => ?_, fun w => ?_, hwf₃⟩
    · have hcomm : (k₂.SetValidatorOutstandingRewards del.validatorAddress outstanding').communityOf d =
          feePool.communityPool.amount d := by
        simp [State.communityOf, SetValidatorOutstandingRewards, State.SetValidatorOutstandingRewards, hfp₂]
      have hold : k₂.outstandingOf del.validatorAddress d = outstanding.amount d := by
        simp [State.outstandingOf, hout₂]
      show k₃.supply d = k₂.supply d
      rw [hsupply₃, supply_SetFeePool, supply_SetValidatorOutstandingRewards, hold, hcomm, DecCoins.amount_Add]
      linarith [hsplit d, hleft d]
    · show (k₃.validatorOutstandingRewards.get? w).isSome = (k₂.validatorOutstandingRewards.get? w).isSome
      rw [hout₃]
      exact SortedMap.isSome_get?_insert _ _ (Option.isSome_iff_exists.mpr ⟨_, hout₂⟩) w

theorem WithdrawDelegationRewards_conserves (hwf : k.accounts.WF) {sk : Staking.State} {height : ℕ}
    {d : AccAddress} {coins : Coins} (h : k.WithdrawDelegationRewards sk height d v = .ok (k', coins)) :
    Conserves k k' := by
  obtain ⟨val, del, k₁, -, -, hw, hk'⟩ := WithdrawDelegationRewards_eq_ok h
  have hc₁ := withdrawDelegationRewards_conserves hwf hw
  exact hc₁.trans (initializeDelegation_conserves hc₁.accounts hk')

/-- The whole coins of the commission leave the outstanding rewards for the withdraw address;
the change stays as commission. -/
theorem WithdrawValidatorCommission_conserves (hwf : k.accounts.WF) {coins : Coins}
    (h : k.WithdrawValidatorCommission v = .ok (k', coins)) : Conserves k k' := by
  unfold WithdrawValidatorCommission at h
  dsimp only at h
  split_ifs at h
  · cases h
  · obtain ⟨⟨t, remainder⟩, -, h⟩ := Except.bind_eq_ok.mp h
    obtain ⟨outstanding, hout, h⟩ := Except.bind_eq_ok.mp h
    obtain ⟨F, hF, h⟩ := Except.bind_eq_ok.mp h
    obtain ⟨outstanding', hsub, h⟩ := Except.bind_eq_ok.mp h
    obtain ⟨k₃, h₃, rfl⟩ : ∃ k₃, (if !t.IsZero then
        ((k.SetValidatorAccumulatedCommission v remainder).SetValidatorOutstandingRewards v outstanding').AddCoins
          (k.GetDelegatorWithdrawAddr v) t
        else pure ((k.SetValidatorAccumulatedCommission v remainder).SetValidatorOutstandingRewards v
          outstanding')) = .ok k₃ ∧ k' = k₃ := by
      split_ifs at h ⊢
      · obtain ⟨k₃, h₃, h⟩ := Except.bind_eq_ok.mp h
        cases h
        exact ⟨_, h₃, rfl⟩
      · cases h
        exact ⟨_, rfl, rfl⟩
    have hout' : k.validatorOutstandingRewards.get? v = some outstanding :=
      (State.GetValidatorOutstandingRewards_eq_ok _ _).mp (Abort.lift_eq_ok.mp hout)
    obtain ⟨hwf₃, hout₃, hsupply₃⟩ := supply_payCoins h₃ hwf
    -- the coins taken off the outstanding rewards are the coins paid
    have hpaid : ∀ d, F.amount d = Coins.amount t d * Dec.precisionReuse := fun d => by
      rw [DecCoins.eq_map_of_NewDecCoins_eq_ok (Abort.lift_eq_ok.mp hF), DecCoins.amount_map_ofInt]
    have hleft := DecCoins.amount_of_Sub_eq_ok (Abort.lift_eq_ok.mp hsub)
    refine ⟨fun d => ?_, fun w => ?_, hwf₃⟩
    · have hold : (k.SetValidatorAccumulatedCommission v remainder).outstandingOf v d = outstanding.amount d := by
        simp [State.outstandingOf, SetValidatorAccumulatedCommission, State.SetValidatorAccumulatedCommission,
          hout']
      rw [hsupply₃, supply_SetValidatorOutstandingRewards, hold]
      show k.supply d - _ + _ + _ = k.supply d
      linarith [hpaid d, hleft d]
    · rw [hout₃]
      exact SortedMap.isSome_get?_insert _ _ (Option.isSome_iff_exists.mpr ⟨_, hout'⟩) w

theorem SetWithdrawAddr_conserves (hwf : k.accounts.WF) {d w : AccAddress}
    (h : k.SetWithdrawAddr d w = .ok k') : Conserves k k' := by
  unfold SetWithdrawAddr at h
  split_ifs at h
  cases h
  exact Conserves.of_eq hwf rfl rfl rfl rfl

theorem outstanding_initializeValidator (val : Staking.Validator) :
    (k.initializeValidator val).validatorOutstandingRewards =
      k.validatorOutstandingRewards.insert val.operatorAddress [] :=
  rfl

/-- A new validator's outstanding rewards start empty: with none stored before, the supply
stays. -/
theorem supply_initializeValidator {val : Staking.Validator}
    (hnone : k.validatorOutstandingRewards.get? val.operatorAddress = none) (d : String) :
    (k.initializeValidator val).supply d = k.supply d := by
  unfold initializeValidator
  rw [supply_SetValidatorOutstandingRewards]
  have hzero : ((((k.SetValidatorHistoricalRewards val.operatorAddress 0 ⟨[], 1⟩).SetValidatorCurrentRewards
      val.operatorAddress ⟨[], 1⟩).SetValidatorAccumulatedCommission val.operatorAddress [])).outstandingOf
        val.operatorAddress d = 0 := by
    simp [State.outstandingOf, SetValidatorAccumulatedCommission, State.SetValidatorAccumulatedCommission,
      SetValidatorCurrentRewards, State.SetValidatorCurrentRewards, SetValidatorHistoricalRewards, hnone]
  rw [hzero, DecCoins.amount_nil, sub_zero, add_zero]
  rfl

/-- The commission `AfterValidatorRemoved` force-withdraws leaves the outstanding rewards in
hand, its whole coins go to the withdraw address and its change to the community pool. -/
theorem supply_forceWithdrawCommission (hwf : k.accounts.WF) {outstanding outstanding' : DecCoins}
    (h : k.forceWithdrawCommission v outstanding = .ok (k', outstanding')) :
    k'.accounts.WF ∧ k'.validatorOutstandingRewards = k.validatorOutstandingRewards ∧
      ∀ d, k'.supply d + outstanding'.amount d = k.supply d + outstanding.amount d := by
  unfold forceWithdrawCommission at h
  dsimp only at h
  split_ifs at h
  · obtain ⟨o, hsub, h⟩ := Except.bind_eq_ok.mp h
    obtain ⟨⟨t, remainder⟩, htrunc, h⟩ := Except.bind_eq_ok.mp h
    obtain ⟨feePool, hfp, h⟩ := Except.bind_eq_ok.mp h
    dsimp only at h
    obtain ⟨k₃, h₃, rfl, rfl⟩ : ∃ k₃, (if !t.IsZero then
        (k.SetFeePool { feePool with communityPool := feePool.communityPool.Add remainder }).AddCoins
          (k.GetDelegatorWithdrawAddr v) t
        else pure (k.SetFeePool { feePool with communityPool := feePool.communityPool.Add remainder })) =
          .ok k₃ ∧ k' = k₃ ∧ outstanding' = o := by
      split_ifs at h ⊢
      · obtain ⟨k₃, h₃, h⟩ := Except.bind_eq_ok.mp h
        cases h
        exact ⟨_, Except.mapError_eq_ok.mp h₃, rfl, rfl⟩
      · cases h
        exact ⟨_, rfl, rfl, rfl⟩
    obtain ⟨hwf₃, hout₃, hsupply₃⟩ := supply_payCoins h₃ hwf
    have hcomm : k.communityOf = fun d => feePool.communityPool.amount d := by
      funext d
      simp [State.communityOf, (State.GetFeePool_eq_ok _).mp hfp]
    have hsplit := DecCoins.amount_of_TruncateDecimal_eq_ok htrunc
    have hleft := DecCoins.amount_of_Sub_eq_ok hsub
    refine ⟨hwf₃, hout₃, fun d => ?_⟩
    rw [hsupply₃, supply_SetFeePool, hcomm, DecCoins.amount_Add]
    linarith [hsplit d, hleft d]
  · cases h
    exact ⟨hwf, rfl, fun _ => rfl⟩

/-- `AfterValidatorRemoved` deletes the validator's outstanding rewards and keeps the supply:
what was left of them, after the commission, goes to the community pool. -/
theorem supply_AfterValidatorRemoved (hwf : k.accounts.WF) (h : k.AfterValidatorRemoved v = .ok k') :
    k'.accounts.WF ∧ k'.validatorOutstandingRewards = k.validatorOutstandingRewards.erase v ∧
      ∀ d, k'.supply d = k.supply d := by
  unfold AfterValidatorRemoved at h
  obtain ⟨outstanding, hout, h⟩ := Except.bind_eq_ok.mp h
  obtain ⟨⟨k₁, o⟩, h₁, h⟩ := Except.bind_eq_ok.mp h
  obtain ⟨feePool, hfp, h⟩ := Except.bind_eq_ok.mp h
  cases h
  obtain ⟨hwf₁, hout₁, hsupply₁⟩ := supply_forceWithdrawCommission hwf h₁
  have hout' : k₁.validatorOutstandingRewards.get? v = some outstanding := by
    rw [hout₁]
    exact (State.GetValidatorOutstandingRewards_eq_ok _ _).mp hout
  have hcomm : k₁.communityOf = fun d => feePool.communityPool.amount d := by
    funext d
    simp [State.communityOf, (State.GetFeePool_eq_ok _).mp hfp]
  refine ⟨hwf₁, by rw [← hout₁]; rfl, fun d => ?_⟩
  have hold : (k₁.SetFeePool { feePool with communityPool := feePool.communityPool.Add o }).outstandingOf v d =
      outstanding.amount d := by
    simp [State.outstandingOf, SetFeePool, State.SetFeePool, hout']
  show (((k₁.SetFeePool _).DeleteValidatorOutstandingRewards v)).supply d = k.supply d
  rw [supply_DeleteValidatorOutstandingRewards, hold, supply_SetFeePool, hcomm, DecCoins.amount_Add]
  linarith [hsupply₁ d]

end Operations

/-! ### Fees and blocks -/

/-- A fee collected for the next block raises the supply by the fee. -/
theorem supply_AddCollectedFees (k : Keeper) (fee : Coins) (d : String) :
    ({ k with toState := k.toState.AddCollectedFees fee } : Keeper).supply d =
      k.supply d + Coins.amount fee d * Dec.precisionReuse := by
  simp only [supply, State.holdings_AddCollectedFees]
  ring

/-- A block's beginning moves the fees collected to the community pool and the outstanding
rewards of the validators that have them: the supply stays, over the same validators. -/
theorem conserves_BeginBlocker (hwf : k.accounts.WF) {view : StakingKeeper} {blockHeight : ℤ}
    {proposerAddress : ConsAddress} {votes : List VoteInfo} {s' : State}
    (h : State.BeginBlocker view k.toState blockHeight proposerAddress votes = .ok s') :
    Conserves k { k with toState := s' } where
  supply d := by
    simp only [supply, State.BeginBlocker_holdings h d]
  outstanding v := by
    obtain ⟨s₁, rfl, hs₁⟩ := State.BeginBlocker_eq_ok h
    show (s₁.validatorOutstandingRewards.get? v).isSome = _
    split_ifs at hs₁
    · exact hs₁.outstanding_isSome v
    · rw [hs₁]
  accounts := hwf

end Keeper

end CosmosSdk.Distribution
