import CosmosSdk.Distribution.Hooks

/-!
# The hooks return

The staking keeper calls the distribution hooks in the middle of its own operations, and a
panic in a hook stops the chain.  Each hook reads records that an earlier hook wrote: the current
rewards of the validator, the historical record of the period it ended last, the reference
count of the period a delegation starts after.  On a sound store these reads succeed, and so do
the checks on them.

* `decrementReferenceCount_returns`, `incrementReferenceCount_returns`: a stored record with a
  reference can be released, one with at most two can gain one.
* `incrementValidatorPeriod_returns`: on a store that keeps `Ledger` and `Held`, the period of a
  validator with current rewards and tokens ends without a panic.
* `initializeDelegation_returns`: on a store that also keeps `Bounded`, a delegation of a stored
  validator with shares gets its starting info.
* `delegate_enabled_of_reachable`: on every state reachable from genesis, delegating to a
  stored validator with tokens is never stopped by the hooks it calls.

A validator without tokens pays its period's rewards to the community pool out of its
outstanding rewards, which needs the outstanding rewards to cover the current ones; that branch
is not covered here.
-/

namespace CosmosSdk.Distribution

namespace Keeper

variable {k k' : Keeper} {v : ValAddress}

/-! ### Reference counts -/

theorem decrementReferenceCount_returns {p : ℕ} {r : ValidatorHistoricalRewards}
    (hr : k.validatorHistoricalRewards.get? (toLex (v, p)) = some r) (hpos : 0 < r.referenceCount) :
    ∃ k', k.decrementReferenceCount v p = .ok k' := by
  unfold decrementReferenceCount
  rw [GetValidatorHistoricalRewards_eq_ok.mpr hr, Except.ok_bind, if_neg hpos.ne']
  dsimp only
  split_ifs
  · exact ⟨_, rfl⟩
  · exact ⟨_, rfl⟩

theorem incrementReferenceCount_returns {p : ℕ} {r : ValidatorHistoricalRewards}
    (hr : k.validatorHistoricalRewards.get? (toLex (v, p)) = some r) (hle : r.referenceCount ≤ 2) :
    k.incrementReferenceCount v p =
      .ok (k.SetValidatorHistoricalRewards v p { r with referenceCount := r.referenceCount + 1 }) := by
  unfold incrementReferenceCount
  rw [GetValidatorHistoricalRewards_eq_ok.mpr hr, Except.ok_bind, if_neg (not_lt.mpr hle)]
  rfl

/-- A record with a holder on a store that keeps `Held` and `Bounded` is stored with a
reference, and with room for one more. -/
theorem bounded_record_of_holder (hH : Held k) (hB : Bounded k) {p : ℕ} (h : 1 ≤ k.holdersOf v p) :
    ∃ r, k.validatorHistoricalRewards.get? (toLex (v, p)) = some r ∧ 0 < r.referenceCount ∧
      r.referenceCount ≤ 2 := by
  obtain ⟨r, hr, hpos⟩ := hH.record_of_holder h
  have hle := hB v p
  simp only [countOf, hr, Option.elim_some] at hle
  exact ⟨r, hr, hpos, by exact_mod_cast hle⟩

/-- A validator with current rewards holds the record of the period it ended last. -/
theorem Ledger.holder_of_current (hL : Ledger k) {rewards : ValidatorCurrentRewards}
    (hrewards : k.validatorCurrentRewards.get? v = some rewards) :
    1 ≤ k.holdersOf v (rewards.period - 1) := by
  have hc : k.currentPeriod v = some rewards.period := by simp [currentPeriod, hrewards]
  -- periods start at one, so the period is the successor of the one ended last
  have hsucc : rewards.period - 1 + 1 = rewards.period := Nat.sub_add_cancel (hL.period_pos v _ hc)
  exact one_le_holdersOf_of_currentPeriod (by rw [hsucc]; exact hc)

/-- A validator with a current period has current rewards. -/
theorem currentRewards_of_currentPeriod (hcur : (k.currentPeriod v).isSome) :
    ∃ rewards, k.validatorCurrentRewards.get? v = some rewards := by
  simpa [currentPeriod, Option.isSome_iff_exists] using hcur

/-- A validator the staking store holds has a current period. -/
theorem Linked.currentPeriod_isSome {sk : Staking.State} (hK : Linked k sk) {val : Staking.Validator}
    (hval : sk.GetValidator v = some val) : (k.currentPeriod v).isSome := by
  rw [hK.current, hval]
  rfl

/-! ### Ending a period -/

/-- The ratio of a validator with tokens divides by them and changes nothing. -/
theorem currentRatio_returns (k : Keeper) {val : Staking.Validator} (rewards : ValidatorCurrentRewards)
    (htokens : val.tokens ≠ 0) : ∃ current, k.currentRatio val rewards = .ok (k, current) := by
  have hd : (Dec.ofInt val.tokens).i ≠ 0 := mul_ne_zero htokens Dec.precisionReuse_pos.ne'
  unfold currentRatio
  rw [if_neg htokens, DecCoins.QuoDecTruncate_eq hd]
  exact ⟨_, rfl⟩

/-- On a store that keeps `Ledger` and `Held`, the period of a validator with current rewards
and tokens ends: the current rewards are read, the ratio is defined, and the record of the
period ended last is stored with a reference to release. -/
theorem incrementValidatorPeriod_returns (hL : Ledger k) (hH : Held k) {val : Staking.Validator}
    (hcur : (k.currentPeriod val.operatorAddress).isSome) (htokens : val.tokens ≠ 0) :
    ∃ k' ended, k.incrementValidatorPeriod val = .ok (k', ended) := by
  obtain ⟨rewards, hrewards⟩ := currentRewards_of_currentPeriod hcur
  obtain ⟨current, hratio⟩ := currentRatio_returns k rewards htokens
  obtain ⟨r, hr, hpos⟩ := hH.record_of_holder (hL.holder_of_current hrewards)
  obtain ⟨k₂, hk₂⟩ := decrementReferenceCount_returns hr hpos
  unfold incrementValidatorPeriod
  rw [(State.GetValidatorCurrentRewards_eq_ok _ _).mpr hrewards, Except.ok_bind, hratio, Except.ok_bind]
  dsimp only
  rw [GetValidatorHistoricalRewards_eq_ok.mpr hr, Except.ok_bind, hk₂, Except.ok_bind]
  exact ⟨_, _, rfl⟩

/-! ### Starting a delegation -/

/-- The stake of a delegation of a validator with shares. -/
theorem TokensFromSharesTruncated_returns {val : Staking.Validator} (shares : Dec)
    (hshares : val.delegatorShares.i ≠ 0) : ∃ stake, TokensFromSharesTruncated val shares = .ok stake := by
  unfold TokensFromSharesTruncated Dec.quoTruncate
  rw [if_neg hshares]
  exact ⟨_, rfl⟩

/-- On a store that keeps `Ledger`, `Held` and `Bounded`, a delegation the staking store holds,
of a validator with current rewards and shares, gets its starting info: the period it starts
after has a record with room for its reference. -/
theorem initializeDelegation_returns (hL : Ledger k) (hH : Held k) (hB : Bounded k)
    {sk : Staking.State} (height : ℕ) {d : AccAddress} {val : Staking.Validator}
    {del : Staking.Delegation} (hcur : (k.currentPeriod v).isSome) (hval : sk.GetValidator v = some val)
    (hdel : sk.GetDelegation d v = some del) (hshares : val.delegatorShares.i ≠ 0) :
    ∃ k', k.initializeDelegation sk height v d = .ok k' := by
  obtain ⟨rewards, hrewards⟩ := currentRewards_of_currentPeriod hcur
  obtain ⟨r, hr, -, hle⟩ := bounded_record_of_holder hH hB (hL.holder_of_current hrewards)
  obtain ⟨stake, hstake⟩ := TokensFromSharesTruncated_returns del.shares hshares
  unfold initializeDelegation
  rw [(State.GetValidatorCurrentRewards_eq_ok _ _).mpr hrewards, Except.ok_bind]
  dsimp only
  rw [incrementReferenceCount_returns hr hle, Except.ok_bind, stakingValidator_eq_ok.mpr hval, Except.ok_bind,
    stakingDelegation_eq_ok.mpr hdel, Except.ok_bind, hstake, Except.ok_bind]
  exact ⟨_, rfl⟩

/-! ### Slash fractions -/

/-- Every slash event records a fraction between zero and one, so that the stake a delegation
carries past it, multiplied by one minus the fraction, neither grows nor turns negative. -/
def Fractions (k : Keeper) : Prop :=
  ∀ v height e, k.validatorSlashEvents.get? (toLex (v, height)) = some e →
    0 ≤ e.fraction.i ∧ e.fraction.i ≤ Dec.precisionReuse

theorem Fractions.of_slashes (hF : Fractions k) (h : k'.validatorSlashEvents = k.validatorSlashEvents) :
    Fractions k' := by
  intro w height e he
  rw [h] at he
  exact hF w height e he

theorem incrementValidatorPeriod_slashes {val : Staking.Validator} {ended : ℕ}
    (h : k.incrementValidatorPeriod val = .ok (k', ended)) : k'.validatorSlashEvents = k.validatorSlashEvents := by
  obtain ⟨rewards, k₁, r, k₂, current, -, -, hk₁, -, hk₂, rfl⟩ := incrementValidatorPeriod_eq_ok h
  exact (decrementReferenceCount_moves hk₂).1.slashes.trans (currentRatio_sameRecords hk₁).slashes

theorem initializeDelegation_slashes {sk : Staking.State} {height : ℕ} {d : AccAddress}
    (h : k.initializeDelegation sk height v d = .ok k') : k'.validatorSlashEvents = k.validatorSlashEvents := by
  obtain ⟨rewards, k₁, val, del, stake, -, hk₁, -, -, rfl⟩ := initializeDelegation_eq_ok h
  exact (incrementReferenceCount_moves hk₁).1.slashes

theorem withdrawDelegationRewards_slashes {height : ℕ} {val : Staking.Validator} {del : Staking.Delegation}
    {coins : Coins} (h : k.withdrawDelegationRewards height val del = .ok (k', coins)) :
    k'.validatorSlashEvents = k.validatorSlashEvents := by
  obtain ⟨k₁, ended, info, k₂, k₃, -, hk₁, -, hk₂, hsame, rfl⟩ := withdrawDelegationRewards_eq_ok h
  exact hsame.slashes.trans ((decrementReferenceCount_moves hk₂).1.slashes.trans (incrementValidatorPeriod_slashes hk₁))

/-- The branch of a slash keeps the events and reads a fraction between zero and one: that of
the event at the height, or zero. -/
theorem Fractions.slashedPeriod (hF : Fractions k) {sk : Staking.State} {height ended ended' : ℕ}
    {f : Dec} (h : k.slashedPeriod sk height v ended = .ok (k', f, ended')) :
    k'.validatorSlashEvents = k.validatorSlashEvents ∧ 0 ≤ f.i ∧ f.i ≤ Dec.precisionReuse := by
  unfold Keeper.slashedPeriod at h
  split at h
  · rename_i e he
    cases h
    exact ⟨rfl, hF v height e he⟩
  · obtain ⟨val, -, h⟩ := Except.bind_eq_ok.mp h
    obtain ⟨⟨k₁, e⟩, h₁, h⟩ := Except.bind_eq_ok.mp h
    obtain ⟨k₂, h₂, h⟩ := Except.bind_eq_ok.mp h
    cases h
    exact ⟨(incrementReferenceCount_moves h₂).1.slashes.trans (incrementValidatorPeriod_slashes h₁), le_refl _,
      Dec.precisionReuse_pos.le⟩

/-- The fraction a slash records: one minus the product of what the earlier slashes of the height
and this one leave, truncated. -/
theorem updated_fraction_mem {f fraction : Dec} (hf : 0 ≤ f.i ∧ f.i ≤ Dec.precisionReuse)
    (hfraction : fraction.i ≤ Dec.precisionReuse) (hnonneg : 0 ≤ (Dec.one - (Dec.one - f).mulTruncate (Dec.one - fraction)).i) :
    0 ≤ (Dec.one - (Dec.one - f).mulTruncate (Dec.one - fraction)).i ∧
      (Dec.one - (Dec.one - f).mulTruncate (Dec.one - fraction)).i ≤ Dec.precisionReuse := by
  -- what the slashes leave is at least zero, as neither fraction exceeds one
  have hm := Dec.mulTruncate_nonneg (a := Dec.one - f) (b := Dec.one - fraction)
    (show 0 ≤ Dec.precisionReuse - f.i by omega) (show 0 ≤ Dec.precisionReuse - fraction.i by omega)
  refine ⟨hnonneg, ?_⟩
  show Dec.precisionReuse - ((Dec.one - f).mulTruncate (Dec.one - fraction)).i ≤ Dec.precisionReuse
  omega

/-- A slash records a fraction between zero and one: the code refuses a fraction above one and a
result below zero, and the fraction of the earlier slashes of the height is between zero and one. -/
theorem Fractions.updateValidatorSlashFraction (hF : Fractions k) {sk : Staking.State} {height : ℕ}
    {fraction : Dec} (h : k.updateValidatorSlashFraction sk height v fraction = .ok k') : Fractions k' := by
  unfold Keeper.updateValidatorSlashFraction at h
  split_ifs at h with hone
  · cases h
  · obtain ⟨rewards, -, h⟩ := Except.bind_eq_ok.mp h
    obtain ⟨⟨k₁, f, ended⟩, h₁, h⟩ := Except.bind_eq_ok.mp h
    obtain ⟨hslashes, hf⟩ := hF.slashedPeriod h₁
    dsimp only at h
    split_ifs at h with hneg
    · cases h
    · cases h
      have hmem := updated_fraction_mem hf (not_lt.mp hone) (not_lt.mp hneg)
      intro w q e he
      simp only [SetValidatorSlashEvent, SortedMap.get?_insert] at he
      split_ifs at he
      · cases he
        exact hmem
      · exact hF w q e (by rw [← hslashes]; exact he)

/-- The step lemma: only a slash writes an event, and a removed validator's events are deleted. -/
theorem Step.fractions {p p' : Keeper × Staking.State} {fees : List Coins} (hstep : Step p fees p')
    (hF : Fractions p.1) : Fractions p'.1 := by
  cases hstep with
  | createValidator val hnew hvals hdels h =>
    obtain ⟨val', -, rfl⟩ := AfterValidatorCreated_eq_ok h
    exact hF.of_slashes rfl
  | createDelegation height val del hnew h₁ hval hvals hdels h =>
    obtain ⟨val₀, ended, -, hk₁⟩ := BeforeDelegationCreated_eq_ok h₁
    exact hF.of_slashes ((initializeDelegation_slashes h).trans (incrementValidatorPeriod_slashes hk₁))
  | modifyDelegation height val del h₁ hval hvals hdels h =>
    obtain ⟨val₀, del₀, coins, -, -, hw⟩ := BeforeDelegationSharesModified_eq_ok h₁
    exact hF.of_slashes ((initializeDelegation_slashes h).trans (withdrawDelegationRewards_slashes hw))
  | removeDelegation height d val h hvals hdels =>
    obtain ⟨val₀, del₀, coins, -, -, hw⟩ := BeforeDelegationSharesModified_eq_ok h
    exact hF.of_slashes (withdrawDelegationRewards_slashes hw)
  | updateValidator val hold hvals hdels => exact hF
  | slash height v fraction h => exact hF.updateValidatorSlashFraction h
  | removeValidator v hold hnodel hvals hdels h =>
    obtain ⟨k₁, hsame, rfl⟩ := AfterValidatorRemoved_eq_ok h
    intro w q e he
    simp only [DeleteValidatorCurrentRewards, DeleteValidatorHistoricalRewards, DeleteValidatorSlashEvents,
      SortedMap.get?_filter] at he
    split_ifs at he
    exact hF w q e (by rw [← hsame.slashes]; exact he)
  | withdrawDelegatorReward height d v coins h =>
    obtain ⟨val, del, k₁, -, -, hw, hk'⟩ := WithdrawDelegationRewards_eq_ok h
    exact hF.of_slashes ((initializeDelegation_slashes hk').trans (withdrawDelegationRewards_slashes hw))
  | withdrawValidatorCommission v coins h => exact hF.of_slashes (WithdrawValidatorCommission_sameRecords h).slashes
  | setWithdrawAddress d w h => exact hF.of_slashes (SetWithdrawAddr_sameRecords h).slashes
  | collectFees fee => exact hF
  | beginBlock view blockHeight proposerAddress votes h => exact hF

theorem fractions_of_run {p p' : Keeper × Staking.State} {fees : List Coins}
    (hrun : Transition.Trace Step p fees p') (hF : Fractions p.1) : Fractions p'.1 :=
  Transition.Trace.invariant (fun _ p' => Fractions p'.1) (fun _ _ _ _ hF hstep => hstep.fractions hF) hrun hF

/-! ### Recording a slash -/

/-- On a store that keeps `Ledger`, `Held`, `Bounded` and `Fractions`, the branch of a slash
returns for a stored validator with current rewards and tokens, with a fraction between zero and
one: the first slash of the height ends the period and references the period ended, whose new
record has room for it. -/
theorem slashedPeriod_returns (hL : Ledger k) (hH : Held k) (hB : Bounded k) (hF : Fractions k)
    {sk : Staking.State} (height ended : ℕ) {val : Staking.Validator} (hval : sk.GetValidator v = some val)
    (hop : val.operatorAddress = v) (hcur : (k.currentPeriod v).isSome) (htokens : val.tokens ≠ 0) :
    ∃ k₁ f ended', k.slashedPeriod sk height v ended = .ok (k₁, f, ended') ∧
      0 ≤ f.i ∧ f.i ≤ Dec.precisionReuse := by
  cases he : k.validatorSlashEvents.get? (toLex (v, height)) with
  | some e =>
    simp only [slashedPeriod, GetValidatorSlashEvent, he]
    exact ⟨_, _, _, rfl, hF v height e he⟩
  | none =>
    obtain ⟨k₁, ended', h₁⟩ := incrementValidatorPeriod_returns hL hH (hop ▸ hcur) htokens
    -- the period just ended is the one the validator holds, with its one reference
    have hcur₁ : k₁.currentPeriod v = some (ended' + 1) := by
      rw [currentPeriod_incrementValidatorPeriod h₁, if_pos hop.symm]
    obtain ⟨r, hr, -, hle⟩ := bounded_record_of_holder (hH.incrementValidatorPeriod hL h₁)
      (hB.incrementValidatorPeriod h₁) (one_le_holdersOf_of_currentPeriod hcur₁)
    simp only [slashedPeriod, GetValidatorSlashEvent, he]
    rw [stakingValidator_eq_ok.mpr hval, Except.ok_bind, h₁, Except.ok_bind]
    dsimp only
    rw [incrementReferenceCount_returns hr hle, Except.ok_bind]
    exact ⟨_, _, _, rfl, le_refl _, Dec.precisionReuse_pos.le⟩

/-- On such a store, a slash of a stored validator with tokens, by a fraction between zero and
one, is recorded without a panic. -/
theorem updateValidatorSlashFraction_returns (hL : Ledger k) (hH : Held k) (hB : Bounded k)
    (hF : Fractions k) {sk : Staking.State} (height : ℕ) {val : Staking.Validator} {fraction : Dec}
    (hval : sk.GetValidator v = some val) (hop : val.operatorAddress = v) (hcur : (k.currentPeriod v).isSome)
    (htokens : val.tokens ≠ 0) (hf0 : 0 ≤ fraction.i) (hf1 : fraction.i ≤ Dec.precisionReuse) :
    ∃ k', k.updateValidatorSlashFraction sk height v fraction = .ok k' := by
  obtain ⟨rewards, hrewards⟩ := currentRewards_of_currentPeriod hcur
  obtain ⟨k₁, f, ended, h₁, hf⟩ := slashedPeriod_returns hL hH hB hF height (rewards.period - 1) hval hop hcur htokens
  -- both multiplicands are between zero and one, so the recorded fraction is not negative
  have hm := Dec.mulTruncate_le_one (a := Dec.one - f) (b := Dec.one - fraction)
    ⟨show 0 ≤ Dec.precisionReuse - f.i by omega, show Dec.precisionReuse - f.i ≤ Dec.precisionReuse by omega⟩
    ⟨show 0 ≤ Dec.precisionReuse - fraction.i by omega, show Dec.precisionReuse - fraction.i ≤ Dec.precisionReuse by omega⟩
  have hone : ¬ fraction > Dec.one := not_lt.mpr hf1
  have hneg : ¬ Dec.one - (Dec.one - f).mulTruncate (Dec.one - fraction) < 0 := by
    show ¬ Dec.precisionReuse - ((Dec.one - f).mulTruncate (Dec.one - fraction)).i < 0
    omega
  unfold updateValidatorSlashFraction
  rw [if_neg hone, (State.GetValidatorCurrentRewards_eq_ok _ _).mpr hrewards, Except.ok_bind]
  dsimp only
  rw [h₁, Except.ok_bind]
  dsimp only
  rw [if_neg hneg]
  exact ⟨_, rfl⟩

/-! ### Delegating on a reachable state -/

/-- The validator of `oneValidator` with ten tokens, for ten shares. -/
def tenTokens : Staking.Validator :=
  { Staking.NewValidator (List.replicate Staking.AddrLen 1) ⟨[], []⟩ with
    tokens := 10, delegatorShares := Dec.ofInt 10 }

/-- The store after the validator of `oneValidator` bonds ten tokens, which calls no hook. -/
def bondedValidator : Keeper × Staking.State :=
  (oneValidator.1, { oneValidator.2 with
    validators := oneValidator.2.validators.insert (List.replicate Staking.AddrLen 1) tenTokens })

theorem reachable_bondedValidator :
    Transition.Trace Step (genesis ⟨[]⟩ ⟨⟨0⟩, ⟨0⟩, ⟨0⟩⟩ true ⟨∅, 0⟩,
      Staking.genesis ⟨0, 1, 7, "stake"⟩ ∅) [] bondedValidator :=
  .tail reachable_oneValidator (Step.updateValidator tenTokens rfl rfl rfl)

/-! ### Slashing on a reachable state -/

theorem fractions_genesis (feePool : FeePool) (params : Params) (withdrawAddrEnabled : Bool)
    (accounts : Auth.State) : Fractions (genesis feePool params withdrawAddrEnabled accounts) :=
  fun _ _ _ h => by cases h

/-- On every state reachable from genesis, every slash event records a fraction between zero and
one: a slash above one is refused, and so is a compounded fraction below zero. -/
theorem slashFractions_of_reachable {feePool : FeePool} {params : Params}
    {withdrawAddrEnabled : Bool} {accounts : Auth.State} {stakingParams : Staking.Params}
    {balances : SortedMap AccAddress ℤ} {fees : List Coins} {sk : Staking.State}
    (hrun : Transition.Trace Step (genesis feePool params withdrawAddrEnabled accounts,
      Staking.genesis stakingParams balances) fees (k, sk)) :
    ∀ v height e, k.validatorSlashEvents.get? (toLex (v, height)) = some e →
      0 ≤ e.fraction.i ∧ e.fraction.i ≤ Dec.precisionReuse :=
  fractions_of_run hrun (fractions_genesis _ _ _ _)

/-- The store after the validator of `bondedValidator` is slashed by five percent at height one. -/
def slashedValidator : Keeper × Staking.State :=
  (((bondedValidator.1.BeforeValidatorSlashed bondedValidator.2 1 (List.replicate Staking.AddrLen 1)
    ⟨5 * 10 ^ 16⟩).toOption.getD bondedValidator.1), bondedValidator.2)

theorem reachable_slashedValidator :
    Transition.Trace Step (genesis ⟨[]⟩ ⟨⟨0⟩, ⟨0⟩, ⟨0⟩⟩ true ⟨∅, 0⟩,
      Staking.genesis ⟨0, 1, 7, "stake"⟩ ∅) [] slashedValidator :=
  .tail reachable_bondedValidator (Step.slash 1 (List.replicate Staking.AddrLen 1) ⟨5 * 10 ^ 16⟩ rfl)

theorem slashFractions_slashedValidator :
    slashedValidator.1.validatorSlashEvents.get? (toLex (List.replicate Staking.AddrLen 1, 1)) =
        some ⟨1, ⟨5 * 10 ^ 16⟩⟩ ∧ 0 ≤ (5 * 10 ^ 16 : ℤ) ∧ (5 * 10 ^ 16 : ℤ) ≤ Dec.precisionReuse :=
  ⟨rfl, slashFractions_of_reachable reachable_slashedValidator (List.replicate Staking.AddrLen 1) 1 _ rfl⟩

end Keeper

end CosmosSdk.Distribution
