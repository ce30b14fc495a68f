import CosmosSdk.Distribution.References

/-!
# No historical record still read is deleted

A historical record is read by its holders: the validator reads the record of the period it last
ended when its next period ends (`incrementValidatorPeriod`), and a delegation reads the record
of the period it started after when its rewards are withdrawn (`withdrawDelegationRewards`).
Reference counting must never delete a record that has a holder.  `Held` says that each record
holds a reference for each of its holders, and that each delegation started after a period its
validator ended.  Slash events hold references too but are not counted among the holders: a
second slash at one height names another period than the one whose record holds its reference.

* `countOf`, `holdersOf`: the references of a record, and its holders, with how the setters move
  them;
* `Held.of_le`: a store whose counts grew by at least what the holders grew keeps `Held`;
* one lemma per operation of `Rewards`: each keeps `Held`, given `Ledger`;
* `Held.record_of_holder`: a record with a holder is stored, with a reference;
* `Bounded`, `Fresh`: no record holds more than two references, and the record of the period a
  validator ended last holds at most one right after the period ends; each operation keeps
  `Bounded`, and the one that adds a reference asks for `Fresh`.
-/

namespace CosmosSdk.Distribution

namespace Keeper

/-- The references of the record of a validator's period `p`, none without a record. -/
def countOf (k : Keeper) (v : ValAddress) (p : ℕ) : ℤ :=
  (k.validatorHistoricalRewards.get? (toLex (v, p))).elim 0 fun r => (r.referenceCount : ℤ)

/-- The holders of the record of a validator's period `p`: the validator while `p` is the last
period it ended, and the starting infos of its delegations that started after `p`. -/
def holdersOf (k : Keeper) (v : ValAddress) (p : ℕ) : ℤ :=
  (if k.currentPeriod v = some (p + 1) then 1 else 0) +
    sumOf k.delegatorStartingInfo (fun i => if i.previousPeriod = p then 1 else 0) v

/-- Each historical record holds a reference for each of its holders, and each delegation
started after a period its validator ended. -/
structure Held (k : Keeper) : Prop where
  started : ∀ v d i, k.delegatorStartingInfo.get? (toLex (v, d)) = some i →
    ∃ c, k.currentPeriod v = some c ∧ i.previousPeriod < c
  held : ∀ v p, k.holdersOf v p ≤ k.countOf v p

variable {k k' : Keeper}

/-! ### Holders and counts -/

section Moves

variable (k) (v w : ValAddress) (p q : ℕ)

@[simp] theorem countOf_SetValidatorHistoricalRewards (r : ValidatorHistoricalRewards) :
    (k.SetValidatorHistoricalRewards v p r).countOf w q =
      if w = v ∧ q = p then (r.referenceCount : ℤ) else k.countOf w q := by
  unfold countOf
  simp only [SetValidatorHistoricalRewards, SortedMap.get?_insert, toLex_inj, Prod.mk.injEq]
  split_ifs <;> rfl

@[simp] theorem countOf_SetValidatorCurrentRewards (rewards : ValidatorCurrentRewards) :
    (k.SetValidatorCurrentRewards v rewards).countOf w q = k.countOf w q :=
  rfl

@[simp] theorem countOf_SetDelegatorStartingInfo (d : AccAddress) (info : DelegatorStartingInfo) :
    (k.SetDelegatorStartingInfo v d info).countOf w q = k.countOf w q :=
  rfl

@[simp] theorem countOf_DeleteDelegatorStartingInfo (d : AccAddress) :
    (k.DeleteDelegatorStartingInfo v d).countOf w q = k.countOf w q :=
  rfl

@[simp] theorem countOf_SetValidatorSlashEvent (height : ℕ) (event : ValidatorSlashEvent) :
    (k.SetValidatorSlashEvent v height event).countOf w q = k.countOf w q :=
  rfl

@[simp] theorem countOf_DeleteValidatorSlashEvents : (k.DeleteValidatorSlashEvents v).countOf w q = k.countOf w q :=
  rfl

@[simp] theorem countOf_DeleteValidatorCurrentRewards :
    (k.DeleteValidatorCurrentRewards v).countOf w q = k.countOf w q :=
  rfl

@[simp] theorem countOf_DeleteValidatorHistoricalRewards :
    (k.DeleteValidatorHistoricalRewards v).countOf w q = if w = v then 0 else k.countOf w q := by
  simp only [countOf, DeleteValidatorHistoricalRewards, SortedMap.get?_filter, ofLex_toLex]
  by_cases hw : w = v <;> simp [hw]

/-- `initializeValidator` sets the record of period zero, with one reference. -/
theorem countOf_initializeValidator (val : Staking.Validator) :
    (k.initializeValidator val).countOf w q = if w = val.operatorAddress ∧ q = 0 then 1 else k.countOf w q :=
  countOf_SetValidatorHistoricalRewards _ _ _ _ _ _

/-- A new starting info holds the record of the period it starts after. -/
theorem holdersOf_SetDelegatorStartingInfo {d : AccAddress} {info : DelegatorStartingInfo}
    (hfresh : k.delegatorStartingInfo.get? (toLex (v, d)) = none) :
    (k.SetDelegatorStartingInfo v d info).holdersOf w q =
      k.holdersOf w q + if w = v ∧ info.previousPeriod = q then 1 else 0 := by
  unfold holdersOf
  rw [currentPeriod_SetDelegatorStartingInfo]
  simp only [SetDelegatorStartingInfo, sumOf_insert, hfresh, Option.elim]
  by_cases hw : w = v
  · subst hw
    simp only [if_true, true_and, sub_zero]
    ring
  · simp only [hw, Ne.symm hw, false_and, if_false, add_zero]

/-- A deleted starting info no longer holds its record. -/
theorem holdersOf_DeleteDelegatorStartingInfo {d : AccAddress} {info : DelegatorStartingInfo}
    (hinfo : k.delegatorStartingInfo.get? (toLex (v, d)) = some info) :
    (k.DeleteDelegatorStartingInfo v d).holdersOf w q =
      k.holdersOf w q - if w = v ∧ info.previousPeriod = q then 1 else 0 := by
  unfold holdersOf
  rw [currentPeriod_DeleteDelegatorStartingInfo]
  simp only [DeleteDelegatorStartingInfo, sumOf_erase, hinfo, Option.elim]
  by_cases hw : w = v
  · subst hw
    simp only [if_true, true_and]
    ring
  · simp only [hw, Ne.symm hw, false_and, if_false, sub_zero]

theorem SameRecords.holdersOf_eq (h : SameRecords k k') : k'.holdersOf = k.holdersOf := by
  funext v p
  unfold holdersOf
  rw [h.currentPeriod, h.starting]

theorem SameRecords.countOf_eq (h : SameRecords k k') : k'.countOf = k.countOf := by
  funext v p
  unfold countOf
  rw [h.historical]

theorem HistoricalOnly.holdersOf_eq (h : HistoricalOnly k k') : k'.holdersOf = k.holdersOf := by
  funext v p
  unfold holdersOf currentPeriod
  rw [h.current, h.starting]

end Moves

section Counts

variable {v : ValAddress} {p : ℕ}

theorem countOf_incrementReferenceCount (h : k.incrementReferenceCount v p = .ok k') (w : ValAddress)
    (q : ℕ) : k'.countOf w q = k.countOf w q + if w = v ∧ q = p then 1 else 0 := by
  obtain ⟨r, hr, -, rfl⟩ := incrementReferenceCount_eq_ok h
  rw [countOf_SetValidatorHistoricalRewards]
  split_ifs with hkey
  · obtain ⟨rfl, rfl⟩ := hkey
    simp [countOf, hr]
  · simp

theorem countOf_decrementReferenceCount (h : k.decrementReferenceCount v p = .ok k') (w : ValAddress)
    (q : ℕ) : k'.countOf w q = k.countOf w q - if w = v ∧ q = p then 1 else 0 := by
  obtain ⟨r, hr, hpos, rfl⟩ := decrementReferenceCount_eq_ok h
  have hold : k.countOf v p = r.referenceCount := by simp [countOf, hr]
  split_ifs with h1 hkey hkey
  · -- the last reference: the record is deleted
    rw [hkey.1, hkey.2]
    have hgone : (k.DeleteValidatorHistoricalReward v p).countOf v p = 0 := by
      simp [countOf, DeleteValidatorHistoricalReward]
    rw [hgone, hold, h1]
    simp
  · have hne : toLex (w, q) ≠ toLex (v, p) := fun h' => hkey (by simpa using h')
    simp [countOf, DeleteValidatorHistoricalReward, SortedMap.get?_erase_ne _ hne]
  · obtain ⟨rfl, rfl⟩ := hkey
    rw [countOf_SetValidatorHistoricalRewards, if_pos ⟨rfl, rfl⟩, hold]
    change ((r.referenceCount - 1 : ℕ) : ℤ) = (r.referenceCount : ℤ) - 1
    omega
  · rw [countOf_SetValidatorHistoricalRewards, if_neg hkey, sub_zero]

/-- With the starting infos kept, the holders of a record move with the validator's current
period alone. -/
theorem holdersOf_of_starting (h : k'.delegatorStartingInfo = k.delegatorStartingInfo)
    (w : ValAddress) (q : ℕ) :
    k'.holdersOf w q = k.holdersOf w q + ((if k'.currentPeriod w = some (q + 1) then 1 else 0) -
      if k.currentPeriod w = some (q + 1) then 1 else 0) := by
  unfold holdersOf
  rw [h]
  ring

/-- Ending a validator's period moves its current rewards on to the next one. -/
theorem currentPeriod_incrementValidatorPeriod {val : Staking.Validator} {ended : ℕ}
    (h : k.incrementValidatorPeriod val = .ok (k', ended)) (w : ValAddress) :
    k'.currentPeriod w = if w = val.operatorAddress then some (ended + 1) else k.currentPeriod w := by
  obtain ⟨rewards, k₁, r, k₂, current, -, rfl, hk₁, -, hk₂, rfl⟩ := incrementValidatorPeriod_eq_ok h
  obtain ⟨hframe, -, -, -, -⟩ := decrementReferenceCount_moves hk₂
  rw [currentPeriod_SetValidatorCurrentRewards, currentPeriod_SetValidatorHistoricalRewards]
  split_ifs
  · rfl
  · rw [← (currentRatio_sameRecords hk₁).currentPeriod]
    simp only [currentPeriod, hframe.current]

/-- Ending a validator's period `c`: the record of `c` is set with one reference, and that of
`c - 1` loses one. -/
theorem countOf_incrementValidatorPeriod {val : Staking.Validator} {ended : ℕ}
    (h : k.incrementValidatorPeriod val = .ok (k', ended)) (w : ValAddress) (q : ℕ) :
    k'.countOf w q = if w = val.operatorAddress ∧ q = ended then 1
      else k.countOf w q - if w = val.operatorAddress ∧ q = ended - 1 then 1 else 0 := by
  obtain ⟨rewards, k₁, r, k₂, current, -, rfl, hk₁, -, hk₂, rfl⟩ := incrementValidatorPeriod_eq_ok h
  rw [countOf_SetValidatorCurrentRewards, countOf_SetValidatorHistoricalRewards,
    countOf_decrementReferenceCount hk₂, (currentRatio_sameRecords hk₁).countOf_eq]
  rfl

end Counts

/-! ### Keeping `Held` -/

theorem Held.of_sameRecords (hH : Held k) (h : SameRecords k k') : Held k' where
  started v d i hi := by
    rw [h.starting] at hi
    simpa [h.currentPeriod] using hH.started v d i hi
  held v p := by
    rw [h.holdersOf_eq, h.countOf_eq]
    exact hH.held v p

/-- A store whose counts grew by at least what the holders grew keeps `Held`. -/
theorem Held.of_le (hH : Held k)
    (hstarted : ∀ v d i, k'.delegatorStartingInfo.get? (toLex (v, d)) = some i →
      ∃ c, k'.currentPeriod v = some c ∧ i.previousPeriod < c)
    (h : ∀ v p, k'.holdersOf v p - k.holdersOf v p ≤ k'.countOf v p - k.countOf v p) : Held k' :=
  ⟨hstarted, fun v p => by linarith [hH.held v p, h v p]⟩

/-- A record with a holder is stored, with a reference. -/
theorem Held.record_of_holder (hH : Held k) {v : ValAddress} {p : ℕ} (h : 1 ≤ k.holdersOf v p) :
    ∃ r, k.validatorHistoricalRewards.get? (toLex (v, p)) = some r ∧ 0 < r.referenceCount := by
  have hc := h.trans (hH.held v p)
  unfold countOf at hc
  cases hr : k.validatorHistoricalRewards.get? (toLex (v, p)) with
  | none =>
    rw [hr] at hc
    simp at hc
  | some r =>
    rw [hr] at hc
    exact ⟨r, rfl, by simp at hc; omega⟩

theorem one_le_holdersOf_of_currentPeriod {v : ValAddress} {p : ℕ}
    (hc : k.currentPeriod v = some (p + 1)) : 1 ≤ k.holdersOf v p := by
  have hs := sumOf_nonneg k.delegatorStartingInfo (fun i => if i.previousPeriod = p then (1 : ℤ) else 0) v
    fun i => by split_ifs <;> simp
  simp only [holdersOf, hc, if_true]
  linarith

theorem one_le_holdersOf_of_startingInfo {v : ValAddress} {d : AccAddress} {i : DelegatorStartingInfo}
    (hi : k.delegatorStartingInfo.get? (toLex (v, d)) = some i) : 1 ≤ k.holdersOf v i.previousPeriod := by
  have hs := le_sumOf k.delegatorStartingInfo (fun i' => if i'.previousPeriod = i.previousPeriod then (1 : ℤ) else 0)
    v d (fun i' => by split_ifs <;> simp) hi
  simp only [if_true] at hs
  have hv : 0 ≤ (if k.currentPeriod v = some (i.previousPeriod + 1) then (1 : ℤ) else 0) := by
    split_ifs <;> simp
  simp only [holdersOf]
  linarith

/-! ### The operations keep `Held` -/

/-- Ending a validator's period moves its hold from the record of the period it ended before to
the new record of the period just ended, created with one reference. -/
theorem Held.incrementValidatorPeriod (hL : Ledger k) (hH : Held k) {val : Staking.Validator}
    {ended : ℕ} (h : k.incrementValidatorPeriod val = .ok (k', ended)) : Held k' := by
  obtain ⟨-, -, hstart, -⟩ := hL.incrementValidatorPeriod h
  obtain ⟨rewards, -, -, -, -, hrewards, rfl, -⟩ := incrementValidatorPeriod_eq_ok h
  have hcur : k.currentPeriod val.operatorAddress = some rewards.period := by
    simp [currentPeriod, hrewards]
  have hpos := hL.period_pos _ _ hcur
  -- the period ending has no record yet: every stored period is an ended one
  have hfresh : k.countOf val.operatorAddress rewards.period = 0 := by
    unfold countOf
    cases hx : k.validatorHistoricalRewards.get? (toLex (val.operatorAddress, rewards.period)) with
    | none => rfl
    | some x =>
      obtain ⟨c, hc, hlt⟩ := hL.historical _ _ x hx
      rw [hcur] at hc
      cases hc
      exact absurd hlt (lt_irrefl _)
  refine hH.of_le (fun w d i hi => ?_) (fun w q => ?_)
  · obtain ⟨c, hc, hlt⟩ := hH.started w d i (by rw [← hstart]; exact hi)
    rw [currentPeriod_incrementValidatorPeriod h]
    split_ifs with hw
    · subst hw
      rw [hcur] at hc
      cases hc
      exact ⟨_, rfl, Nat.lt_succ_of_lt hlt⟩
    · exact ⟨c, hc, hlt⟩
  · rw [holdersOf_of_starting hstart, countOf_incrementValidatorPeriod h,
      currentPeriod_incrementValidatorPeriod h]
    by_cases hw : w = val.operatorAddress
    · -- the validator's hold moves from `c - 1` to `c`
      subst hw
      rw [hcur]
      simp only [true_and, if_true, Option.some.injEq]
      by_cases hq : q = rewards.period
      · subst hq
        rw [hfresh]
        split_ifs <;> omega
      · split_ifs <;> omega
    · simp only [hw, false_and, if_false]
      omega

/-- A new starting info holds the record of the period its validator ended last, which gains a
reference for it. -/
theorem Held.initializeDelegation (hL : Ledger k) (hH : Held k) {sk : Staking.State} {height : ℕ}
    {v : ValAddress} {d : AccAddress} (hfresh : k.delegatorStartingInfo.get? (toLex (v, d)) = none)
    (h : k.initializeDelegation sk height v d = .ok k') : Held k' := by
  obtain ⟨rewards, k₁, val, del, stake, hrewards, hk₁, -, -, rfl⟩ := initializeDelegation_eq_ok h
  obtain ⟨hframe, -, -, -⟩ := incrementReferenceCount_moves hk₁
  have hcur : k.currentPeriod v = some rewards.period := by simp [currentPeriod, hrewards]
  have hpos := hL.period_pos _ _ hcur
  have hcur₁ : ∀ w, k₁.currentPeriod w = k.currentPeriod w := fun w => by
    simp only [currentPeriod, hframe.current]
  have hfresh₁ : k₁.delegatorStartingInfo.get? (toLex (v, d)) = none := by
    rw [hframe.starting, hfresh]
  refine hH.of_le (fun w e i hi => ?_) (fun w q => ?_)
  · simp only [SetDelegatorStartingInfo, SortedMap.get?_insert, toLex_inj, Prod.mk.injEq] at hi
    rw [currentPeriod_SetDelegatorStartingInfo, hcur₁]
    split_ifs at hi with hkey
    · cases hi
      rw [hkey.1]
      exact ⟨_, hcur, by dsimp only; omega⟩
    · exact hH.started w e i (by rw [← hframe.starting]; exact hi)
  · rw [holdersOf_SetDelegatorStartingInfo _ _ _ _ hfresh₁, countOf_SetDelegatorStartingInfo,
      countOf_incrementReferenceCount hk₁, hframe.holdersOf_eq]
    dsimp only
    by_cases hw : w = v
    · subst hw
      simp only [true_and]
      split_ifs <;> omega
    · simp only [hw, false_and, if_false]
      omega

/-- Withdrawing ends the validator's period, and the delegation's starting info lets go of the
record it held. -/
theorem Held.withdrawDelegationRewards (hL : Ledger k) (hH : Held k) {height : ℕ}
    {val : Staking.Validator} {del : Staking.Delegation} {coins : Coins}
    (h : k.withdrawDelegationRewards height val del = .ok (k', coins)) : Held k' := by
  obtain ⟨k₁, ended, info, k₂, k₃, -, hk₁, hinfo, hk₂, hsame, rfl⟩ :=
    withdrawDelegationRewards_eq_ok h
  have hH₁ := hH.incrementValidatorPeriod hL hk₁
  obtain ⟨hframe, -, -, -, -⟩ := decrementReferenceCount_moves hk₂
  have hcur : ∀ w, k₃.currentPeriod w = k₁.currentPeriod w := fun w => by
    rw [hsame.currentPeriod]
    simp only [currentPeriod, hframe.current]
  have hstart : k₃.delegatorStartingInfo = k₁.delegatorStartingInfo :=
    hsame.starting.trans hframe.starting
  have hinfo₃ : k₃.delegatorStartingInfo.get? (toLex (del.validatorAddress, del.delegatorAddress)) =
      some info := by
    rw [hstart]
    exact hinfo
  refine hH₁.of_le (fun w e i hi => ?_) (fun w q => ?_)
  · simp only [DeleteDelegatorStartingInfo, SortedMap.get?_erase, hstart] at hi
    rw [currentPeriod_DeleteDelegatorStartingInfo, hcur]
    split_ifs at hi
    exact hH₁.started w e i hi
  · rw [holdersOf_DeleteDelegatorStartingInfo _ _ _ _ hinfo₃, countOf_DeleteDelegatorStartingInfo,
      hsame.holdersOf_eq, hframe.holdersOf_eq, hsame.countOf_eq, countOf_decrementReferenceCount hk₂]
    by_cases hw : w = del.validatorAddress
    · subst hw
      simp only [true_and]
      split_ifs <;> omega
    · simp only [hw, false_and, if_false]
      omega

/-- A slash event holds no record as a holder: the first slash at a height ends the period,
whose record gains a reference, and a second one changes no record. -/
theorem Held.updateValidatorSlashFraction (hL : Ledger k) (hH : Held k) {sk : Staking.State}
    {height : ℕ} {v : ValAddress} {fraction : Dec}
    (h : k.updateValidatorSlashFraction sk height v fraction = .ok k') : Held k' := by
  obtain ⟨rewards, k₁, f, ended, updated, -, hk₁, rfl⟩ := updateValidatorSlashFraction_eq_ok h
  rcases slashedPeriod_eq_ok hk₁ with ⟨e, -, hk⟩ | ⟨-, val, k₂, -, hk₂, hk₁'⟩
  · subst k₁
    exact ⟨hH.started, hH.held⟩
  · have hH₂ := hH.incrementValidatorPeriod hL hk₂
    obtain ⟨hframe, -, -, -⟩ := incrementReferenceCount_moves hk₁'
    have hH₁ : Held k₁ := by
      refine hH₂.of_le (fun w d i hi => ?_) (fun w q => ?_)
      · have hi₂ : k₂.delegatorStartingInfo.get? (toLex (w, d)) = some i := by
          rw [← hframe.starting]
          exact hi
        simpa only [currentPeriod, hframe.current] using hH₂.started w d i hi₂
      · rw [hframe.holdersOf_eq, countOf_incrementReferenceCount hk₁']
        split_ifs <;> omega
    exact ⟨hH₁.started, hH₁.held⟩

/-- A new validator holds the record of its period zero, created with one reference. -/
theorem Held.initializeValidator (hL : Ledger k) (hH : Held k) {val : Staking.Validator}
    (hnew : k.currentPeriod val.operatorAddress = none) : Held (k.initializeValidator val) := by
  have hzero : k.countOf val.operatorAddress 0 = 0 := by
    unfold countOf
    cases hx : k.validatorHistoricalRewards.get? (toLex (val.operatorAddress, 0)) with
    | none => rfl
    | some x =>
      obtain ⟨c, hc, -⟩ := hL.historical _ _ x hx
      rw [hnew] at hc
      cases hc
  have hholders : ∀ w q, (k.initializeValidator val).holdersOf w q =
      k.holdersOf w q + if w = val.operatorAddress ∧ q = 0 then 1 else 0 := fun w q => by
    have hs : (k.initializeValidator val).delegatorStartingInfo = k.delegatorStartingInfo := rfl
    rw [holdersOf_of_starting hs, currentPeriod_initializeValidator]
    by_cases hw : w = val.operatorAddress
    · subst hw
      rw [hnew]
      simp
    · simp [hw]
  refine hH.of_le (fun w d i hi => ?_) (fun w q => ?_)
  · obtain ⟨c, hc, hlt⟩ := hH.started w d i hi
    rw [currentPeriod_initializeValidator]
    split_ifs with hw
    · rw [hw, hnew] at hc
      cases hc
    · exact ⟨c, hc, hlt⟩
  · rw [hholders, countOf_initializeValidator]
    split_ifs with hkey
    · rw [hkey.1, hkey.2, hzero]
      omega
    · omega

/-- Removing a validator without starting infos deletes its records, none of which has a holder
left. -/
theorem Held.AfterValidatorRemoved (hH : Held k) {v : ValAddress}
    (hstart : ∀ d, k.delegatorStartingInfo.get? (toLex (v, d)) = none)
    (h : k.AfterValidatorRemoved v = .ok k') : Held k' := by
  obtain ⟨k₁, hsame, rfl⟩ := AfterValidatorRemoved_eq_ok h
  have hH₁ := hH.of_sameRecords hsame
  have hstart₁ : ∀ d, k₁.delegatorStartingInfo.get? (toLex (v, d)) = none := fun d => by
    rw [hsame.starting, hstart]
  have hcur : ∀ w, (((k₁.DeleteValidatorSlashEvents v).DeleteValidatorHistoricalRewards v).DeleteValidatorCurrentRewards
      v).currentPeriod w = if w = v then none else k₁.currentPeriod w := fun w => by
    rw [currentPeriod_DeleteValidatorCurrentRewards, currentPeriod_DeleteValidatorHistoricalRewards,
      currentPeriod_DeleteValidatorSlashEvents]
  refine ⟨fun w d i hi => ?_, fun w q => ?_⟩
  · have hi₁ : k₁.delegatorStartingInfo.get? (toLex (w, d)) = some i := hi
    have hw : w ≠ v := by
      rintro rfl
      rw [hstart₁] at hi₁
      cases hi₁
    rw [hcur, if_neg hw]
    exact hH₁.started w d i hi₁
  · have hheld := hH₁.held w q
    simp only [holdersOf, countOf, hcur] at hheld ⊢
    simp only [DeleteValidatorCurrentRewards, DeleteValidatorHistoricalRewards, DeleteValidatorSlashEvents,
      SortedMap.get?_filter, ofLex_toLex]
    by_cases hw : w = v
    · -- nothing of the validator is left, and it had no starting info
      subst hw
      have hnone := sumOf_eq_zero k₁.delegatorStartingInfo
        (fun i => if i.previousPeriod = q then (1 : ℤ) else 0) w fun d i => by rw [hstart₁]; simp
      simp [hnone]
    · simpa [hw] using hheld

/-! ### No record holds more than two references

`incrementReferenceCount` panics on a record with more than two references.  A reference is only
ever added to the record of a period that has just ended, which holds the validator's reference
alone; it is then held by the validator and by the delegation or slash event that ended it, and
the validator's reference moves on when the next period ends. -/

/-- No historical record holds more than two references. -/
def Bounded (k : Keeper) : Prop := ∀ v p, k.countOf v p ≤ 2

/-- The record of the period a validator ended last holds at most one reference, as it does
right after the period ends. -/
def Fresh (k : Keeper) (v : ValAddress) : Prop :=
  ∀ c, k.currentPeriod v = some c → k.countOf v (c - 1) ≤ 1

theorem fresh_incrementValidatorPeriod {val : Staking.Validator} {ended : ℕ}
    (h : k.incrementValidatorPeriod val = .ok (k', ended)) : Fresh k' val.operatorAddress := by
  intro c hc
  rw [currentPeriod_incrementValidatorPeriod h, if_pos rfl] at hc
  cases hc
  rw [countOf_incrementValidatorPeriod h, if_pos ⟨rfl, Nat.add_sub_cancel _ _⟩]

theorem Bounded.incrementValidatorPeriod (hB : Bounded k) {val : Staking.Validator} {ended : ℕ}
    (h : k.incrementValidatorPeriod val = .ok (k', ended)) : Bounded k' := fun w q => by
  rw [countOf_incrementValidatorPeriod h]
  have hq := hB w q
  split_ifs <;> omega

/-- A new starting info adds its reference to the record of the period its validator ended
last, which must hold at most one. -/
theorem Bounded.initializeDelegation (hB : Bounded k) {sk : Staking.State} {height : ℕ}
    {v : ValAddress} {d : AccAddress} (hF : Fresh k v)
    (h : k.initializeDelegation sk height v d = .ok k') : Bounded k' := by
  obtain ⟨rewards, k₁, val, del, stake, hrewards, hk₁, -, -, rfl⟩ := initializeDelegation_eq_ok h
  have hone := hF rewards.period (by simp [currentPeriod, hrewards])
  intro w q
  rw [countOf_SetDelegatorStartingInfo, countOf_incrementReferenceCount hk₁]
  have hq := hB w q
  split_ifs with hkey
  · rw [hkey.1, hkey.2]
    omega
  · omega

theorem Bounded.withdrawDelegationRewards (hB : Bounded k) {height : ℕ} {val : Staking.Validator}
    {del : Staking.Delegation} {coins : Coins}
    (h : k.withdrawDelegationRewards height val del = .ok (k', coins)) : Bounded k' := by
  obtain ⟨k₁, ended, info, k₂, k₃, -, hk₁, -, hk₂, hsame, rfl⟩ := withdrawDelegationRewards_eq_ok h
  have hB₁ := hB.incrementValidatorPeriod hk₁
  intro w q
  rw [countOf_DeleteDelegatorStartingInfo, hsame.countOf_eq, countOf_decrementReferenceCount hk₂]
  have hq := hB₁ w q
  split_ifs <;> omega

/-- After a withdrawal, the record of the period it ended holds at most the validator's
reference: releasing the delegation's starting period only takes references away. -/
theorem Fresh.withdrawDelegationRewards {height : ℕ} {val : Staking.Validator}
    {del : Staking.Delegation} {coins : Coins}
    (h : k.withdrawDelegationRewards height val del = .ok (k', coins)) : Fresh k' val.operatorAddress := by
  obtain ⟨k₁, ended, info, k₂, k₃, -, hk₁, -, hk₂, hsame, rfl⟩ := withdrawDelegationRewards_eq_ok h
  obtain ⟨hframe, -, -, -, -⟩ := decrementReferenceCount_moves hk₂
  intro c hc
  have hcur : k₃.currentPeriod val.operatorAddress = k₁.currentPeriod val.operatorAddress := by
    rw [hsame.currentPeriod]
    simp only [currentPeriod, hframe.current]
  rw [currentPeriod_DeleteDelegatorStartingInfo, hcur, currentPeriod_incrementValidatorPeriod hk₁,
    if_pos rfl] at hc
  cases hc
  rw [countOf_DeleteDelegatorStartingInfo, hsame.countOf_eq, countOf_decrementReferenceCount hk₂,
    countOf_incrementValidatorPeriod hk₁, if_pos ⟨rfl, Nat.add_sub_cancel _ _⟩]
  split_ifs <;> omega

/-- A slash event adds its reference to the record of the period the first slash at a height
ends; a second slash at the height adds none.  The validator the staking store returns is the
one slashed. -/
theorem Bounded.updateValidatorSlashFraction (hB : Bounded k) {sk : Staking.State} {height : ℕ}
    {v : ValAddress} {fraction : Dec}
    (hvf : ∀ w x, sk.GetValidator w = some x → x.operatorAddress = w)
    (h : k.updateValidatorSlashFraction sk height v fraction = .ok k') : Bounded k' := by
  obtain ⟨rewards, k₁, f, ended, updated, -, hk₁, rfl⟩ := updateValidatorSlashFraction_eq_ok h
  rcases slashedPeriod_eq_ok hk₁ with ⟨e, -, hk⟩ | ⟨-, val, k₂, hval, hk₂, hk₁'⟩
  · subst k₁
    exact hB
  · have hB₂ := hB.incrementValidatorPeriod hk₂
    have hv := hvf v val hval
    have hone := fresh_incrementValidatorPeriod hk₂ (ended + 1)
      (by rw [currentPeriod_incrementValidatorPeriod hk₂, if_pos rfl])
    rw [hv, Nat.add_sub_cancel] at hone
    intro w q
    rw [countOf_SetValidatorSlashEvent, countOf_incrementReferenceCount hk₁']
    have hq := hB₂ w q
    split_ifs with hkey
    · rw [hkey.1, hkey.2]
      omega
    · omega

theorem Bounded.initializeValidator (hB : Bounded k) (val : Staking.Validator) :
    Bounded (k.initializeValidator val) := fun w q => by
  rw [countOf_initializeValidator]
  split_ifs
  · omega
  · exact hB w q

theorem Bounded.AfterValidatorRemoved (hB : Bounded k) {v : ValAddress}
    (h : k.AfterValidatorRemoved v = .ok k') : Bounded k' := by
  obtain ⟨k₁, hsame, rfl⟩ := AfterValidatorRemoved_eq_ok h
  intro w q
  rw [countOf_DeleteValidatorCurrentRewards, countOf_DeleteValidatorHistoricalRewards,
    countOf_DeleteValidatorSlashEvents, hsame.countOf_eq]
  split_ifs
  · omega
  · exact hB w q

theorem Bounded.of_sameRecords (hB : Bounded k) (h : SameRecords k k') : Bounded k' := fun w q => by
  rw [h.countOf_eq]
  exact hB w q

end Keeper

end CosmosSdk.Distribution
