import CosmosSdk.Distribution.RewardsSpec
import CosmosSdk.Distribution.Blocks

/-!
# Reference counts of the historical rewards

A historical record is read by whoever ended its period: the validator (its last ended
period), a delegation (the period it started after) and a slash event (the period it ended).
The keeper counts them in the record's reference count and deletes the record at zero;
`ReferenceCountInvariant` (`keeper/invariants.go`) checks that the counts add up to one per
validator, per delegation and per slash event.

* `sumOf`: what a store keyed by validator first holds of one validator, with how inserts,
  erases and the deletion of a validator's prefix move it;
* `Ledger`: the invariant of the F1 records alone: current periods start at one, every
  historical record is of an ended period of a validator with current rewards, starting
  infos and slash events belong to such validators, and the references of each validator's
  records are one for it, one per starting info and one per slash event;
* one lemma per operation: `incrementValidatorPeriod`, `initializeDelegation`,
  `withdrawDelegationRewards`, `updateValidatorSlashFraction`, `initializeValidator` and
  `AfterValidatorRemoved` keep `Ledger`, each with what it does to the validators and
  starting infos.

A second slash at one height rewrites the event's period without moving its reference: the
counts still add up, but the reference stays on the period the first slash ended.
-/

namespace CosmosSdk.Distribution

/-! ### Sums over the records of one validator -/

section SumOf

variable {β ν : Type*} [LinearOrder β]

/-- What a store keyed by validator first holds of one validator, weighed by `w`. -/
def sumOf (m : SortedMap (ValAddress ×ₗ β) ν) (w : ν → ℤ) (v : ValAddress) : ℤ :=
  m.sum fun key x => if (ofLex key).1 = v then w x else 0

variable (m : SortedMap (ValAddress ×ₗ β) ν) (w : ν → ℤ) (v' v : ValAddress) (b : β)

theorem sumOf_insert (x : ν) :
    sumOf (m.insert (toLex (v', b)) x) w v =
      sumOf m w v + if v' = v then w x - (m.get? (toLex (v', b))).elim 0 w else 0 := by
  unfold sumOf
  rw [SortedMap.sum_insert_eq]
  cases m.get? (toLex (v', b)) <;> split_ifs <;> simp_all
  ring

theorem sumOf_erase :
    sumOf (m.erase (toLex (v', b))) w v =
      sumOf m w v - if v' = v then (m.get? (toLex (v', b))).elim 0 w else 0 := by
  unfold sumOf
  rw [SortedMap.sum_erase_eq]
  cases m.get? (toLex (v', b)) <;> split_ifs <;> simp_all

/-- A validator with no records holds nothing. -/
theorem sumOf_eq_zero (h : ∀ b x, m.get? (toLex (v, b)) ≠ some x) : sumOf m w v = 0 := by
  unfold sumOf
  rw [SortedMap.sum_congr (g := fun _ _ => 0) fun key x hx => ?_]
  · simp [SortedMap.sum]
  · split_ifs with hv
    · subst hv
      exact absurd hx (h _ x)
    · rfl

theorem sumOf_nonneg (hw : ∀ x, 0 ≤ w x) : 0 ≤ sumOf m w v :=
  SortedMap.sum_nonneg fun key x _ => by split_ifs <;> simp [hw]

/-- With weights that are not negative, a record weighs at most what its validator holds. -/
theorem le_sumOf (hw : ∀ x, 0 ≤ w x) {x : ν} (hx : m.get? (toLex (v, b)) = some x) :
    w x ≤ sumOf m w v := by
  have h := SortedMap.le_sum (f := fun key x => if (ofLex key).1 = v then w x else 0)
    (fun key x _ => by split_ifs <;> simp [hw]) hx
  simpa [sumOf] using h

/-- Deleting a validator's prefix leaves nothing of it and the rest as it was. -/
theorem sumOf_filter :
    sumOf (m.filter fun key => (ofLex key).1 ≠ v') w v = if v = v' then 0 else sumOf m w v := by
  unfold sumOf
  rw [SortedMap.sum_filter]
  split_ifs with h
  · subst h
    rw [SortedMap.sum_congr (g := fun _ _ => 0) fun key x _ => by split_ifs <;> simp_all]
    simp [SortedMap.sum]
  · exact SortedMap.sum_congr fun key x _ => by split_ifs <;> simp_all

/-- Deleting a validator's prefix takes what it held off the whole store. -/
theorem sum_filter_validator :
    (m.filter fun key => (ofLex key).1 ≠ v').sum (fun _ x => w x) =
      m.sum (fun _ x => w x) - sumOf m w v' := by
  rw [SortedMap.sum_filter, sumOf, eq_sub_iff_add_eq, ← SortedMap.sum_add]
  exact SortedMap.sum_congr fun key x _ => by split_ifs <;> simp_all

end SumOf

namespace Keeper

/-! ### Counting -/

section Counts

variable (k : Keeper) (v : ValAddress)

/-- The references a validator's historical records hold. -/
def referencesOf : ℤ := sumOf k.validatorHistoricalRewards (fun r => r.referenceCount) v

/-- The starting infos of a validator's delegations. -/
def startingInfosOf : ℤ := sumOf k.delegatorStartingInfo (fun _ => 1) v

/-- The slash events of a validator. -/
def slashEventsOf : ℤ := sumOf k.validatorSlashEvents (fun _ => 1) v

/-- The references of all historical records. -/
def references : ℤ := k.validatorHistoricalRewards.sum fun _ r => (r.referenceCount : ℤ)

/-- The validators with current rewards. -/
def validatorCount : ℤ := k.validatorCurrentRewards.sum fun _ _ => 1

/-- The starting infos. -/
def startingInfoCount : ℤ := k.delegatorStartingInfo.sum fun _ _ => 1

/-- The slash events. -/
def slashEventCount : ℤ := k.validatorSlashEvents.sum fun _ _ => 1

/-- Stores with current rewards for the same validators count as many. -/
theorem validatorCount_eq_of_currentPeriod {k k' : Keeper}
    (h : ∀ v, (k'.currentPeriod v).isSome = (k.currentPeriod v).isSome) :
    k'.validatorCount = k.validatorCount := by
  unfold validatorCount
  rw [SortedMap.sum_one, SortedMap.sum_one,
    SortedMap.size_eq_of_keys id Function.injective_id fun v => ?_]
  simpa [currentPeriod] using h v

end Counts

/-! ### The invariant of the records -/

/-- The F1 records keep their references: periods start at one, a historical record is of a
period its validator ended, starting infos and slash events are of validators with current
rewards, and a validator's records hold one reference for it, one per starting info and one
per slash event. -/
structure Ledger (k : Keeper) : Prop where
  period_pos : ∀ v c, k.currentPeriod v = some c → 1 ≤ c
  historical : ∀ v p r, k.validatorHistoricalRewards.get? (toLex (v, p)) = some r →
    ∃ c, k.currentPeriod v = some c ∧ p < c
  starting : ∀ v d i, k.delegatorStartingInfo.get? (toLex (v, d)) = some i → (k.currentPeriod v).isSome
  slashed : ∀ v h e, k.validatorSlashEvents.get? (toLex (v, h)) = some e → (k.currentPeriod v).isSome
  counts : ∀ v, k.referencesOf v =
    (if (k.currentPeriod v).isSome then 1 else 0) + k.startingInfosOf v + k.slashEventsOf v
  total : k.references = k.validatorCount + k.startingInfoCount + k.slashEventCount

variable {k k' : Keeper}

theorem Ledger.of_sameRecords (hL : Ledger k) (h : SameRecords k k') : Ledger k' where
  period_pos v c hc := hL.period_pos v c (by rw [← h.currentPeriod v]; exact hc)
  historical v p r hr := by
    rw [h.historical] at hr
    simpa [h.currentPeriod v] using hL.historical v p r hr
  starting v d i hi := by
    rw [h.starting] at hi
    simpa [h.currentPeriod v] using hL.starting v d i hi
  slashed v e x hx := by
    rw [h.slashes] at hx
    simpa [h.currentPeriod v] using hL.slashed v e x hx
  counts v := by
    simpa [Keeper.referencesOf, startingInfosOf, slashEventsOf, h.historical, h.starting, h.slashes,
      h.currentPeriod v] using hL.counts v
  total := by
    have hcount : k'.validatorCount = k.validatorCount :=
      validatorCount_eq_of_currentPeriod fun v => by rw [h.currentPeriod v]
    simpa [hcount, Keeper.references, startingInfoCount, slashEventCount, h.historical, h.starting,
      h.slashes] using hL.total

/-! ### The reference counts an operation moves -/

/-- `k'` differs from `k` in its historical records only. -/
structure HistoricalOnly (k k' : Keeper) : Prop where
  current : k'.validatorCurrentRewards = k.validatorCurrentRewards
  starting : k'.delegatorStartingInfo = k.delegatorStartingInfo
  slashes : k'.validatorSlashEvents = k.validatorSlashEvents

section Moves

variable {v : ValAddress} {p : ℕ}

/-- One more reference on a stored record. -/
theorem incrementReferenceCount_moves (h : k.incrementReferenceCount v p = .ok k') :
    HistoricalOnly k k' ∧ (∀ w, k'.referencesOf w = k.referencesOf w + if v = w then 1 else 0) ∧
      k'.references = k.references + 1 ∧
      ∀ key, (k'.validatorHistoricalRewards.get? key).isSome =
        (k.validatorHistoricalRewards.get? key).isSome := by
  obtain ⟨r, hr, -, rfl⟩ := incrementReferenceCount_eq_ok h
  refine ⟨⟨rfl, rfl, rfl⟩, fun w => ?_, ?_, fun key => ?_⟩
  · simp only [Keeper.referencesOf, SetValidatorHistoricalRewards, sumOf_insert, hr, Option.elim]
    split_ifs <;> push_cast <;> ring
  · simp only [Keeper.references, SetValidatorHistoricalRewards, SortedMap.sum_insert_eq, hr,
      Option.elim]
    push_cast
    ring
  · exact SortedMap.isSome_get?_insert _ _ (by rw [hr]; rfl) key

/-- One reference less on a stored record, which is deleted with its last one. -/
theorem decrementReferenceCount_moves (h : k.decrementReferenceCount v p = .ok k') :
    HistoricalOnly k k' ∧ (∀ w, k'.referencesOf w = k.referencesOf w - if v = w then 1 else 0) ∧
      k'.references = k.references - 1 ∧
      (∀ key, key ≠ toLex (v, p) →
        k'.validatorHistoricalRewards.get? key = k.validatorHistoricalRewards.get? key) ∧
      ∀ key x, k'.validatorHistoricalRewards.get? key = some x →
        (k.validatorHistoricalRewards.get? key).isSome := by
  obtain ⟨r, hr, hpos, rfl⟩ := decrementReferenceCount_eq_ok h
  have hsub : ((r.referenceCount - 1 : ℕ) : ℤ) = r.referenceCount - 1 := by omega
  split_ifs with h1
  · refine ⟨⟨rfl, rfl, rfl⟩, fun w => ?_, ?_, fun key hkey => ?_, fun key x hx => ?_⟩
    · simp only [Keeper.referencesOf, DeleteValidatorHistoricalReward, sumOf_erase, hr, Option.elim, h1]
      simp
    · simp only [Keeper.references, DeleteValidatorHistoricalReward, SortedMap.sum_erase_eq, hr,
        Option.elim, h1]
      simp
    · simp [DeleteValidatorHistoricalReward, hkey]
    · simp only [DeleteValidatorHistoricalReward, SortedMap.get?_erase] at hx
      split_ifs at hx
      rw [hx]
      rfl
  · refine ⟨⟨rfl, rfl, rfl⟩, fun w => ?_, ?_, fun key hkey => ?_, fun key x hx => ?_⟩
    · simp only [Keeper.referencesOf, SetValidatorHistoricalRewards, sumOf_insert, hr, Option.elim, hsub]
      split_ifs <;> ring
    · simp only [Keeper.references, SetValidatorHistoricalRewards, SortedMap.sum_insert_eq, hr,
        Option.elim, hsub]
      ring
    · simp [SetValidatorHistoricalRewards, hkey]
    · have hx' : (k.validatorHistoricalRewards.insert (toLex (v, p))
          { r with referenceCount := r.referenceCount - 1 }).get? key = some x := hx
      rw [← SortedMap.isSome_get?_insert _ _ (by rw [hr]; rfl) key, hx']
      rfl

end Moves

/-! ### The operations keep the ledger -/

/-- `incrementValidatorPeriod` keeps the ledger: the validator's reference moves from the record
of its last ended period `c - 1` to a new record of `c`, and its period becomes `c + 1`. -/
theorem Ledger.incrementValidatorPeriod (hL : Ledger k) {val : Staking.Validator} {ended : ℕ}
    (h : k.incrementValidatorPeriod val = .ok (k', ended)) :
    Ledger k' ∧ (∀ w, (k'.currentPeriod w).isSome = (k.currentPeriod w).isSome) ∧
      k'.delegatorStartingInfo = k.delegatorStartingInfo ∧
      k'.validatorSlashEvents = k.validatorSlashEvents := by
  obtain ⟨rewards, k₁, r, k₂, current, hrewards, rfl, hk₁, hr, hk₂, hk'⟩ :=
    incrementValidatorPeriod_eq_ok h
  have hsame := currentRatio_sameRecords hk₁
  have hL₁ := hL.of_sameRecords hsame
  have hcur₁ : k₁.currentPeriod val.operatorAddress = some rewards.period := by
    rw [hsame.currentPeriod]
    simp [currentPeriod, hrewards]
  have hpos := hL₁.period_pos _ _ hcur₁
  obtain ⟨hframe, hrefs, htotal, hother, hdom⟩ := decrementReferenceCount_moves hk₂
  have hcur₂ : ∀ w, k₂.currentPeriod w = k₁.currentPeriod w := fun w => by
    simp only [currentPeriod, hframe.current]
  -- no record of the period ending is stored yet: every stored period is an ended one
  have hfresh : k₂.validatorHistoricalRewards.get? (toLex (val.operatorAddress, rewards.period)) = none := by
    rw [hother _ (fun he => by simp at he; omega)]
    cases hx : k₁.validatorHistoricalRewards.get? (toLex (val.operatorAddress, rewards.period)) with
    | none => rfl
    | some x =>
      obtain ⟨c, hc, hlt⟩ := hL₁.historical _ _ x hx
      rw [hcur₁] at hc
      cases hc
      exact absurd hlt (lt_irrefl _)
  have hdomain : ∀ w, (k'.currentPeriod w).isSome = (k₁.currentPeriod w).isSome := fun w => by
    rw [hk', currentPeriod_SetValidatorCurrentRewards, currentPeriod_SetValidatorHistoricalRewards, hcur₂]
    split_ifs with hw
    · subst hw
      rw [hcur₁]
      rfl
    · rfl
  refine ⟨⟨?_, ?_, ?_, ?_, ?_, ?_⟩, fun w => (hdomain w).trans (by rw [hsame.currentPeriod]),
    by rw [hk']; exact hframe.starting.trans hsame.starting,
    by rw [hk']; exact hframe.slashes.trans hsame.slashes⟩
  · intro w c hc
    rw [hk', currentPeriod_SetValidatorCurrentRewards, currentPeriod_SetValidatorHistoricalRewards,
      hcur₂] at hc
    split_ifs at hc
    · cases hc
      exact Nat.le_add_left 1 _
    · exact hL₁.period_pos w c hc
  · intro w q x hx
    subst hk'
    simp only [SetValidatorCurrentRewards, SetValidatorHistoricalRewards, SortedMap.get?_insert,
      toLex_inj, Prod.mk.injEq] at hx
    rw [currentPeriod_SetValidatorCurrentRewards, currentPeriod_SetValidatorHistoricalRewards, hcur₂]
    split_ifs at hx with hkey
    · -- the new record: of the period just ended
      obtain ⟨rfl, rfl⟩ := hkey
      exact ⟨_, if_pos rfl, Nat.lt_succ_self _⟩
    · obtain ⟨y, hy⟩ := Option.isSome_iff_exists.1 (hdom _ x hx)
      obtain ⟨c, hc, hlt⟩ := hL₁.historical w q y hy
      split_ifs with hw
      · subst hw
        rw [hcur₁] at hc
        cases hc
        exact ⟨_, rfl, Nat.lt_succ_of_lt hlt⟩
      · exact ⟨c, hc, hlt⟩
  · intro w d i hi
    rw [hdomain]
    subst hk'
    exact hL₁.starting w d i (by rw [← hframe.starting]; exact hi)
  · intro w height e he
    rw [hdomain]
    subst hk'
    exact hL₁.slashed w height e (by rw [← hframe.slashes]; exact he)
  · intro w
    have hc := hL₁.counts w
    have hw := hrefs w
    simp only [Keeper.referencesOf, startingInfosOf, slashEventsOf] at hc hw ⊢
    rw [hdomain]
    subst hk'
    simp only [SetValidatorCurrentRewards, SetValidatorHistoricalRewards, sumOf_insert, hfresh,
      Option.elim, hframe.starting, hframe.slashes, hw, hc]
    split_ifs <;> ring
  · have hc := hL₁.total
    have hcount : k'.validatorCount = k₁.validatorCount := validatorCount_eq_of_currentPeriod hdomain
    simp only [Keeper.references, startingInfoCount, slashEventCount] at hc htotal ⊢
    rw [hcount]
    subst hk'
    simp only [SetValidatorCurrentRewards, SetValidatorHistoricalRewards, SortedMap.sum_insert_eq,
      hfresh, Option.elim, hframe.starting, hframe.slashes, htotal, hc]
    push_cast
    ring

/-- `initializeValidator` of a validator without records keeps the ledger: its period zero is
referenced by the validator, and its current rewards go on from period one. -/
theorem Ledger.initializeValidator (hL : Ledger k) {val : Staking.Validator}
    (hnew : k.currentPeriod val.operatorAddress = none) : Ledger (k.initializeValidator val) := by
  -- a validator without current rewards has no record of any kind
  have hhist : ∀ p, k.validatorHistoricalRewards.get? (toLex (val.operatorAddress, p)) = none := by
    intro p
    cases hx : k.validatorHistoricalRewards.get? (toLex (val.operatorAddress, p)) with
    | none => rfl
    | some x =>
      obtain ⟨c, hc, -⟩ := hL.historical _ _ x hx
      rw [hnew] at hc
      cases hc
  have hstart : k.startingInfosOf val.operatorAddress = 0 :=
    sumOf_eq_zero _ _ _ fun d i hi => by simpa [hnew] using hL.starting _ d i hi
  have hslash : k.slashEventsOf val.operatorAddress = 0 :=
    sumOf_eq_zero _ _ _ fun e x hx => by simpa [hnew] using hL.slashed _ e x hx
  have hcur : k.validatorCurrentRewards.get? val.operatorAddress = none := by
    simpa [currentPeriod] using hnew
  refine ⟨fun w c hc => ?_, fun w p r hr => ?_, fun w d i hi => ?_, fun w e x hx => ?_, fun w => ?_, ?_⟩
  · rw [currentPeriod_initializeValidator] at hc
    split_ifs at hc
    · cases hc
      exact le_rfl
    · exact hL.period_pos w c hc
  · simp only [Keeper.initializeValidator, SetValidatorOutstandingRewards,
      SetValidatorAccumulatedCommission, SetValidatorCurrentRewards, SetValidatorHistoricalRewards,
      SortedMap.get?_insert, toLex_inj, Prod.mk.injEq] at hr
    rw [currentPeriod_initializeValidator]
    split_ifs at hr with hkey
    · obtain ⟨rfl, rfl⟩ := hkey
      exact ⟨1, if_pos rfl, Nat.one_pos⟩
    · obtain ⟨c, hc, hlt⟩ := hL.historical w p r hr
      have hw : w ≠ val.operatorAddress := by
        rintro rfl
        rw [hnew] at hc
        cases hc
      exact ⟨c, (if_neg hw).trans hc, hlt⟩
  · rw [currentPeriod_initializeValidator]
    split_ifs
    · rfl
    · exact hL.starting w d i hi
  · rw [currentPeriod_initializeValidator]
    split_ifs
    · rfl
    · exact hL.slashed w e x hx
  · have hc := hL.counts w
    rw [currentPeriod_initializeValidator]
    simp only [Keeper.referencesOf, startingInfosOf, slashEventsOf] at hc hstart hslash ⊢
    simp only [Keeper.initializeValidator, SetValidatorOutstandingRewards,
      SetValidatorAccumulatedCommission, SetValidatorCurrentRewards, SetValidatorHistoricalRewards,
      sumOf_insert, hhist, Option.elim]
    by_cases hw : w = val.operatorAddress
    · subst hw
      simp only [if_true, hc, hnew, hstart, hslash]
      rfl
    · simp only [if_neg hw, if_neg (Ne.symm hw), hc, add_zero]
  · have hc := hL.total
    simp only [Keeper.references, validatorCount, startingInfoCount, slashEventCount] at hc ⊢
    simp only [Keeper.initializeValidator, SetValidatorOutstandingRewards,
      SetValidatorAccumulatedCommission, SetValidatorCurrentRewards, SetValidatorHistoricalRewards,
      State.SetValidatorOutstandingRewards, State.SetValidatorAccumulatedCommission,
      State.SetValidatorCurrentRewards, SortedMap.sum_insert_eq, hhist, hcur, Option.elim, hc]
    push_cast
    ring

/-- `initializeDelegation` of a delegation without a starting info keeps the ledger: the period
its validator last ended gains the reference of its new starting info. -/
theorem Ledger.initializeDelegation (hL : Ledger k) {sk : Staking.State} {height : ℕ}
    {v : ValAddress} {d : AccAddress} (hfresh : k.delegatorStartingInfo.get? (toLex (v, d)) = none)
    (h : k.initializeDelegation sk height v d = .ok k') :
    Ledger k' ∧ (∀ w, k'.currentPeriod w = k.currentPeriod w) ∧
      k'.validatorSlashEvents = k.validatorSlashEvents ∧
      ∃ info, k'.delegatorStartingInfo = k.delegatorStartingInfo.insert (toLex (v, d)) info := by
  obtain ⟨rewards, k₁, val, del, stake, hrewards, hk₁, -, -, rfl⟩ := initializeDelegation_eq_ok h
  obtain ⟨hframe, hrefs, htotal, hdom⟩ := incrementReferenceCount_moves hk₁
  have hcur : ∀ w, k₁.currentPeriod w = k.currentPeriod w := fun w => by
    simp only [currentPeriod, hframe.current]
  have hv : (k.currentPeriod v).isSome := by simp [currentPeriod, hrewards]
  refine ⟨⟨fun w c hc => ?_, fun w p r hr => ?_, fun w e i hi => ?_, fun w e x hx => ?_, fun w => ?_, ?_⟩,
    fun w => hcur w, hframe.slashes, ⟨rewards.period - 1, stake, height⟩,
    by simp only [SetDelegatorStartingInfo, hframe.starting]⟩
  · rw [currentPeriod_SetDelegatorStartingInfo, hcur] at hc
    exact hL.period_pos w c hc
  · obtain ⟨y, hy⟩ := Option.isSome_iff_exists.1 ((hdom _).symm.trans (Option.isSome_iff_exists.2 ⟨r, hr⟩))
    rw [currentPeriod_SetDelegatorStartingInfo, hcur]
    exact hL.historical w p y hy
  · simp only [SetDelegatorStartingInfo, SortedMap.get?_insert, toLex_inj, Prod.mk.injEq] at hi
    rw [currentPeriod_SetDelegatorStartingInfo, hcur]
    split_ifs at hi with hkey
    · rw [hkey.1]
      exact hv
    · exact hL.starting w e i (by rw [← hframe.starting]; exact hi)
  · rw [currentPeriod_SetDelegatorStartingInfo, hcur]
    exact hL.slashed w e x (by rw [← hframe.slashes]; exact hx)
  · have hc := hL.counts w
    have hw := hrefs w
    simp only [Keeper.referencesOf, startingInfosOf, slashEventsOf] at hc hw ⊢
    rw [currentPeriod_SetDelegatorStartingInfo, hcur]
    simp only [SetDelegatorStartingInfo, sumOf_insert, hframe.starting, hfresh, Option.elim,
      hframe.slashes, hw, hc]
    split_ifs <;> ring
  · have hc := hL.total
    have hcount : (k₁.SetDelegatorStartingInfo v d ⟨rewards.period - 1, stake, height⟩).validatorCount =
        k.validatorCount :=
      validatorCount_eq_of_currentPeriod fun w => by rw [currentPeriod_SetDelegatorStartingInfo, hcur]
    rw [hcount]
    simp only [Keeper.references, startingInfoCount, slashEventCount] at hc htotal ⊢
    simp only [SetDelegatorStartingInfo, SortedMap.sum_insert_eq, hframe.starting, hfresh,
      Option.elim, hframe.slashes, htotal, hc]
    ring

/-- `withdrawDelegationRewards` keeps the ledger: the validator's period ends, and the
delegation's starting info is deleted with the reference it held. -/
theorem Ledger.withdrawDelegationRewards (hL : Ledger k) {height : ℕ} {val : Staking.Validator}
    {del : Staking.Delegation} {coins : Coins}
    (h : k.withdrawDelegationRewards height val del = .ok (k', coins)) :
    Ledger k' ∧ (∀ w, (k'.currentPeriod w).isSome = (k.currentPeriod w).isSome) ∧
      k'.validatorSlashEvents = k.validatorSlashEvents ∧
      k'.delegatorStartingInfo =
        k.delegatorStartingInfo.erase (toLex (del.validatorAddress, del.delegatorAddress)) := by
  obtain ⟨k₁, ended, info, k₂, k₃, -, hk₁, hinfo, hk₂, hsame, rfl⟩ :=
    withdrawDelegationRewards_eq_ok h
  obtain ⟨hL₁, hdom₁, hstart₁, hslash₁⟩ := hL.incrementValidatorPeriod hk₁
  obtain ⟨hframe, hrefs, htotal, -, hdom₂⟩ := decrementReferenceCount_moves hk₂
  -- from `k₁` to `k₃` only the historical records moved
  have hcur : ∀ w, k₃.currentPeriod w = k₁.currentPeriod w := fun w => by
    rw [hsame.currentPeriod]
    simp only [currentPeriod, hframe.current]
  have hstart : k₃.delegatorStartingInfo = k₁.delegatorStartingInfo :=
    hsame.starting.trans hframe.starting
  have hslash : k₃.validatorSlashEvents = k₁.validatorSlashEvents := hsame.slashes.trans hframe.slashes
  refine ⟨⟨fun w c hc => ?_, fun w p r hr => ?_, fun w e i hi => ?_, fun w e x hx => ?_, fun w => ?_, ?_⟩,
    fun w => by rw [currentPeriod_DeleteDelegatorStartingInfo, hcur, hdom₁],
    hslash.trans hslash₁, by simp only [DeleteDelegatorStartingInfo, hstart, hstart₁]⟩
  · rw [currentPeriod_DeleteDelegatorStartingInfo, hcur] at hc
    exact hL₁.period_pos w c hc
  · have hr₂ : k₂.validatorHistoricalRewards.get? (toLex (w, p)) = some r := by
      rw [← hsame.historical]
      exact hr
    obtain ⟨y, hy⟩ := Option.isSome_iff_exists.1 (hdom₂ _ r hr₂)
    rw [currentPeriod_DeleteDelegatorStartingInfo, hcur]
    exact hL₁.historical w p y hy
  · simp only [DeleteDelegatorStartingInfo, SortedMap.get?_erase, hstart] at hi
    rw [currentPeriod_DeleteDelegatorStartingInfo, hcur]
    split_ifs at hi
    exact hL₁.starting w e i hi
  · rw [currentPeriod_DeleteDelegatorStartingInfo, hcur]
    exact hL₁.slashed w e x (by rw [← hslash]; exact hx)
  · have hc := hL₁.counts w
    have hw := hrefs w
    rw [currentPeriod_DeleteDelegatorStartingInfo, hcur]
    simp only [Keeper.referencesOf, startingInfosOf, slashEventsOf] at hc hw ⊢
    simp only [DeleteDelegatorStartingInfo, sumOf_erase, hsame.historical, hstart, hslash, hinfo,
      Option.elim, hw, hc]
    split_ifs <;> ring
  · have hc := hL₁.total
    have hcount : (k₃.DeleteDelegatorStartingInfo del.validatorAddress del.delegatorAddress).validatorCount =
        k₁.validatorCount :=
      validatorCount_eq_of_currentPeriod fun w => by rw [currentPeriod_DeleteDelegatorStartingInfo, hcur]
    rw [hcount]
    simp only [Keeper.references, startingInfoCount, slashEventCount] at hc htotal ⊢
    simp only [DeleteDelegatorStartingInfo, SortedMap.sum_erase_eq, hsame.historical, hstart, hslash,
      hinfo, Option.elim, htotal, hc]
    ring

/-- `updateValidatorSlashFraction` keeps the ledger.  The first slash at a height ends the
validator's period, whose record gains the event's reference; a second one overwrites the event,
and no count moves. -/
theorem Ledger.updateValidatorSlashFraction (hL : Ledger k) {sk : Staking.State} {height : ℕ}
    {v : ValAddress} {fraction : Dec}
    (h : k.updateValidatorSlashFraction sk height v fraction = .ok k') :
    Ledger k' ∧ (∀ w, (k'.currentPeriod w).isSome = (k.currentPeriod w).isSome) ∧
      k'.delegatorStartingInfo = k.delegatorStartingInfo ∧
      ∃ e, k'.validatorSlashEvents = k.validatorSlashEvents.insert (toLex (v, height)) e := by
  obtain ⟨rewards, k₁, f, ended, updated, hrewards, hk₁, rfl⟩ := updateValidatorSlashFraction_eq_ok h
  have hv : (k.currentPeriod v).isSome := by simp [currentPeriod, hrewards]
  rcases slashedPeriod_eq_ok hk₁ with ⟨e, he, hk⟩ | ⟨hnone, val, k₂, -, hk₂, hk₁'⟩
  · -- a second slash at the height: the event is overwritten in place
    subst k₁
    refine ⟨⟨fun w c hc => hL.period_pos w c hc, fun w p r hr => hL.historical w p r hr,
      fun w d i hi => hL.starting w d i hi, fun w e' x hx => ?_, fun w => ?_, ?_⟩,
      fun w => rfl, rfl, _, rfl⟩
    · simp only [SetValidatorSlashEvent, SortedMap.get?_insert, toLex_inj, Prod.mk.injEq] at hx
      rw [currentPeriod_SetValidatorSlashEvent]
      split_ifs at hx with hkey
      · rw [hkey.1]
        exact hv
      · exact hL.slashed w e' x hx
    · have hc := hL.counts w
      rw [currentPeriod_SetValidatorSlashEvent]
      simp only [Keeper.referencesOf, startingInfosOf, slashEventsOf] at hc ⊢
      simp only [SetValidatorSlashEvent, sumOf_insert, he, Option.elim, sub_self, hc]
      split_ifs <;> ring
    · have hc := hL.total
      have hcount : (k.SetValidatorSlashEvent v height ⟨ended, updated⟩).validatorCount = k.validatorCount :=
        validatorCount_eq_of_currentPeriod fun w => by rw [currentPeriod_SetValidatorSlashEvent]
      rw [hcount]
      simp only [Keeper.references, startingInfoCount, slashEventCount] at hc ⊢
      simp only [SetValidatorSlashEvent, SortedMap.sum_insert_eq, he, Option.elim, hc]
      ring
  · -- the first slash at the height: a new event on the period just ended
    obtain ⟨hL₂, hdom₂, hstart₂, hslash₂⟩ := hL.incrementValidatorPeriod hk₂
    obtain ⟨hframe, hrefs, htotal, hdom₁⟩ := incrementReferenceCount_moves hk₁'
    have hcur : ∀ w, k₁.currentPeriod w = k₂.currentPeriod w := fun w => by
      simp only [currentPeriod, hframe.current]
    have hnone₂ : k₂.validatorSlashEvents.get? (toLex (v, height)) = none := by
      rw [hslash₂, hnone]
    refine ⟨⟨fun w c hc => ?_, fun w p r hr => ?_, fun w d i hi => ?_, fun w e' x hx => ?_,
      fun w => ?_, ?_⟩, fun w => by rw [currentPeriod_SetValidatorSlashEvent, hcur, hdom₂],
      hframe.starting.trans hstart₂, ⟨ended, updated⟩,
      by simp only [SetValidatorSlashEvent, hframe.slashes, hslash₂]⟩
    · rw [currentPeriod_SetValidatorSlashEvent, hcur] at hc
      exact hL₂.period_pos w c hc
    · obtain ⟨y, hy⟩ := Option.isSome_iff_exists.1 ((hdom₁ _).symm.trans (Option.isSome_iff_exists.2 ⟨r, hr⟩))
      rw [currentPeriod_SetValidatorSlashEvent, hcur]
      exact hL₂.historical w p y hy
    · rw [currentPeriod_SetValidatorSlashEvent, hcur]
      exact hL₂.starting w d i (by rw [← hframe.starting]; exact hi)
    · simp only [SetValidatorSlashEvent, SortedMap.get?_insert, toLex_inj, Prod.mk.injEq] at hx
      rw [currentPeriod_SetValidatorSlashEvent, hcur]
      split_ifs at hx with hkey
      · rw [hkey.1, hdom₂]
        exact hv
      · exact hL₂.slashed w e' x (by rw [← hframe.slashes]; exact hx)
    · have hc := hL₂.counts w
      have hw := hrefs w
      rw [currentPeriod_SetValidatorSlashEvent, hcur]
      simp only [Keeper.referencesOf, startingInfosOf, slashEventsOf] at hc hw ⊢
      simp only [SetValidatorSlashEvent, sumOf_insert, hframe.starting, hframe.slashes, hnone₂,
        Option.elim, hw, hc]
      split_ifs <;> ring
    · have hc := hL₂.total
      have hcount : (k₁.SetValidatorSlashEvent v height ⟨ended, updated⟩).validatorCount =
          k₂.validatorCount :=
        validatorCount_eq_of_currentPeriod fun w => by rw [currentPeriod_SetValidatorSlashEvent, hcur]
      rw [hcount]
      simp only [Keeper.references, startingInfoCount, slashEventCount] at hc htotal ⊢
      simp only [SetValidatorSlashEvent, SortedMap.sum_insert_eq, hframe.starting, hframe.slashes,
        hnone₂, Option.elim, htotal, hc]
      ring

/-- `AfterValidatorRemoved` of a validator without starting infos keeps the ledger: its records
go, and with them every reference they held. -/
theorem Ledger.AfterValidatorRemoved (hL : Ledger k) {v : ValAddress}
    (hstart : ∀ d, k.delegatorStartingInfo.get? (toLex (v, d)) = none)
    (h : k.AfterValidatorRemoved v = .ok k') :
    Ledger k' ∧ (∀ w, k'.currentPeriod w = if w = v then none else k.currentPeriod w) ∧
      k'.delegatorStartingInfo = k.delegatorStartingInfo := by
  obtain ⟨k₁, hsame, rfl⟩ := AfterValidatorRemoved_eq_ok h
  have hL₁ := hL.of_sameRecords hsame
  have hcur : ∀ w, (((k₁.DeleteValidatorSlashEvents v).DeleteValidatorHistoricalRewards v).DeleteValidatorCurrentRewards
      v).currentPeriod w = if w = v then none else k.currentPeriod w := fun w => by
    rw [currentPeriod_DeleteValidatorCurrentRewards, currentPeriod_DeleteValidatorHistoricalRewards,
      currentPeriod_DeleteValidatorSlashEvents, hsame.currentPeriod]
  have hstart₁ : ∀ d, k₁.delegatorStartingInfo.get? (toLex (v, d)) = none := fun d => by
    rw [hsame.starting, hstart]
  have hnone : k₁.startingInfosOf v = 0 := sumOf_eq_zero _ _ _ fun d i => by rw [hstart₁]; simp
  refine ⟨⟨fun w c hc => ?_, fun w p r hr => ?_, fun w d i hi => ?_, fun w e x hx => ?_,
    fun w => ?_, ?_⟩, hcur, hsame.starting⟩
  · rw [hcur] at hc
    split_ifs at hc
    exact hL.period_pos w c hc
  · simp only [DeleteValidatorCurrentRewards, DeleteValidatorHistoricalRewards, SortedMap.get?_filter,
      ofLex_toLex] at hr
    by_cases hw : w = v
    · simp only [hw, ne_eq, not_true_eq_false, decide_false, Bool.false_eq_true, if_false] at hr
      cases hr
    simp only [ne_eq, hw, not_false_eq_true, decide_true, if_true] at hr
    rw [hcur, if_neg hw, ← hsame.currentPeriod]
    exact hL₁.historical w p r hr
  · have hi₁ : k₁.delegatorStartingInfo.get? (toLex (w, d)) = some i := hi
    have hw : w ≠ v := by
      rintro rfl
      rw [hstart₁] at hi₁
      cases hi₁
    rw [hcur, if_neg hw, ← hsame.currentPeriod]
    exact hL₁.starting w d i hi₁
  · simp only [DeleteValidatorCurrentRewards, DeleteValidatorHistoricalRewards, DeleteValidatorSlashEvents,
      SortedMap.get?_filter, ofLex_toLex] at hx
    by_cases hw : w = v
    · simp only [hw, ne_eq, not_true_eq_false, decide_false, Bool.false_eq_true, if_false] at hx
      cases hx
    simp only [ne_eq, hw, not_false_eq_true, decide_true, if_true] at hx
    rw [hcur, if_neg hw, ← hsame.currentPeriod]
    exact hL₁.slashed w e x hx
  · have hc := hL₁.counts w
    rw [hcur]
    simp only [Keeper.referencesOf, startingInfosOf, slashEventsOf, DeleteValidatorCurrentRewards,
      DeleteValidatorHistoricalRewards, DeleteValidatorSlashEvents, sumOf_filter] at hc hnone ⊢
    by_cases hw : w = v
    · -- the removed validator holds nothing any more
      subst hw
      simp [hnone]
    · simpa only [if_neg hw, hsame.currentPeriod] using hc
  · have hc := hL₁.total
    have hv := hL₁.counts v
    simp only [Keeper.references, validatorCount, startingInfoCount, slashEventCount,
      Keeper.referencesOf, startingInfosOf, slashEventsOf] at hc hv hnone ⊢
    simp only [DeleteValidatorCurrentRewards, DeleteValidatorHistoricalRewards, DeleteValidatorSlashEvents,
      sum_filter_validator, SortedMap.sum_erase_eq, hv, hc, hnone]
    cases hcur₁ : k₁.validatorCurrentRewards.get? v <;> simp [currentPeriod, hcur₁] <;> ring

end Keeper

end CosmosSdk.Distribution
