import CosmosSdk.Staking.Handler
import CosmosSdk.Staking.Ledger
import CosmosSdk.Staking.ExchangeRate
import CosmosSdk.Lib.Transition

/-!
# The share ledger along the keeper's operations

Each operation of the staking keeper keeps `Ledger.Inv` of the state's share ledger: the
operations that change only a validator's status or jail flag leave the ledger as it was
(they write back the stored record with another status), `Delegate` and `unbond` move
shares between one delegation and its validator (`Ledger.Inv.transfer`), with the rate
bounds of `ExchangeRate`, and the removal of a validator happens only once it has no
shares.  From these, `Step` keeps the invariant, and so does every run.
-/

namespace CosmosSdk.Staking

namespace State

open Ledger

variable {s s' : State}

/-! ### Stored records -/

theorem operatorAddress_of_get (hs : s.ledger.Inv) {a : ValAddress} {v : Validator}
    (hv : s.GetValidator a = some v) : v.operatorAddress = a :=
  hs.stake_key a v.stake (s.ledger_stakes_of_get hv)

/-- Writing back a stored validator with the same stake changes no ledger. -/
theorem setStake_stored (hs : s.ledger.Inv) {a : ValAddress} {v : Validator}
    (hv : s.GetValidator a = some v) : s.ledger.setStake v.stake = s.ledger :=
  hs.setStake_self (s.ledger_stakes_of_get hv)

/-- Two validators stored under one address in states with the same ledger have the same
stake. -/
theorem stake_eq_of_ledger_eq {t : State} (hl : s.ledger = t.ledger) {a : ValAddress}
    {v w : Validator} (hv : s.GetValidator a = some v) (hw : t.GetValidator a = some w) :
    v.stake = w.stake := by
  have h1 := s.ledger_stakes_of_get hv
  rw [hl, t.ledger_stakes_of_get hw] at h1
  exact (Option.some.inj h1).symm

/-- The delegation under a pair is stored under that pair's key, and is to that
validator. -/
theorem delegation_of_get (hs : s.ledger.Inv) {del : AccAddress} {val : ValAddress}
    {d : Delegation} (hd : s.GetDelegation del val = some d) :
    d.key = toLex (del, val) ∧ d.validatorAddress = val := by
  have hk := hs.delegation_key _ d hd
  refine ⟨hk.symm, ?_⟩
  simp only [Delegation.key, toLex_inj, Prod.mk.injEq] at hk
  exact hk.2.symm

/-! ### Operations that leave the ledger as it was -/

theorem jailValidator_ledger {v : Validator} (h : s.jailValidator v = .ok s') :
    s'.ledger = s.ledger.setStake v.stake := by
  obtain ⟨-, rfl⟩ := jailValidator_eq_ok h
  simp only [ledger_DeleteValidatorByPowerIndex, ledger_SetValidator]
  rfl

theorem unjailValidator_ledger {v : Validator} (h : s.unjailValidator v = .ok s') :
    s'.ledger = s.ledger.setStake v.stake := by
  obtain ⟨-, rfl⟩ := unjailValidator_eq_ok h
  simp only [ledger_SetValidatorByPowerIndex, ledger_SetValidator]
  rfl

theorem bondValidator_ledger {v v' : Validator} (h : s.bondValidator v = .ok (s', v')) :
    s'.ledger = s.ledger.setStake v.stake := by
  obtain ⟨pool, hup, rfl⟩ := bondValidator_eq_ok h
  obtain ⟨rfl, -⟩ := Validator.UpdateStatus_eq_ok.mp hup
  simp only [ledger_DeleteValidatorQueue, ledger_SetValidatorByPowerIndex, ledger_SetValidator,
    ledger_SetPool, ledger_DeleteValidatorByPowerIndex]
  rfl

theorem beginUnbondingValidator_ledger {hdr : Header} {v v' : Validator}
    (h : s.beginUnbondingValidator hdr v = .ok (s', v')) : s'.ledger = s.ledger.setStake v.stake := by
  obtain ⟨-, v₁, pool, hup, rfl, rfl⟩ := beginUnbondingValidator_eq_ok h
  obtain ⟨rfl, -⟩ := Validator.UpdateStatus_eq_ok.mp hup
  simp only [ledger_InsertValidatorQueue, ledger_SetValidatorByPowerIndex, ledger_SetValidator,
    ledger_SetPool, ledger_DeleteValidatorByPowerIndex]
  rfl

theorem completeUnbondingValidator_ledger {v v' : Validator}
    (h : s.completeUnbondingValidator v = .ok (s', v')) : s'.ledger = s.ledger.setStake v.stake := by
  obtain ⟨pool, hup, rfl⟩ := completeUnbondingValidator_eq_ok h
  obtain ⟨rfl, -⟩ := Validator.UpdateStatus_eq_ok.mp hup
  simp only [ledger_SetValidator, ledger_SetPool]
  rfl

/-- `RemoveValidator` of a validator without shares keeps the invariant, and touches no
other validator. -/
theorem RemoveValidator_inv (hs : s.ledger.Inv) {a : ValAddress}
    (h0 : ∀ v, s.GetValidator a = some v → v.delegatorShares.i = 0)
    (h : s.RemoveValidator a = .ok s') :
    s'.ledger.Inv ∧ ∀ b, b ≠ a → s'.ledger.stakes b = s.ledger.stakes b := by
  rcases RemoveValidator_eq_ok h with ⟨-, rfl⟩ | ⟨v, hv, -, -, rfl⟩
  · exact ⟨hs, fun _ _ => rfl⟩
  · -- the record and its indexes go; the ledger loses the stake under `a`
    have hl : ledger { s with
        validators := s.validators.erase a
        validatorsByConsAddr := s.validatorsByConsAddr.erase v.ConsAddress
        validatorsByPower := s.validatorsByPower.erase (GetValidatorsByPowerIndexKey v) } =
        s.ledger.eraseStake a := by
      simp only [ledger, Ledger.eraseStake, Ledger.mk.injEq, and_true]
      funext b
      rw [SortedMap.get?_erase, Function.update_apply]
      split_ifs <;> rfl
    rw [hl]
    refine ⟨hs.eraseStake (s.ledger_stakes_of_get hv) (h0 v hv), fun b hb => ?_⟩
    simp only [Ledger.eraseStake, Function.update_apply, if_neg hb]

/-! ### Delegating -/

/-- The delegation `Delegate` adds to: the stored one under the pair, or a new one with no
shares.  Either way it has the pair's key, and the shares stored under that key are its
own. -/
theorem getD_delegation (hs : s.ledger.Inv) (del : AccAddress) (val : ValAddress) :
    ((s.GetDelegation del val).getD ⟨del, val, 0⟩).key = toLex (del, val) ∧
    ((s.GetDelegation del val).getD ⟨del, val, 0⟩).validatorAddress = val ∧
    (s.delegations.get? (toLex (del, val))).elim 0 (·.shares.i) =
      ((s.GetDelegation del val).getD ⟨del, val, 0⟩).shares.i ∧
    0 ≤ ((s.GetDelegation del val).getD ⟨del, val, 0⟩).shares.i := by
  cases hd : s.GetDelegation del val with
  | none =>
    have hnone : s.delegations.get? (toLex (del, val)) = none := hd
    simp [hnone, Delegation.key]
  | some d =>
    obtain ⟨hk, hval⟩ := delegation_of_get hs hd
    have hsome : s.delegations.get? (toLex (del, val)) = some d := hd
    exact ⟨hk, hval, by simp [hsome], (hs.shares_pos _ d hsome).le⟩

/-- `Delegate` of a positive amount to a stored validator keeps the invariant, and issues
at least as many shares as tokens. -/
theorem Delegate_inv (hs : s.ledger.Inv) {del : AccAddress} {amt : ℤ} {v : Validator}
    {sub : Bool} {sh : Dec} (hv : s.GetValidator v.operatorAddress = some v) (hamt : 0 < amt)
    (h : s.Delegate del amt v sub = .ok (s', sh)) : s'.ledger.Inv ∧ amt ≤ sh.i := by
  obtain ⟨-, s₁, s₂, v', h₁, h₂, rfl⟩ := Delegate_eq_ok h
  -- the bank leaves the ledger alone
  have hl₁ : s₁.ledger = s.ledger := by
    cases sub
    · simp only [Bool.false_eq_true, if_false, Except.pure_eq_ok, Except.ok_inj] at h₁
      rw [h₁]
    · simp only [if_true] at h₁
      obtain ⟨c, -, hc⟩ := Except.bind_eq_ok.mp h₁
      exact ledger_DelegateCoins _ hc
  obtain ⟨pool, hadd, rfl⟩ := AddValidatorTokensAndShares_eq_ok h₂
  have hstake := s.ledger_stakes_of_get hv
  have hT0 : 0 ≤ v.tokens := hs.tokens_nonneg _ _ hstake
  have hTS : v.tokens ≤ v.delegatorShares.i := hs.tokens_le_shares _ _ hstake
  have hS : v.delegatorShares.i = delegatedShares s.delegations v.operatorAddress :=
    hs.shares_eq _ _ hstake
  obtain ⟨hsh, hT', hS'⟩ := Validator.AddTokensFromDel_rate hT0 hTS hamt hadd
  have hop : v'.operatorAddress = v.operatorAddress := by
    rw [(Validator.AddTokensFromDel_eq_ok hadd).1]
  obtain ⟨hkey, hval, hold, hnn⟩ := getD_delegation hs del v.operatorAddress
  refine ⟨?_, hsh⟩
  simp only [ledger_SetDelegation, ledger_SetValidatorByPowerIndex, ledger_SetPool,
    ledger_SetValidator, ledger_DeleteValidatorByPowerIndex, hl₁, setStake_setDelegation]
  -- the shares issued go to both the validator and the delegation
  refine hs.transfer (by rw [Validator.stake_operatorAddress, hop]; exact hval)
    (by rw [Validator.stake_tokens]; omega)
    (by rw [Validator.stake_tokens, Validator.stake_delegatorShares]; omega)
    (by rw [Dec.add_i]; omega) ?_
  simp only [Delegation.key] at hkey
  simp only [Validator.stake_delegatorShares, Validator.stake_operatorAddress, Dec.add_i,
    ledger_delegations, Delegation.key, hkey, hold, hop]
  omega

/-! ### Unbonding -/

/-- The jail step of `unbond` changes no stake: the record it continues with has the stake
of the one it read. -/
theorem unbond_jail_step (hs : s.ledger.Inv) {val : ValAddress} {v v₁ : Validator} {s₁ : State}
    (hv : s.GetValidator val = some v)
    (hj : (s₁ = s ∧ v₁ = v) ∨
      (s.jailValidator v = .ok s₁ ∧ s₁.mustGetValidator v.operatorAddress = .ok v₁)) :
    s₁.ledger = s.ledger ∧ v₁.stake = v.stake := by
  rcases hj with ⟨rfl, rfl⟩ | ⟨hjail, hget⟩
  · exact ⟨rfl, rfl⟩
  · have hl : s₁.ledger = s.ledger := by
      rw [jailValidator_ledger hjail, setStake_stored hs hv]
    have hva := operatorAddress_of_get hs hv
    rw [hva] at hget
    exact ⟨hl, stake_eq_of_ledger_eq hl ((mustGetValidator_eq_ok _).mp hget) hv⟩

/-- The shares step of `unbond`: the delegation loses `x` shares (and goes once it has
none), and its validator loses them with the tokens they are worth. -/
theorem unbond_shares_step (hs : s.ledger.Inv) {del : AccAddress} {val : ValAddress}
    {x : Dec} {d : Delegation} {v v₁ v₂ : Validator} {s₁ s₂ : State} {amt : ℤ}
    (hx : 0 ≤ x.i) (hd : s.GetDelegation del val = some d) (hxd : x ≤ d.shares)
    (hv : s.GetValidator val = some v) (hl₁ : s₁.ledger = s.ledger) (hst : v₁.stake = v.stake)
    (hr : (if (d.shares - x).isZero then s₁.RemoveDelegation { d with shares := d.shares - x }
        else s₁.SetDelegation { d with shares := d.shares - x }).RemoveValidatorTokensAndShares v₁ x =
          .ok (s₂, v₂, amt)) :
    s₂.ledger.Inv ∧ 0 ≤ amt ∧ v₂.operatorAddress = val ∧
      s₂.ledger.stakes val = some v₂.stake ∧ ∀ b, b ≠ val → s₂.ledger.stakes b = s.ledger.stakes b := by
  obtain ⟨pool, hrem, rfl⟩ := RemoveValidatorTokensAndShares_eq_ok hr
  have hstake := s.ledger_stakes_of_get hv
  have hva := operatorAddress_of_get hs hv
  obtain ⟨hkey, hdval⟩ := delegation_of_get hs hd
  have hget : s.delegations.get? d.key = some d := by rw [hkey]; exact hd
  -- the record unbonded from reads the stored stake
  have hop : v₁.operatorAddress = val := by rw [← hva]; exact congrArg Stake.operatorAddress hst
  have hT1 : v₁.tokens = v.tokens := congrArg Stake.tokens hst
  have hS1 : v₁.delegatorShares = v.delegatorShares := congrArg Stake.delegatorShares hst
  have hS : v.delegatorShares.i = delegatedShares s.delegations val := hs.shares_eq _ _ hstake
  have hdle : d.shares.i ≤ delegatedShares s.delegations val := by
    rw [← hdval]; exact hs.shares_le hget
  have hxd' : x.i ≤ d.shares.i := hxd
  have hT0 : 0 ≤ v₁.tokens := by rw [hT1]; exact hs.tokens_nonneg _ _ hstake
  have hTS : v₁.tokens ≤ v₁.delegatorShares.i := by
    rw [hT1, hS1]; exact hs.tokens_le_shares _ _ hstake
  have hxS : x.i ≤ v₁.delegatorShares.i := by rw [hS1, hS]; omega
  obtain ⟨hS₂, -, hamt, hT0₂, hTS₂⟩ := Validator.RemoveDelShares_rate hx hxS hT0 hTS hrem
  have hop₂ : v₂.operatorAddress = val := by rw [(Validator.RemoveDelShares_eq_ok hrem).1, hop]
  have hkey' : ({ d with shares := d.shares - x } : Delegation).key = d.key := rfl
  have hdv : ({ d with shares := d.shares - x } : Delegation).validatorAddress =
      v₂.stake.operatorAddress := by
    rw [Validator.stake_operatorAddress, hop₂]; exact hdval
  have hS₂' : v₂.stake.delegatorShares.i = v.delegatorShares.i - x.i := by
    rw [Validator.stake_delegatorShares, hS₂, hS1]
  -- the stakes after the step, other than the one unbonded from
  have hframe : ∀ l : Ledger, ∀ b, b ≠ val → (l.setStake v₂.stake).stakes b = l.stakes b := by
    intro l b hb
    simp only [Ledger.setStake, Validator.stake_operatorAddress, hop₂, Function.update_of_ne hb]
  refine ⟨?_, hamt, hop₂, ?_, fun b hb => ?_⟩
  · -- the delegation is removed when it is left without shares, kept otherwise
    split_ifs with hz
    · simp only [ledger_SetValidatorByPowerIndex, ledger_SetPool, ledger_SetValidator,
        ledger_DeleteValidatorByPowerIndex, ledger_RemoveDelegation, hl₁]
      refine hs.transfer_remove hdv hT0₂ hTS₂ ?_
      simp only [Dec.isZero_iff, Dec.sub_i] at hz
      rw [hkey', ledger_delegations, hget, Option.elim_some, hS₂', Validator.stake_operatorAddress,
        hop₂, hS]
      omega
    · simp only [ledger_SetValidatorByPowerIndex, ledger_SetPool, ledger_SetValidator,
        ledger_DeleteValidatorByPowerIndex, ledger_SetDelegation, hl₁]
      simp only [Dec.isZero_iff, Dec.sub_i] at hz
      refine hs.transfer hdv hT0₂ hTS₂ (by rw [Dec.sub_i]; omega) ?_
      rw [hkey', ledger_delegations, hget, Option.elim_some, hS₂', Validator.stake_operatorAddress,
        hop₂, hS, Dec.sub_i]
      omega
  · split_ifs <;>
      simp only [ledger_SetValidatorByPowerIndex, ledger_SetPool, ledger_SetValidator,
        ledger_DeleteValidatorByPowerIndex, Ledger.setStake, Validator.stake_operatorAddress, hop₂,
        Function.update_self]
  · split_ifs <;>
      simp only [ledger_SetValidatorByPowerIndex, ledger_SetPool, ledger_SetValidator,
        ledger_DeleteValidatorByPowerIndex, ledger_SetDelegation, ledger_RemoveDelegation,
        hframe _ b hb, hl₁, Ledger.setDelegation, Ledger.removeDelegation]

/-- `unbond` of a nonnegative number of shares keeps the invariant, pays out a nonnegative
amount, and changes no validator but the one unbonded from. -/
theorem unbond_inv (hs : s.ledger.Inv) {del : AccAddress} {val : ValAddress} {x : Dec}
    {amt : ℤ} (hx : 0 ≤ x.i) (h : s.unbond del val x = .ok (s', amt)) :
    s'.ledger.Inv ∧ 0 ≤ amt ∧ ∀ b, b ≠ val → s'.ledger.stakes b = s.ledger.stakes b := by
  obtain ⟨d, v, hd, hxd, hv, s₁, v₁, hj, s₂, v₂, hr, hrv⟩ := unbond_eq_ok h
  obtain ⟨hl₁, hst⟩ := unbond_jail_step hs hv hj
  obtain ⟨hs₂, hamt, hop, hstake₂, hframe₂⟩ := unbond_shares_step hs hx hd hxd hv hl₁ hst hr
  -- the record left is the stored one, so an unbonded one without shares can go
  have h0 : (v₂.delegatorShares.isZero && v₂.IsUnbonded) = true →
      ∀ w, s₂.GetValidator v₂.operatorAddress = some w → w.delegatorShares.i = 0 := by
    intro hc w hw
    have hw' := s₂.ledger_stakes_of_get hw
    rw [hop, hstake₂] at hw'
    have hsh := congrArg Stake.delegatorShares (Option.some.inj hw')
    simp only [Bool.and_eq_true, Dec.isZero_iff] at hc
    simp only [Validator.stake_delegatorShares] at hsh
    rw [← hsh]
    exact hc.1
  by_cases hc : (v₂.delegatorShares.isZero && v₂.IsUnbonded) = true
  · rw [if_pos hc] at hrv
    obtain ⟨hinv, hframe⟩ := RemoveValidator_inv hs₂ (h0 hc) hrv
    refine ⟨hinv, hamt, fun b hb => ?_⟩
    rw [hframe b (by rw [hop]; exact hb)]
    exact hframe₂ b hb
  · rw [if_neg hc, Except.pure_eq_ok, Except.ok_inj] at hrv
    subst hrv
    exact ⟨hs₂, hamt, hframe₂⟩

/-! ### Slashing -/

/-- The loop over the entries of an unbonding delegation writes only unbonding delegations
and the pool. -/
theorem slashUnbondingEntries_ledger (now : Time) (ih : ℤ) (f : Dec) :
    ∀ (s : State) (ubd : UnbondingDelegation) (i : ℕ) (l : List UnbondingDelegationEntry)
      (tot : ℤ), (slashUnbondingEntries now ih f s ubd i l tot).1.ledger = s.ledger
  | s, _, _, [], _ => rfl
  | s, ubd, i, e :: rest, tot => by
    unfold slashUnbondingEntries
    dsimp only
    split_ifs
    · exact slashUnbondingEntries_ledger now ih f s ubd (i + 1) rest tot
    · exact slashUnbondingEntries_ledger now ih f s ubd (i + 1) rest _
    · rw [slashUnbondingEntries_ledger now ih f _ _ (i + 1) rest _, ledger_SetPool,
        ledger_SetUnbondingDelegation]

/-- The shares a slashed redelegation entry unbonds at the destination: the slashed part of
those it created, at most what the delegation there has left.  They are nonnegative. -/
theorem slashRedelegation_shares_nonneg (hs : s.ledger.Inv) {k : DelKey} {d : Delegation}
    {e : RedelegationEntry} {f : Dec} (hd : s.delegations.get? k = some d) (hf : 0 ≤ f.i)
    (he : 0 ≤ e.sharesDst.i) :
    0 ≤ (if d.shares < f.mul e.sharesDst then d.shares else f.mul e.sharesDst).i := by
  split_ifs
  · exact (hs.shares_pos _ d hd).le
  · exact mul_i_nonneg hf he

/-- The loop over the entries of a redelegation from `a` to another validator keeps the
invariant, and the stake of `a`. -/
theorem slashRedelegationEntries_inv {now : Time} {red : Redelegation} {ih : ℤ} {f : Dec}
    {a : ValAddress} (hne : red.validatorDstAddress ≠ a) (hf : 0 ≤ f.i) :
    ∀ (l : List RedelegationEntry) (s : State) (tot : ℤ) (r : State × ℤ), s.ledger.Inv →
      (∀ e ∈ l, 0 ≤ e.sharesDst.i) → slashRedelegationEntries now red ih f s l tot = .ok r →
      r.1.ledger.Inv ∧ r.1.ledger.stakes a = s.ledger.stakes a
  | [], s, tot, r, hs, _, h => by
    simp only [slashRedelegationEntries, Except.pure_eq_ok, Except.ok_inj] at h
    subst h
    exact ⟨hs, rfl⟩
  | e :: rest, s, tot, r, hs, hsd, h => by
    obtain ⟨s₁, tot₁, hrest, hs₁⟩ := slashRedelegationEntries_cons_eq_ok h
    have hsd' : ∀ e' ∈ rest, 0 ≤ e'.sharesDst.i := fun e' he' => hsd e' (List.mem_cons_of_mem e he')
    -- the entry either changes nothing or unbonds shares at the destination
    have hstep : s₁.ledger.Inv ∧ s₁.ledger.stakes a = s.ledger.stakes a := by
      rcases hs₁ with rfl | ⟨d, burned, s₂, hd, hu, rfl⟩
      · exact ⟨hs, rfl⟩
      · have hx := slashRedelegation_shares_nonneg hs hd hf (hsd e List.mem_cons_self)
        obtain ⟨hs₂, -, hframe⟩ := unbond_inv hs hx hu
        rw [ledger_SetPool]
        exact ⟨hs₂, hframe a (Ne.symm hne)⟩
    obtain ⟨hinv, hstake⟩ := slashRedelegationEntries_inv hne hf rest s₁ tot₁ r hstep.1 hsd' hrest
    exact ⟨hinv, hstake.trans hstep.2⟩

/-- A redelegation listed under a source validator is stored, comes from it, and so goes
to another validator. -/
theorem mem_GetRedelegationsFromValidator (hs : s.ledger.Inv) {a : ValAddress}
    {red : Redelegation} (hred : red ∈ s.GetRedelegationsFromValidator a) :
    red.validatorSrcAddress = a ∧ red.validatorDstAddress ≠ a ∧
      ∀ e ∈ red.entries, 0 ≤ e.sharesDst.i := by
  unfold GetRedelegationsFromValidator at hred
  obtain ⟨⟨k, r⟩, hmem, rfl⟩ := List.mem_map.mp hred
  obtain ⟨hmem, hsrc⟩ := List.mem_filter.mp hmem
  have hget : s.redelegations.get? k = some r := (s.redelegations.mem_entries_iff).1 hmem
  have hkey := hs.redelegation_key k r hget
  subst hkey
  have hsrc' : r.validatorSrcAddress = a := of_decide_eq_true hsrc
  refine ⟨hsrc', ?_, hs.sharesDst_nonneg _ r hget⟩
  rw [← hsrc']
  exact Ne.symm (hs.redelegation_ne _ r hget)

/-- The loop over the unbonding delegations of a slashed validator writes only unbonding
delegations and the pool. -/
theorem slashUnbondings_ledger (hdr : Header) (ih : ℤ) (f : Dec) :
    ∀ (l : List UnbondingDelegation) (acc : State × ℤ),
      (l.foldl (fun (acc : State × ℤ) ubd =>
        let (s, amountSlashed) := acc.1.slashUnbondingDelegation hdr ubd ih f
        (s, acc.2 - amountSlashed)) acc).1.ledger = acc.1.ledger
  | [], _ => rfl
  | ubd :: rest, acc => by
    rw [List.foldl_cons, slashUnbondings_ledger hdr ih f rest]
    exact slashUnbondingEntries_ledger _ _ _ _ _ _ _ _

/-- The unbonding delegations leave the ledger alone, and the redelegations from the
validator keep the invariant and the validator's own stake. -/
theorem slashUnbondingsAndRedelegations_inv (hs : s.ledger.Inv) {hdr : Header} {v : Validator}
    {ih : ℤ} {f : Dec} {amt rem : ℤ} (hf : 0 ≤ f.i)
    (h : s.slashUnbondingsAndRedelegations hdr v ih f amt = .ok (s', rem)) :
    s'.ledger.Inv ∧ s'.ledger.stakes v.operatorAddress = s.ledger.stakes v.operatorAddress := by
  unfold slashUnbondingsAndRedelegations at h
  generalize hacc : (s.GetUnbondingDelegationsFromValidator v.operatorAddress).foldl _ (s, amt) = acc
    at h
  obtain ⟨s₁, rem₁⟩ := acc
  have hl₁ : s₁.ledger = s.ledger := by
    rw [← slashUnbondings_ledger hdr ih f _ (s, amt), hacc]
  have hs₁ : s₁.ledger.Inv := hl₁ ▸ hs
  -- the redelegations: the loop invariant is the ledger's, with the validator's stake
  refine Except.foldlM_invariant
    (fun acc : State × ℤ => acc.1.ledger.Inv ∧
      acc.1.ledger.stakes v.operatorAddress = s.ledger.stakes v.operatorAddress)
    _ (fun acc red acc' hred hacc' hstep => ?_) (s₁, rem₁) (s', rem) ⟨hs₁, by rw [hl₁]⟩ h
  obtain ⟨⟨s₂, x⟩, hr, hstep⟩ := Except.bind_eq_ok.mp hstep
  simp only [Except.pure_eq_ok, Except.ok_inj] at hstep
  subst hstep
  obtain ⟨-, hdst, hsd⟩ := mem_GetRedelegationsFromValidator hs₁ hred
  obtain ⟨hinv, hstake⟩ :=
    slashRedelegationEntries_inv hdst hf red.entries acc.1 0 (s₂, x) hacc'.1 hsd hr
  exact ⟨hinv, hstake.trans hacc'.2⟩

theorem Slash_inv (hs : s.ledger.Inv) {hdr : Header} {consAddr : ConsAddress}
    {ih power : ℤ} {f : Dec} (h : s.Slash hdr consAddr ih power f = .ok s') : s'.ledger.Inv := by
  obtain ⟨hf, ⟨-, rfl⟩ | ⟨v, hv, -, -, s₁, rem, h₁, s₂, v₂, h₂, rfl⟩⟩ := Slash_eq_ok h
  · exact hs
  -- the validator is the one stored under the address its consensus key points to
  obtain ⟨a, -, hva⟩ := Option.bind_eq_some_iff.mp hv
  have hop := operatorAddress_of_get hs hva
  subst hop
  have hf' : 0 ≤ f.i := hf
  have hl₁ : s₁.ledger.Inv ∧ s₁.ledger.stakes v.operatorAddress = s.ledger.stakes v.operatorAddress := by
    split_ifs at h₁
    · exact slashUnbondingsAndRedelegations_inv hs hf' h₁
    · simp only [Except.pure_eq_ok, Except.ok_inj, Prod.mk.injEq] at h₁
      obtain ⟨rfl, -⟩ := h₁
      exact ⟨hs, rfl⟩
  obtain ⟨hs₁, hstake₁⟩ := hl₁
  rw [s.ledger_stakes_of_get hva] at hstake₁
  -- burn at most the validator's tokens: its shares are untouched
  obtain ⟨pool, hrem, rfl⟩ := RemoveValidatorTokens_eq_ok h₂
  obtain ⟨ht0, htT, rfl, -⟩ := Validator.RemoveTokens_eq_ok hrem
  simp only [ledger_SetPool, ledger_SetValidatorByPowerIndex, ledger_SetValidator,
    ledger_DeleteValidatorByPowerIndex]
  have hS := hs₁.shares_eq _ _ hstake₁
  have hTS := hs₁.tokens_le_shares _ _ hstake₁
  simp only [Validator.stake_delegatorShares, Validator.stake_tokens] at hS hTS
  exact hs₁.setStake (by simp only [Validator.stake_tokens]; omega)
    (by simp only [Validator.stake_tokens, Validator.stake_delegatorShares]; omega) hS

/-! ### The end blocker -/

/-- A validator reached by the walk over the power index is bonded, and its power recorded:
the ledger does not change. -/
theorem applyValidator_ledger {acc acc' : ApplyAcc} {valAddr : ValAddress}
    (hs : acc.s.ledger.Inv) (h : applyValidator acc valAddr = .ok (some acc')) :
    acc'.s.ledger = acc.s.ledger := by
  obtain ⟨v, hv, -, ⟨-, hnone⟩ | ⟨-, s₁, v₁, hbond, hr⟩⟩ := applyValidator_eq_ok h
  · cases hnone
  have hl₁ : s₁.ledger = acc.s.ledger := by
    rcases hbond with ⟨-, rfl, -⟩ | ⟨-, hb⟩
    · rfl
    · rw [bondValidator_ledger hb, setStake_stored hs hv]
  rw [Option.some.injEq] at hr
  subst hr
  split_ifs
  · exact (ledger_SetLastValidatorPower _ _ _).trans hl₁
  · exact hl₁

theorem applyPowerIndex_ledger (maxValidators : ℕ) :
    ∀ (l : List (Bytes × ValAddress)) (acc acc' : ApplyAcc), acc.s.ledger.Inv →
      applyPowerIndex maxValidators acc l = .ok acc' → acc'.s.ledger = acc.s.ledger
  | [], acc, acc', _, h => by
    simp only [applyPowerIndex, Except.pure_eq_ok, Except.ok_inj] at h
    rw [h]
  | (_, valAddr) :: rest, acc, acc', hs, h => by
    unfold applyPowerIndex at h
    split_ifs at h
    · simp only [Except.pure_eq_ok, Except.ok_inj] at h
      rw [h]
    obtain ⟨r, hr, h⟩ := Except.bind_eq_ok.mp h
    cases r with
    | none =>
      simp only [Except.pure_eq_ok, Except.ok_inj] at h
      rw [h]
    | some acc₁ =>
      have hl₁ := applyValidator_ledger hs hr
      rw [applyPowerIndex_ledger maxValidators rest acc₁ acc' (hl₁ ▸ hs) h, hl₁]

theorem unbondNoLongerBonded_ledger {hdr : Header} {acc acc' : State × List ValidatorUpdate}
    {a : Bytes} (hs : acc.1.ledger.Inv) (h : unbondNoLongerBonded hdr acc a = .ok acc') :
    acc'.1.ledger = acc.1.ledger := by
  obtain ⟨v, s₁, v₁, hv, hb, rfl⟩ := unbondNoLongerBonded_eq_ok h
  rw [ledger_DeleteLastValidatorPower, beginUnbondingValidator_ledger (bondedToUnbonding_eq_ok hb),
    setStake_stored hs hv]

/-- `ApplyAndReturnValidatorSetUpdates` changes statuses only: the ledger stays as it was. -/
theorem ApplyAndReturnValidatorSetUpdates_ledger {hdr : Header} {updates : List ValidatorUpdate}
    (hs : s.ledger.Inv) (h : s.ApplyAndReturnValidatorSetUpdates hdr = .ok (s', updates)) :
    s'.ledger = s.ledger := by
  obtain ⟨acc, s₁, ha, hu, rfl⟩ := ApplyAndReturnValidatorSetUpdates_eq_ok h
  have hl := applyPowerIndex_ledger _ _ _ acc hs ha
  have hl₁ : s₁.ledger = s.ledger :=
    Except.foldlM_invariant (fun acc : State × List ValidatorUpdate => acc.1.ledger = s.ledger) _
      (fun acc₁ _ acc₂ _ hacc h₂ => by
        rw [unbondNoLongerBonded_ledger (hacc ▸ hs) h₂, hacc])
      (acc.s, acc.updates) (s₁, updates) hl hu
  split_ifs
  · exact hl₁
  · exact (ledger_SetLastTotalPower _ _).trans hl₁

/-- A mature unbonding validator becomes unbonded, and is removed once it has no
shares. -/
theorem unbondMatureValidator_inv (hs : s.ledger.Inv) {a : ValAddress}
    (h : s.unbondMatureValidator a = .ok s') : s'.ledger.Inv := by
  obtain ⟨v, s₁, v₁, hv, -, hc, hr⟩ := unbondMatureValidator_eq_ok h
  have hl₁ : s₁.ledger = s.ledger := by
    rw [completeUnbondingValidator_ledger hc, setStake_stored hs hv]
  split_ifs at hr with hz
  · -- the shares decide the removal: those of the record read, which are the stored ones
    have hva := operatorAddress_of_get hs hv
    refine (RemoveValidator_inv (hl₁ ▸ hs) (fun w hw => ?_) hr).1
    rw [hva] at hw
    have hst := stake_eq_of_ledger_eq hl₁ hw hv
    rw [Dec.isZero_iff] at hz
    rw [← hz]
    exact congrArg (fun st => st.delegatorShares.i) hst
  · simp only [Except.pure_eq_ok, Except.ok_inj] at hr
    exact hr ▸ hl₁ ▸ hs

theorem UnbondAllMatureValidatorQueue_inv (hs : s.ledger.Inv) {hdr : Header}
    (h : s.UnbondAllMatureValidatorQueue hdr = .ok s') : s'.ledger.Inv :=
  Except.foldlM_invariant (fun s : State => s.ledger.Inv) _
    (fun s₁ slice s₂ _ hs₁ h₂ => by
      obtain ⟨s₃, h₃, h₂⟩ := Except.bind_eq_ok.mp h₂
      simp only [Except.pure_eq_ok, Except.ok_inj] at h₂
      subst h₂
      rw [ledger_DeleteValidatorQueueTimeSlice]
      exact Except.foldlM_invariant (fun s : State => s.ledger.Inv) _
        (fun _ _ _ _ hs₄ h₄ => unbondMatureValidator_inv hs₄ h₄) s₁ s₃ hs₁ h₃)
    s s' hs h

/-! ### Completing unbondings and redelegations -/

/-- The loop of `CompleteUnbonding` pays out to accounts only. -/
theorem completeUnbondingEntries_ledger (t : Time) (a : AccAddress) :
    ∀ (l : List UnbondingDelegationEntry) (s : State) (r : State × List UnbondingDelegationEntry),
      completeUnbondingEntries t a s l = .ok r → r.1.ledger = s.ledger :=
  completeUnbondingEntries_preserves State.ledger (ledger_UndelegateCoins _) t a

theorem CompleteUnbonding_ledger {hdr : Header} {del : AccAddress} {val : ValAddress}
    (h : s.CompleteUnbonding hdr del val = .ok s') : s'.ledger = s.ledger := by
  obtain ⟨ubd, s₁, entries, -, he, rfl⟩ := CompleteUnbonding_eq_ok h
  have hl₁ := completeUnbondingEntries_ledger _ _ _ _ _ he
  split_ifs
  · exact (ledger_RemoveUnbondingDelegation _ _).trans hl₁
  · exact (ledger_SetUnbondingDelegation _ _).trans hl₁

theorem CompleteRedelegation_inv (hs : s.ledger.Inv) {hdr : Header} {del : AccAddress}
    {src dst : ValAddress} (h : s.CompleteRedelegation hdr del src dst = .ok s') :
    s'.ledger.Inv := by
  obtain ⟨red, hred, rfl⟩ := CompleteRedelegation_eq_ok h
  split_ifs
  · rw [ledger_RemoveRedelegation]
    exact hs.removeRedelegation _
  · -- the entries kept are some of those stored
    rw [ledger_SetRedelegation]
    refine hs.setRedelegation (hs.redelegation_ne _ red hred) fun e he => ?_
    exact hs.sharesDst_nonneg _ red hred e (List.mem_filter.mp he).1

/-! ### Redelegating -/

/-- Recording a redelegation entry between two validators, for nonnegative shares created,
keeps the invariant. -/
theorem SetRedelegationEntry_inv (hs : s.ledger.Inv) {del : AccAddress} {src dst : ValAddress}
    {height : ℤ} {t : Time} {bal : ℤ} {x sh : Dec} (hne : src ≠ dst) (hsh : 0 ≤ sh.i) :
    (s.SetRedelegationEntry del src dst height t bal x sh).1.ledger.Inv := by
  unfold SetRedelegationEntry
  dsimp only
  split
  · rename_i red hred
    -- the stored record has the key of the pair, so its source and destination
    have hkey := hs.redelegation_key _ red hred
    simp only [Redelegation.key, toLex_inj, Prod.mk.injEq] at hkey
    obtain ⟨-, hsrc, hdst⟩ := hkey
    rw [ledger_SetRedelegation]
    refine hs.setRedelegation (by rw [← hsrc, ← hdst]; exact hne) fun e he => ?_
    rcases List.mem_append.mp he with he | he
    · exact hs.sharesDst_nonneg _ red hred e he
    · rw [List.mem_singleton.mp he]
      exact hsh
  · rw [ledger_SetRedelegation]
    refine hs.setRedelegation hne fun e he => ?_
    rw [List.mem_singleton.mp he]
    exact hsh

theorem BeginRedelegation_inv (hs : s.ledger.Inv) {hdr : Header} {del : AccAddress}
    {src dst : ValAddress} {x : Dec} {t : Time} (hx : 0 ≤ x.i)
    (h : s.BeginRedelegation hdr del src dst x = .ok (s', t)) : s'.ledger.Inv := by
  obtain ⟨hne, -, -, s₁, amt, hu, hamt, dstValidator, hdst, s₂, sh, hdel, -, hend⟩ :=
    BeginRedelegation_eq_ok h
  obtain ⟨hs₁, hamt0, -⟩ := unbond_inv hs hx hu
  have hop := operatorAddress_of_get hs₁ hdst
  obtain ⟨hs₂, hsh⟩ := Delegate_inv hs₁ (hop ▸ hdst) (by omega) hdel
  rcases hend with ⟨-, rfl⟩ | ⟨-, rfl⟩
  · exact hs₂
  · exact SetRedelegationEntry_inv hs₂ hne (by omega)

/-! ### The handlers -/

/-- The shares `ValidateUnbondAmount` returns for a positive amount are nonnegative. -/
theorem ValidateUnbondAmount_nonneg (hs : s.ledger.Inv) {del : AccAddress} {val : ValAddress}
    {amt : ℤ} {x : Dec} (hamt : 0 < amt) (h : s.ValidateUnbondAmount del val amt = .ok x) :
    0 ≤ x.i := by
  obtain ⟨v, d, sh, -, hv, hd, hsh, -, -, rfl⟩ := ValidateUnbondAmount_eq_ok h
  obtain ⟨hT, rfl⟩ := Validator.SharesFromTokens_eq_ok.mp hsh
  have hstake := s.ledger_stakes_of_get hv
  have hT0 : 0 ≤ v.tokens := hs.tokens_nonneg _ _ hstake
  have hS0 : 0 ≤ v.delegatorShares.i := hs.shares_nonneg hstake
  have hpos : 0 < d.shares.i := hs.shares_pos _ d hd
  split_ifs
  · exact hpos.le
  · exact Int.tdiv_nonneg (mul_nonneg hS0 hamt.le) hT0

/-- The state `handleMsgCreateValidator` delegates in keeps the invariant: the new validator
has no tokens and no shares, and no delegation is to it yet. -/
theorem newValidator_inv (hs : s.ledger.Inv) {msg : MsgCreateValidator}
    (hnone : s.GetValidator msg.validatorAddress = none) :
    (((s.SetValidator msg.newValidator).SetValidatorByConsAddr
      msg.newValidator).SetNewValidatorByPowerIndex msg.newValidator).ledger.Inv := by
  have hnone' : s.ledger.stakes msg.validatorAddress = none := by
    simp only [ledger, Option.map_eq_none_iff]
    exact hnone
  have hs₁ : (s.ledger.setStake msg.newValidator.stake).Inv := by
    refine hs.setStake (le_refl _) (le_refl _) ?_
    show (0 : Dec).i = delegatedShares s.ledger.delegations msg.validatorAddress
    rw [hs.delegatedShares_eq_zero hnone']
    rfl
  rw [ledger_SetNewValidatorByPowerIndex, ledger_SetValidatorByConsAddr, ledger_SetValidator]
  exact hs₁

theorem handleMsgCreateValidator_inv (hs : s.ledger.Inv) {msg : MsgCreateValidator}
    (hamt : 0 < msg.value.amount) (h : s.handleMsgCreateValidator msg = .ok s') :
    s'.ledger.Inv := by
  obtain ⟨hnone, -, -, sh, hdel⟩ := handleMsgCreateValidator_eq_ok h
  have hv : (((s.SetValidator msg.newValidator).SetValidatorByConsAddr
      msg.newValidator).SetNewValidatorByPowerIndex msg.newValidator).GetValidator
        msg.newValidator.operatorAddress = some msg.newValidator :=
    SortedMap.get?_insert_self _ _ _
  exact (Delegate_inv (newValidator_inv hs hnone) hv hamt hdel).1

theorem handleMsgDelegate_inv (hs : s.ledger.Inv) {msg : MsgDelegate}
    (hamt : 0 < msg.amount.amount) (h : s.handleMsgDelegate msg = .ok s') : s'.ledger.Inv := by
  obtain ⟨v, hv, -, sh, hdel⟩ := handleMsgDelegate_eq_ok h
  have hop := operatorAddress_of_get hs hv
  exact (Delegate_inv hs (hop ▸ hv) hamt hdel).1

/-- An edit writes back a stored validator with its stake: no ledger changes. -/
theorem handleMsgEditValidator_ledger (hs : s.ledger.Inv) {msg : MsgEditValidator}
    (h : s.handleMsgEditValidator msg = .ok s') : s'.ledger = s.ledger := by
  obtain ⟨v, hv, m, rfl⟩ := handleMsgEditValidator_eq_ok h
  have hstake : ({ v with minSelfDelegation := m } : Validator).stake = v.stake := rfl
  rw [ledger_SetValidator, hstake]
  exact setStake_stored hs hv

theorem handleMsgUndelegate_inv (hs : s.ledger.Inv) {hdr : Header} {msg : MsgUndelegate}
    {t : Time} (hamt : 0 < msg.amount.amount) (h : s.handleMsgUndelegate hdr msg = .ok (s', t)) :
    s'.ledger.Inv := by
  obtain ⟨x, hx, hu⟩ := handleMsgUndelegate_eq_ok h
  obtain ⟨s₁, amt, hub, -, -, rfl⟩ := Undelegate_eq_ok hu
  rw [ledger_SetUnbondingDelegationEntry]
  exact (unbond_inv hs (ValidateUnbondAmount_nonneg hs hamt hx) hub).1

theorem handleMsgBeginRedelegate_inv (hs : s.ledger.Inv) {hdr : Header}
    {msg : MsgBeginRedelegate} {t : Time} (hamt : 0 < msg.amount.amount)
    (h : s.handleMsgBeginRedelegate hdr msg = .ok (s', t)) : s'.ledger.Inv := by
  obtain ⟨x, hx, hb⟩ := handleMsgBeginRedelegate_eq_ok h
  exact BeginRedelegation_inv hs (ValidateUnbondAmount_nonneg hs hamt hx) hb

end State

/-! ### The state machine -/

theorem Step_inv {s s' : State} (hs : s.ledger.Inv) (h : Step s s') : s'.ledger.Inv := by
  obtain ⟨hdr, a, ha, h⟩ := h
  cases a with
  | createValidator msg =>
    exact State.handleMsgCreateValidator_inv hs (msg.ValidateBasic_eq_ok ha.1).2.2.2.1 h
  | editValidator msg => exact (State.handleMsgEditValidator_ledger hs h) ▸ hs
  | delegate msg => exact State.handleMsgDelegate_inv hs (msg.ValidateBasic_eq_ok ha.1).2.2 h
  | undelegate msg =>
    obtain ⟨⟨s₁, t⟩, hu, rfl⟩ := Except.map_eq_ok.mp h
    exact State.handleMsgUndelegate_inv hs (msg.ValidateBasic_eq_ok ha.1).2.2 hu
  | beginRedelegate msg =>
    obtain ⟨⟨s₁, t⟩, hb, rfl⟩ := Except.map_eq_ok.mp h
    exact State.handleMsgBeginRedelegate_inv hs (msg.ValidateBasic_eq_ok ha.1).2.2.2 hb
  | slash consAddr infractionHeight power slashFactor => exact State.Slash_inv hs h
  | jail consAddr =>
    obtain ⟨v, hv, hj⟩ := Except.bind_eq_ok.mp h
    obtain ⟨a, hva⟩ := State.GetValidator_of_mustGetValidatorByConsAddr _ hv
    rw [State.jailValidator_ledger hj, State.setStake_stored hs hva]
    exact hs
  | unjail consAddr =>
    obtain ⟨v, hv, hj⟩ := Except.bind_eq_ok.mp h
    obtain ⟨a, hva⟩ := State.GetValidator_of_mustGetValidatorByConsAddr _ hv
    rw [State.unjailValidator_ledger hj, State.setStake_stored hs hva]
    exact hs
  | completeUnbonding delAddr valAddr => exact (State.CompleteUnbonding_ledger h) ▸ hs
  | completeRedelegation delAddr valSrcAddr valDstAddr => exact State.CompleteRedelegation_inv hs h
  | applyAndReturnValidatorSetUpdates =>
    obtain ⟨⟨s₁, u⟩, hu, rfl⟩ := Except.map_eq_ok.mp h
    exact (State.ApplyAndReturnValidatorSetUpdates_ledger hs hu) ▸ hs
  | unbondAllMatureValidatorQueue => exact State.UnbondAllMatureValidatorQueue_inv hs h

/-- The run lemma: the invariant holds along every run of the staking state machine. -/
theorem inv_of_run {s s' : State} (hs : s.ledger.Inv) (hrun : Relation.ReflTransGen Step s s') :
    s'.ledger.Inv :=
  Transition.invariant (fun s : State => s.ledger.Inv) (fun _ _ hs h => Step_inv hs h) hrun hs

/-! ### The checks of the staking module along runs -/

/-- A state with no validators and no records, with the given parameters and balances. -/
def genesis (params : Params) (accounts : SortedMap AccAddress ℤ) : State where
  params := params
  pool := ⟨0, 0⟩
  validators := ∅
  validatorsByConsAddr := ∅
  validatorsByPower := ∅
  lastValidatorPower := ∅
  lastTotalPower := 0
  delegations := ∅
  unbondingDelegations := ∅
  redelegations := ∅
  validatorQueue := ∅
  accounts := accounts

theorem genesis_inv (params : Params) (accounts : SortedMap AccAddress ℤ) :
    (genesis params accounts).ledger.Inv :=
  Ledger.inv_empty

/-- Along every run from a state whose share ledger has the invariant (a genesis state
has), every validator's shares are those of the delegations to it, every delegation has
positive shares, and every validator has nonnegative tokens and shares, with no tokens
once it has no shares. -/
theorem sharesLedger_of_run {s s' : State} (hs : s.ledger.Inv)
    (hrun : Relation.ReflTransGen Step s s') : SharesLedger s' :=
  State.sharesLedger_of_inv (inv_of_run hs hrun)

theorem sharesLedger_of_run_createValidator :
    ∃ s', Relation.ReflTransGen Step
      (genesis ⟨0, 1, 7, "stake"⟩ ((∅ : SortedMap AccAddress ℤ).insert (List.replicate AddrLen 4) 10))
      s' ∧ SharesLedger s' := by
  have hstep : Step
      (genesis ⟨0, 1, 7, "stake"⟩ ((∅ : SortedMap AccAddress ℤ).insert (List.replicate AddrLen 4) 10))
      _ :=
    ⟨⟨0, 0⟩, .createValidator ⟨List.replicate AddrLen 4, List.replicate AddrLen 4, ⟨[7], [8]⟩,
      ⟨"stake", 5⟩, 1⟩, ⟨rfl, by decide⟩, rfl⟩
  exact ⟨_, .single hstep, sharesLedger_of_run (genesis_inv _ _) (.single hstep)⟩

/-- A validator with more tokens than units of share (two tokens against `10^-18` share),
whose one delegation has all its shares: it passes the checks of the staking module. -/
def gapValidator : Validator :=
  { NewValidator (List.replicate AddrLen 1) ⟨[], []⟩ with tokens := 2, delegatorShares := ⟨1⟩ }

/-- The state of `gapValidator`, its delegation, and an account with ten tokens. -/
def gapState : State where
  params := ⟨0, 1, 7, "stake"⟩
  pool := ⟨2, 0⟩
  validators := (∅ : SortedMap ValAddress Validator).insert gapValidator.operatorAddress gapValidator
  validatorsByConsAddr := ∅
  validatorsByPower := ∅
  lastValidatorPower := ∅
  lastTotalPower := 0
  delegations := (∅ : SortedMap DelKey Delegation).insert
    (toLex (List.replicate AddrLen 2, List.replicate AddrLen 1))
    ⟨List.replicate AddrLen 2, List.replicate AddrLen 1, ⟨1⟩⟩
  unbondingDelegations := ∅
  redelegations := ∅
  validatorQueue := ∅
  accounts := (∅ : SortedMap AccAddress ℤ).insert (List.replicate AddrLen 3) 10

/-- A delegation of one token to `gapValidator`. -/
def dustDelegate : MsgDelegate :=
  ⟨List.replicate AddrLen 3, List.replicate AddrLen 1, ⟨"stake", 1⟩⟩

/-- The checks alone are not kept by a step: delegating one token to `gapValidator` issues
`(1 · 1) / 2 = 0` shares and stores a delegation without shares. -/
theorem sharesLedger_not_inductive :
    SharesLedger gapState ∧ ∃ s', Step gapState s' ∧ ¬ SharesLedger s' :=
  ⟨by decide, _, ⟨⟨0, 0⟩, .delegate dustDelegate, ⟨rfl, rfl⟩, rfl⟩, by decide⟩

end CosmosSdk.Staking
