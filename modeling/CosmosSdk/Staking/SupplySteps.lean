import CosmosSdk.Staking.LedgerSteps
import CosmosSdk.Staking.Supply

/-!
# The pool's books along the keeper's operations

Each operation of the staking keeper keeps `SupplyInv`: what it takes from one holder of
tokens it puts into another, and the pool follows the validators whose status decides in
which of its two numbers their tokens count.  Within an operation the books are off by
what is in transit (`limbo`): `DelegateCoins` takes tokens from an account before
`AddValidatorTokensAndShares` gives them to the validator, `unbond` takes them from the
validator before `SetUnbondingDelegationEntry` stores them, and a slash takes them from
where they are before it burns them from the pool.

The lemmas of this module follow the operations of `LedgerSteps`, one lemma per
operation, each stating how far it moves the two gaps, that the accounts and unbonding
delegations stay solvent, and what it leaves of the validators, which the operations
that run after it read.
-/

namespace CosmosSdk.Staking

namespace State

variable {s s' : State}

/-! ### Writing back a validator -/

/-- Writing back a stored validator with the same status and tokens moves nothing. -/
theorem books_SetValidator_same {v w : Validator} (hw : s.GetValidator v.operatorAddress = some w)
    (hst : v.status = w.status) (hT : v.tokens = w.tokens) :
    (s.SetValidator v).bondedGap = s.bondedGap ∧ (s.SetValidator v).limbo = s.limbo := by
  have hb : v.bondedTokens = w.bondedTokens := by simp only [Validator.bondedTokens, hst, hT]
  have hl : v.looseTokens = w.looseTokens := by simp only [Validator.looseTokens, hst, hT]
  rw [bondedGap_SetValidator s hw, limbo_SetValidator s hw, hb, hl]
  omega

/-- The write of `AddValidatorTokensAndShares`, `RemoveValidatorTokensAndShares` and
`RemoveValidatorTokens`: a stored validator written back with its tokens changed by `δ`,
and, for a bonded one, `δ` moved from the pool's not-bonded tokens to its bonded ones.
The tokens leave the loose tokens (or join them, for a negative `δ`) without the pool
following: `limbo` moves by `-δ`. -/
theorem books_changeTokens {v w : Validator} {pool : Pool} {δ : ℤ}
    (hv : s.GetValidator v.operatorAddress = some v) (hop : w.operatorAddress = v.operatorAddress)
    (hst : w.status = v.status) (hT : w.tokens = v.tokens + δ)
    (hpool : if v.status = .bonded then
        pool = ⟨s.pool.notBondedTokens - δ, s.pool.bondedTokens + δ⟩ else pool = s.pool) :
    ((((s.DeleteValidatorByPowerIndex v).SetValidator w).SetPool pool).SetValidatorByPowerIndex
        w).bondedGap = s.bondedGap ∧
    ((((s.DeleteValidatorByPowerIndex v).SetValidator w).SetPool pool).SetValidatorByPowerIndex
        w).limbo = s.limbo - δ := by
  have hw : (s.DeleteValidatorByPowerIndex v).validators.get? w.operatorAddress = some v := by
    rw [hop]
    exact hv
  simp only [bondedGap_SetValidatorByPowerIndex, limbo_SetValidatorByPowerIndex, bondedGap_SetPool,
    limbo_SetPool, bondedGap_SetValidator _ hw, limbo_SetValidator _ hw,
    bondedGap_DeleteValidatorByPowerIndex, limbo_DeleteValidatorByPowerIndex]
  -- the pool's transfer against the validator's two parts, by its status
  unfold Validator.bondedTokens Validator.looseTokens
  rw [hst, hT]
  dsimp only [SetValidator, DeleteValidatorByPowerIndex]
  split_ifs at hpool ⊢
  · rw [hpool]
    dsimp only
    omega
  · rw [hpool]
    omega

/-- The pool after `AddTokensFromDel`, in the shape of `books_changeTokens`. -/
theorem AddTokensFromDel_pool {v v' : Validator} {pool pool' : Pool} {amt : ℤ} {sh : Dec}
    (h : v.AddTokensFromDel pool amt = .ok (v', pool', sh)) :
    if v.status = .bonded then pool' = ⟨pool.notBondedTokens - amt, pool.bondedTokens + amt⟩
    else pool' = pool := by
  have hpool := (Validator.AddTokensFromDel_eq_ok h).2.2.2
  simp only [Validator.IsBonded_eq_true] at hpool
  split_ifs at hpool ⊢
  · exact (Pool.notBondedTokensToBonded_eq_ok.mp hpool).2
  · exact hpool

/-- The pool after `RemoveDelShares` or `RemoveTokens` took `amt` tokens off a validator. -/
theorem bondedTokensToNotBonded_pool {v : Validator} {pool pool' : Pool} {amt : ℤ}
    (h : if v.IsBonded then pool.bondedTokensToNotBonded amt = .ok pool' else pool' = pool) :
    if v.status = .bonded then pool' = ⟨pool.notBondedTokens - -amt, pool.bondedTokens + -amt⟩
    else pool' = pool := by
  simp only [Validator.IsBonded_eq_true] at h
  split_ifs at h ⊢
  · rw [(Pool.bondedTokensToNotBonded_eq_ok.mp h).2]
    congr 1
    omega
  · exact h

theorem AddValidatorTokensAndShares_books {v v' : Validator} {amt : ℤ} {sh : Dec}
    (hv : s.GetValidator v.operatorAddress = some v)
    (h : s.AddValidatorTokensAndShares v amt = .ok (s', v', sh)) :
    s'.bondedGap = s.bondedGap ∧ s'.limbo = s.limbo - amt ∧ s'.accounts = s.accounts ∧
      s'.unbondingDelegations = s.unbondingDelegations := by
  obtain ⟨pool, hadd, rfl⟩ := AddValidatorTokensAndShares_eq_ok h
  have hpool := AddTokensFromDel_pool hadd
  have hv' := (Validator.AddTokensFromDel_eq_ok hadd).1
  obtain ⟨hgap, hlimbo⟩ :=
    books_changeTokens (w := v') hv (by rw [hv']) (by rw [hv']) (by simp only [hv']) hpool
  refine ⟨hgap, hlimbo, ?_, ?_⟩ <;> rw [SetValidatorByPowerIndex_eq] <;> rfl

theorem RemoveValidatorTokensAndShares_books {v v' : Validator} {x : Dec} {amt : ℤ}
    (hv : s.GetValidator v.operatorAddress = some v)
    (h : s.RemoveValidatorTokensAndShares v x = .ok (s', v', amt)) :
    s'.bondedGap = s.bondedGap ∧ s'.limbo = s.limbo + amt ∧ s'.accounts = s.accounts ∧
      s'.unbondingDelegations = s.unbondingDelegations ∧
      s'.validators = s.validators.insert v.operatorAddress v' := by
  obtain ⟨pool, hrem, rfl⟩ := RemoveValidatorTokensAndShares_eq_ok h
  obtain ⟨hv', -, -, hpool⟩ := Validator.RemoveDelShares_eq_ok hrem
  have hop : v'.operatorAddress = v.operatorAddress := by rw [hv']
  obtain ⟨hgap, hlimbo⟩ := books_changeTokens (w := v') hv hop (by rw [hv'])
    (by simp only [hv']; omega) (bondedTokensToNotBonded_pool hpool)
  refine ⟨hgap, by rw [hlimbo]; omega, ?_, ?_, ?_⟩ <;> rw [SetValidatorByPowerIndex_eq]
  · rfl
  · rfl
  · show s.validators.insert v'.operatorAddress v' = _
    rw [hop]

theorem RemoveValidatorTokens_books {v v' : Validator} {t : ℤ}
    (hv : s.GetValidator v.operatorAddress = some v)
    (h : s.RemoveValidatorTokens v t = .ok (s', v')) :
    s'.bondedGap = s.bondedGap ∧ s'.limbo = s.limbo + t ∧ s'.accounts = s.accounts ∧
      s'.unbondingDelegations = s.unbondingDelegations := by
  obtain ⟨pool, hrem, rfl⟩ := RemoveValidatorTokens_eq_ok h
  obtain ⟨-, -, hv', hpool⟩ := Validator.RemoveTokens_eq_ok hrem
  obtain ⟨hgap, hlimbo⟩ := books_changeTokens (w := v') hv (by rw [hv']) (by rw [hv'])
    (by simp only [hv']; omega) (bondedTokensToNotBonded_pool hpool)
  refine ⟨hgap, by rw [hlimbo]; omega, ?_, ?_⟩ <;> rw [SetValidatorByPowerIndex_eq] <;> rfl

/-! ### Status changes and the jail flag -/

/-- `UpdateStatus` moves the validator's tokens between the pool's two numbers as its new
status moves them between the validator's two parts. -/
theorem UpdateStatus_books {v v' : Validator} {pool pool' : Pool} {st : BondStatus}
    (h : v.UpdateStatus pool st = .ok (v', pool')) :
    pool'.bondedTokens - pool.bondedTokens = v'.bondedTokens - v.bondedTokens ∧
    pool'.notBondedTokens - pool.notBondedTokens = v'.looseTokens - v.looseTokens := by
  obtain ⟨rfl, hpool⟩ := Validator.UpdateStatus_eq_ok.mp h
  unfold Validator.bondedTokens Validator.looseTokens
  dsimp only
  split_ifs at hpool with hin hout
  · -- into the bonded set
    rw [(Pool.notBondedTokensToBonded_eq_ok.mp hpool).2]
    simp only [if_pos hin.2, if_neg hin.1]
    omega
  · -- out of it
    rw [(Pool.bondedTokensToNotBonded_eq_ok.mp hpool).2]
    simp only [if_neg hout.2, if_pos hout.1]
    omega
  · -- from one side to the same side: the pool stays
    have hsame : st = .bonded ↔ v.status = .bonded := by tauto
    rw [hpool]
    simp only [hsame]
    split_ifs <;> omega

/-- A stored validator written back with the status and tokens `UpdateStatus` gave it,
together with the pool it returned, moves nothing. -/
theorem books_changeStatus {v v₁ w : Validator} {pool : Pool} {st : BondStatus}
    (hv : s.GetValidator v.operatorAddress = some v)
    (hup : v.UpdateStatus s.pool st = .ok (v₁, pool)) (hop : w.operatorAddress = v.operatorAddress)
    (hst : w.status = v₁.status) (hT : w.tokens = v₁.tokens) :
    ((s.SetPool pool).SetValidator w).bondedGap = s.bondedGap ∧
      ((s.SetPool pool).SetValidator w).limbo = s.limbo := by
  obtain ⟨hb, hl⟩ := UpdateStatus_books hup
  have hw : (s.SetPool pool).validators.get? w.operatorAddress = some v := by
    rw [hop]
    exact hv
  have hwb : w.bondedTokens = v₁.bondedTokens := by simp only [Validator.bondedTokens, hst, hT]
  have hwl : w.looseTokens = v₁.looseTokens := by simp only [Validator.looseTokens, hst, hT]
  rw [bondedGap_SetValidator _ hw, limbo_SetValidator _ hw, bondedGap_SetPool, limbo_SetPool, hwb,
    hwl]
  omega

theorem bondValidator_books {v v' : Validator} (hv : s.GetValidator v.operatorAddress = some v)
    (h : s.bondValidator v = .ok (s', v')) :
    s'.bondedGap = s.bondedGap ∧ s'.limbo = s.limbo ∧ s'.accounts = s.accounts ∧
      s'.unbondingDelegations = s.unbondingDelegations ∧
      s'.validators = s.validators.insert v.operatorAddress v' := by
  obtain ⟨pool, hup, rfl⟩ := bondValidator_eq_ok h
  have hop : v'.operatorAddress = v.operatorAddress := by
    rw [(Validator.UpdateStatus_eq_ok.mp hup).1]
  obtain ⟨hgap, hlimbo⟩ :=
    books_changeStatus (s := s.DeleteValidatorByPowerIndex v) (w := v') hv hup hop rfl rfl
  simp only [bondedGap_DeleteValidatorQueue, limbo_DeleteValidatorQueue,
    bondedGap_SetValidatorByPowerIndex, limbo_SetValidatorByPowerIndex]
  refine ⟨hgap, hlimbo, ?_, ?_, ?_⟩ <;> rw [DeleteValidatorQueue_eq, SetValidatorByPowerIndex_eq]
  · rfl
  · rfl
  · show s.validators.insert v'.operatorAddress v' = _
    rw [hop]

theorem beginUnbondingValidator_books {hdr : Header} {v v' : Validator}
    (hv : s.GetValidator v.operatorAddress = some v)
    (h : s.beginUnbondingValidator hdr v = .ok (s', v')) :
    s'.bondedGap = s.bondedGap ∧ s'.limbo = s.limbo ∧ s'.accounts = s.accounts ∧
      s'.unbondingDelegations = s.unbondingDelegations ∧
      s'.validators = s.validators.insert v.operatorAddress v' := by
  obtain ⟨-, v₁, pool, hup, hv', rfl⟩ := beginUnbondingValidator_eq_ok h
  have hop : v'.operatorAddress = v.operatorAddress := by
    rw [hv', (Validator.UpdateStatus_eq_ok.mp hup).1]
  obtain ⟨hgap, hlimbo⟩ := books_changeStatus (s := s.DeleteValidatorByPowerIndex v) (w := v') hv
    hup hop (by rw [hv']) (by rw [hv'])
  simp only [bondedGap_InsertValidatorQueue, limbo_InsertValidatorQueue,
    bondedGap_SetValidatorByPowerIndex, limbo_SetValidatorByPowerIndex]
  refine ⟨hgap, hlimbo, ?_, ?_, ?_⟩ <;> rw [InsertValidatorQueue, SetValidatorByPowerIndex_eq]
  · rfl
  · rfl
  · show s.validators.insert v'.operatorAddress v' = _
    rw [hop]

theorem completeUnbondingValidator_books {v v' : Validator}
    (hv : s.GetValidator v.operatorAddress = some v)
    (h : s.completeUnbondingValidator v = .ok (s', v')) :
    s'.bondedGap = s.bondedGap ∧ s'.limbo = s.limbo ∧ s'.accounts = s.accounts ∧
      s'.unbondingDelegations = s.unbondingDelegations ∧
      s'.validators = s.validators.insert v.operatorAddress v' := by
  obtain ⟨pool, hup, rfl⟩ := completeUnbondingValidator_eq_ok h
  have hop : v'.operatorAddress = v.operatorAddress := by
    rw [(Validator.UpdateStatus_eq_ok.mp hup).1]
  obtain ⟨hgap, hlimbo⟩ := books_changeStatus (w := v') hv hup hop rfl rfl
  refine ⟨hgap, hlimbo, rfl, rfl, ?_⟩
  show s.validators.insert v'.operatorAddress v' = _
  rw [hop]

theorem jailValidator_books {v : Validator} (hv : s.GetValidator v.operatorAddress = some v)
    (h : s.jailValidator v = .ok s') :
    s'.bondedGap = s.bondedGap ∧ s'.limbo = s.limbo ∧ s'.accounts = s.accounts ∧
      s'.unbondingDelegations = s.unbondingDelegations ∧
      s'.validators = s.validators.insert v.operatorAddress { v with jailed := true } := by
  obtain ⟨-, rfl⟩ := jailValidator_eq_ok h
  obtain ⟨hgap, hlimbo⟩ := books_SetValidator_same (v := { v with jailed := true }) hv rfl rfl
  exact ⟨hgap, hlimbo, rfl, rfl, rfl⟩

theorem unjailValidator_books {v : Validator} (hv : s.GetValidator v.operatorAddress = some v)
    (h : s.unjailValidator v = .ok s') :
    s'.bondedGap = s.bondedGap ∧ s'.limbo = s.limbo ∧ s'.accounts = s.accounts ∧
      s'.unbondingDelegations = s.unbondingDelegations := by
  obtain ⟨-, rfl⟩ := unjailValidator_eq_ok h
  obtain ⟨hgap, hlimbo⟩ := books_SetValidator_same (v := { v with jailed := false }) hv rfl rfl
  simp only [bondedGap_SetValidatorByPowerIndex, limbo_SetValidatorByPowerIndex]
  refine ⟨hgap, hlimbo, ?_, ?_⟩ <;> rw [SetValidatorByPowerIndex_eq] <;> rfl

/-- `RemoveValidator` removes a validator only once it has no tokens: the sums lose a term
that is zero. -/
theorem RemoveValidator_books (hs : s.ledger.Inv) {a : ValAddress}
    (h : s.RemoveValidator a = .ok s') :
    s'.bondedGap = s.bondedGap ∧ s'.limbo = s.limbo ∧ s'.accounts = s.accounts ∧
      s'.unbondingDelegations = s.unbondingDelegations ∧ s'.validators = s.validators.erase a := by
  rcases RemoveValidator_eq_ok h with ⟨hnone, rfl⟩ | ⟨v, hv, -, hT, rfl⟩
  · exact ⟨rfl, rfl, rfl, rfl, (SortedMap.erase_of_get?_eq_none hnone).symm⟩
  have hv' : s.validators.get? a = some v := hv
  have hT0 : 0 ≤ v.tokens := hs.tokens_nonneg _ _ (s.ledger_stakes_of_get hv')
  have hb : v.bondedTokens = 0 := by
    unfold Validator.bondedTokens
    split_ifs <;> omega
  have hl : v.looseTokens = 0 := by
    unfold Validator.looseTokens
    split_ifs <;> omega
  refine ⟨?_, ?_, rfl, rfl, rfl⟩
  · simp only [bondedGap, bondedSum, SortedMap.sum_erase_eq, hv', Option.elim_some, hb, sub_zero]
  · simp only [limbo, looseSum, SortedMap.sum_erase_eq, hv', Option.elim_some, hl, sub_zero]

end State

/-! ### Solvency -/

namespace Solvent

variable {s s' : State}

/-- An account set to a nonnegative balance. -/
theorem of_accounts (hsol : Solvent s) {a : AccAddress} {c : ℤ} (hc : 0 ≤ c)
    (ha : s'.accounts = s.accounts.insert a c)
    (hu : s'.unbondingDelegations = s.unbondingDelegations) : Solvent s' where
  accounts_nonneg b c' hb := by
    rw [ha, SortedMap.get?_insert] at hb
    split_ifs at hb
    · cases hb
      exact hc
    · exact hsol.accounts_nonneg b c' hb
  ubd_key := by rw [hu]; exact hsol.ubd_key
  entries_nonneg := by rw [hu]; exact hsol.entries_nonneg

/-- An unbonding delegation with nonnegative entries, stored under its key. -/
theorem setUnbondingDelegation (hsol : Solvent s) {u : UnbondingDelegation}
    (hu : ∀ e ∈ u.entries, 0 ≤ e.balance ∧ 0 ≤ e.initialBalance) :
    Solvent (s.SetUnbondingDelegation u) where
  accounts_nonneg := hsol.accounts_nonneg
  ubd_key k w hw := by
    simp only [State.SetUnbondingDelegation, SortedMap.get?_insert] at hw
    split_ifs at hw with hk
    · cases hw
      exact hk
    · exact hsol.ubd_key k w hw
  entries_nonneg k w hw := by
    simp only [State.SetUnbondingDelegation, SortedMap.get?_insert] at hw
    split_ifs at hw with hk
    · cases hw
      exact hu
    · exact hsol.entries_nonneg k w hw

theorem removeUnbondingDelegation (hsol : Solvent s) (u : UnbondingDelegation) :
    Solvent (s.RemoveUnbondingDelegation u) where
  accounts_nonneg := hsol.accounts_nonneg
  ubd_key k w hw := by
    simp only [State.RemoveUnbondingDelegation, SortedMap.get?_erase] at hw
    split_ifs at hw
    exact hsol.ubd_key k w hw
  entries_nonneg k w hw := by
    simp only [State.RemoveUnbondingDelegation, SortedMap.get?_erase] at hw
    split_ifs at hw
    exact hsol.entries_nonneg k w hw

theorem DelegateCoins (hsol : Solvent s) {a : AccAddress} {amt : ℤ}
    (h : s.DelegateCoins a amt = .ok s') : Solvent s' := by
  obtain ⟨-, -, -, -, hu, c, -, hle, ha⟩ := s.DelegateCoins_books h
  exact hsol.of_accounts (by omega) ha hu

theorem UndelegateCoins (hsol : Solvent s) {a : AccAddress} {amt : ℤ}
    (h : s.UndelegateCoins a amt = .ok s') : Solvent s' := by
  obtain ⟨-, -, -, -, hu, hpos, c, hc, ha⟩ := s.UndelegateCoins_books h
  exact hsol.of_accounts (by have := hsol.accounts_nonneg a c hc; omega) ha hu

end Solvent

namespace State

variable {s s' : State}

/-! ### Delegating and unbonding -/

/-- The bank step of `Delegate`: the coins leave the delegator's account into transit, or
nothing moves. -/
theorem Delegate_bank_books (hsol : Solvent s) {a : AccAddress} {amt : ℤ} {sub : Bool}
    {s₁ : State} (h : (if sub then (NewCoin amt >>= fun c => s.DelegateCoins a c) else pure s) =
      .ok s₁) :
    s₁.ledger = s.ledger ∧ s₁.bondedGap = s.bondedGap ∧
      s₁.limbo = s.limbo + (if sub then amt else 0) ∧ Solvent s₁ ∧
      s₁.validators = s.validators := by
  cases sub
  · simp only [Bool.false_eq_true, if_false, Except.pure_eq_ok, Except.ok_inj] at h
    subst h
    exact ⟨rfl, rfl, by simp only [Bool.false_eq_true, if_false, add_zero], hsol, rfl⟩
  · simp only [if_true] at h
    obtain ⟨c, hcoin, hc⟩ := Except.bind_eq_ok.mp h
    obtain ⟨hgap, hlimbo, -, hval, -⟩ := s.DelegateCoins_books hc
    obtain ⟨-, rfl⟩ := NewCoin_eq_ok.mp hcoin
    exact ⟨ledger_DelegateCoins _ hc, hgap, by simp only [if_true]; exact hlimbo,
      hsol.DelegateCoins hc, hval⟩

/-- `Delegate` to a stored validator: the coins taken from the account (unless they come
from an unbonding, and are in transit already) go to the validator. -/
theorem Delegate_books (hsol : Solvent s) {del : AccAddress} {amt : ℤ} {v : Validator}
    {sub : Bool} {sh : Dec} (hv : s.GetValidator v.operatorAddress = some v)
    (h : s.Delegate del amt v sub = .ok (s', sh)) :
    s'.bondedGap = s.bondedGap ∧ s'.limbo = s.limbo - (if sub then 0 else amt) ∧ Solvent s' := by
  obtain ⟨-, s₁, s₂, v', h₁, h₂, rfl⟩ := Delegate_eq_ok h
  obtain ⟨-, hgap₁, hlimbo₁, hsol₁, hval₁⟩ := Delegate_bank_books hsol h₁
  have hv₁ : s₁.GetValidator v.operatorAddress = some v := by
    show s₁.validators.get? _ = _
    rw [hval₁]
    exact hv
  obtain ⟨hgap₂, hlimbo₂, ha₂, hu₂⟩ := AddValidatorTokensAndShares_books hv₁ h₂
  refine ⟨by rw [bondedGap_SetDelegation, hgap₂, hgap₁], ?_, hsol₁.of_eq ha₂ hu₂⟩
  rw [limbo_SetDelegation, hlimbo₂, hlimbo₁]
  split_ifs <;> omega

/-- The jail step of `unbond` writes back the record it continues with, and moves no
tokens. -/
theorem unbond_jail_books (hs : s.ledger.Inv) {val : ValAddress} {v v₁ : Validator} {s₁ : State}
    (hv : s.GetValidator val = some v)
    (hj : (s₁ = s ∧ v₁ = v) ∨
      (s.jailValidator v = .ok s₁ ∧ s₁.mustGetValidator v.operatorAddress = .ok v₁)) :
    s₁.bondedGap = s.bondedGap ∧ s₁.limbo = s.limbo ∧ s₁.accounts = s.accounts ∧
      s₁.unbondingDelegations = s.unbondingDelegations ∧ s₁.GetValidator val = some v₁ ∧
      ∀ b, b ≠ val → s₁.GetValidator b = s.GetValidator b := by
  have hva := operatorAddress_of_get hs hv
  rcases hj with ⟨rfl, rfl⟩ | ⟨hjv, hget⟩
  · exact ⟨rfl, rfl, rfl, rfl, hv, fun _ _ => rfl⟩
  · rw [← hva] at hv
    obtain ⟨hgap, hlimbo, ha, hu, hval⟩ := jailValidator_books hv hjv
    refine ⟨hgap, hlimbo, ha, hu, hva ▸ (mustGetValidator_eq_ok _).mp hget, fun b hb => ?_⟩
    show s₁.validators.get? b = s.validators.get? b
    rw [hval, SortedMap.get?_insert_ne _ _ (by rw [hva]; exact hb)]

/-- `unbond`: the tokens the shares are worth leave the validator into transit.  No validator
but the one unbonded from changes. -/
theorem unbond_books (hs : s.ledger.Inv) {del : AccAddress} {val : ValAddress} {x : Dec}
    {amt : ℤ} (hx : 0 ≤ x.i) (h : s.unbond del val x = .ok (s', amt)) :
    s'.bondedGap = s.bondedGap ∧ s'.limbo = s.limbo + amt ∧ s'.accounts = s.accounts ∧
      s'.unbondingDelegations = s.unbondingDelegations ∧
      ∀ b, b ≠ val → s'.GetValidator b = s.GetValidator b := by
  obtain ⟨d, v, hd, hxd, hv, s₁, v₁, hj, s₂, v₂, hr, hrv⟩ := unbond_eq_ok h
  have hva := operatorAddress_of_get hs hv
  obtain ⟨hl₁, hst⟩ := unbond_jail_step hs hv hj
  obtain ⟨hs₂, -, hop₂, -, -⟩ := unbond_shares_step hs hx hd hxd hv hl₁ hst hr
  have hop₁ : v₁.operatorAddress = val := by
    rw [← hva]
    exact congrArg Stake.operatorAddress hst
  obtain ⟨hgap₁, hlimbo₁, ha₁, hu₁, hv₁, hframe₁⟩ := unbond_jail_books hs hv hj
  -- the delegation write leaves the books alone
  generalize hD : (if (d.shares - x).isZero then s₁.RemoveDelegation { d with shares := d.shares - x }
    else s₁.SetDelegation { d with shares := d.shares - x }) = sD at hr
  have hDs : sD.bondedGap = s₁.bondedGap ∧ sD.limbo = s₁.limbo ∧ sD.accounts = s₁.accounts ∧
      sD.unbondingDelegations = s₁.unbondingDelegations ∧ sD.validators = s₁.validators := by
    rw [← hD]
    split_ifs <;> exact ⟨rfl, rfl, rfl, rfl, rfl⟩
  obtain ⟨hgapD, hlimboD, haD, huD, hvalD⟩ := hDs
  have hvD : sD.GetValidator v₁.operatorAddress = some v₁ := by
    show sD.validators.get? _ = _
    rw [hvalD, hop₁]
    exact hv₁
  obtain ⟨hgap₂, hlimbo₂, ha₂, hu₂, hval₂⟩ := RemoveValidatorTokensAndShares_books hvD hr
  -- an emptied unbonded validator goes, with no tokens left
  have hend : s'.bondedGap = s₂.bondedGap ∧ s'.limbo = s₂.limbo ∧ s'.accounts = s₂.accounts ∧
      s'.unbondingDelegations = s₂.unbondingDelegations ∧
      ∀ b, b ≠ val → s'.GetValidator b = s₂.GetValidator b := by
    split_ifs at hrv
    · obtain ⟨hgap, hlimbo, ha, hu, hval⟩ := RemoveValidator_books hs₂ hrv
      refine ⟨hgap, hlimbo, ha, hu, fun b hb => ?_⟩
      show s'.validators.get? b = s₂.validators.get? b
      rw [hval, SortedMap.get?_erase_ne _ (by rw [hop₂]; exact hb)]
    · simp only [Except.pure_eq_ok, Except.ok_inj] at hrv
      subst hrv
      exact ⟨rfl, rfl, rfl, rfl, fun _ _ => rfl⟩
  obtain ⟨hgap₃, hlimbo₃, ha₃, hu₃, hframe₃⟩ := hend
  refine ⟨by rw [hgap₃, hgap₂, hgapD, hgap₁], by rw [hlimbo₃, hlimbo₂, hlimboD, hlimbo₁],
    by rw [ha₃, ha₂, haD, ha₁], by rw [hu₃, hu₂, huD, hu₁], fun b hb => ?_⟩
  rw [hframe₃ b hb, ← hframe₁ b hb]
  show s₂.validators.get? b = s₁.validators.get? b
  rw [hval₂, SortedMap.get?_insert_ne _ _ (by rw [hop₁]; exact hb), hvalD]

/-- `SetUnbondingDelegationEntry` stores a nonnegative balance taken from transit. -/
theorem SetUnbondingDelegationEntry_books (hsol : Solvent s) {del : AccAddress}
    {val : ValAddress} {height : ℤ} {t : Time} {bal : ℤ} (hb : 0 ≤ bal) :
    (s.SetUnbondingDelegationEntry del val height t bal).1.bondedGap = s.bondedGap ∧
    (s.SetUnbondingDelegationEntry del val height t bal).1.limbo = s.limbo - bal ∧
    Solvent (s.SetUnbondingDelegationEntry del val height t bal).1 := by
  unfold SetUnbondingDelegationEntry
  dsimp only
  split
  · rename_i ubd hubd
    -- the stored record is under the key of its own pair, and gains the entry
    have hkey := hsol.ubd_key _ ubd hubd
    have hget : s.unbondingDelegations.get? (toLex (ubd.delegatorAddress, ubd.validatorAddress)) =
        some ubd := by
      rw [← hkey]
      exact hubd
    refine ⟨rfl, ?_, hsol.setUnbondingDelegation fun e he => ?_⟩
    · rw [limbo_SetUnbondingDelegation
        (u := { ubd with entries := ubd.entries ++ [NewUnbondingDelegationEntry height t bal] }) s hget]
      simp only [UnbondingDelegation.totalBalance, List.map_append, List.sum_append, List.map_cons,
        List.map_nil, List.sum_cons, List.sum_nil, NewUnbondingDelegationEntry]
      omega
    · rcases List.mem_append.mp he with he | he
      · exact hsol.entries_nonneg _ ubd hubd e he
      · rw [List.mem_singleton.mp he]
        exact ⟨hb, hb⟩
  · rename_i hnone
    refine ⟨rfl, ?_, hsol.setUnbondingDelegation fun e he => ?_⟩
    · rw [limbo_SetUnbondingDelegation_new (u := ⟨del, val, [NewUnbondingDelegationEntry height t bal]⟩)
        s hnone]
      simp only [UnbondingDelegation.totalBalance, List.map_cons, List.map_nil, List.sum_cons,
        List.sum_nil, NewUnbondingDelegationEntry, add_zero]
    · rw [List.mem_singleton.mp he]
      exact ⟨hb, hb⟩

theorem Undelegate_books (hs : s.ledger.Inv) (hsol : Solvent s) {hdr : Header}
    {del : AccAddress} {val : ValAddress} {x : Dec} {t : Time} (hx : 0 ≤ x.i)
    (h : s.Undelegate hdr del val x = .ok (s', t)) :
    s'.bondedGap = s.bondedGap ∧ s'.limbo = s.limbo ∧ Solvent s' := by
  obtain ⟨s₁, amt, hu, -, -, rfl⟩ := Undelegate_eq_ok h
  obtain ⟨-, hamt, -⟩ := unbond_inv hs hx hu
  obtain ⟨hgap₁, hlimbo₁, ha₁, hu₁, -⟩ := unbond_books hs hx hu
  obtain ⟨hgap₂, hlimbo₂, hsol₂⟩ := SetUnbondingDelegationEntry_books (hsol.of_eq ha₁ hu₁) hamt
  exact ⟨hgap₂.trans hgap₁, by rw [hlimbo₂, hlimbo₁]; omega, hsol₂⟩

theorem BeginRedelegation_books (hs : s.ledger.Inv) (hsol : Solvent s) {hdr : Header}
    {del : AccAddress} {src dst : ValAddress} {x : Dec} {t : Time} (hx : 0 ≤ x.i)
    (h : s.BeginRedelegation hdr del src dst x = .ok (s', t)) :
    s'.bondedGap = s.bondedGap ∧ s'.limbo = s.limbo ∧ Solvent s' := by
  obtain ⟨-, -, -, s₁, amt, hu, -, dstValidator, hdst, s₂, sh, hdel, -, hend⟩ :=
    BeginRedelegation_eq_ok h
  obtain ⟨hs₁, -, -⟩ := unbond_inv hs hx hu
  obtain ⟨hgap₁, hlimbo₁, ha₁, hu₁, -⟩ := unbond_books hs hx hu
  have hop := operatorAddress_of_get hs₁ hdst
  -- the tokens in transit from the source go to the destination
  obtain ⟨hgap₂, hlimbo₂, hsol₂⟩ := Delegate_books (hsol.of_eq ha₁ hu₁) (hop ▸ hdst) hdel
  -- recording the entry moves no tokens
  have hrec : s'.bondedGap = s₂.bondedGap ∧ s'.limbo = s₂.limbo ∧ Solvent s' := by
    rcases hend with ⟨-, rfl⟩ | ⟨-, rfl⟩
    · exact ⟨rfl, rfl, hsol₂⟩
    · exact ⟨rfl, rfl, hsol₂.of_eq rfl rfl⟩
  obtain ⟨hgap₃, hlimbo₃, hsol₃⟩ := hrec
  refine ⟨by rw [hgap₃, hgap₂, hgap₁], ?_, hsol₃⟩
  rw [hlimbo₃, hlimbo₂, hlimbo₁]
  simp only [Bool.false_eq_true, if_false]
  omega

/-! ### Slashing -/

/-- The loop over the entries of an unbonding delegation: an entry slashed loses part of
its balance, which the pool burns.  The invariant of the loop is that the record threaded
through it is the stored one, and that the entries still to go are its last ones. -/
theorem slashUnbondingEntries_books (now : Time) (ih : ℤ) (f : Dec) :
    ∀ (rest : List UnbondingDelegationEntry) (s : State) (ubd : UnbondingDelegation) (i : ℕ)
      (tot : ℤ) (pre : List UnbondingDelegationEntry),
      s.unbondingDelegations.get? (toLex (ubd.delegatorAddress, ubd.validatorAddress)) = some ubd →
      ubd.entries = pre ++ rest → pre.length = i → Solvent s →
      (slashUnbondingEntries now ih f s ubd i rest tot).1.bondedGap = s.bondedGap ∧
      (slashUnbondingEntries now ih f s ubd i rest tot).1.limbo = s.limbo ∧
      Solvent (slashUnbondingEntries now ih f s ubd i rest tot).1 ∧
      (slashUnbondingEntries now ih f s ubd i rest tot).1.validators = s.validators ∧
      (slashUnbondingEntries now ih f s ubd i rest tot).1.accounts = s.accounts ∧
      ∀ k, k ≠ toLex (ubd.delegatorAddress, ubd.validatorAddress) →
        (slashUnbondingEntries now ih f s ubd i rest tot).1.unbondingDelegations.get? k =
          s.unbondingDelegations.get? k
  | [], s, _, _, _, _, _, _, _, hsol => ⟨rfl, rfl, hsol, rfl, rfl, fun _ _ => rfl⟩
  | e :: rest, s, ubd, i, tot, pre, hget, hent, hlen, hsol => by
    unfold slashUnbondingEntries
    dsimp only
    -- the entries after this one are the last ones of the record
    have hent' : ubd.entries = (pre ++ [e]) ++ rest := by rw [hent, List.append_assoc]; rfl
    have hlen' : (pre ++ [e]).length = i + 1 := by rw [List.length_append, hlen]; rfl
    split_ifs with hskip hzero
    · exact slashUnbondingEntries_books now ih f rest s ubd (i + 1) tot _ hget hent' hlen' hsol
    · exact slashUnbondingEntries_books now ih f rest s ubd (i + 1) _ _ hget hent' hlen' hsol
    -- the entry loses `x` of its balance, and the pool burns it
    generalize hx : min (f.mulInt e.initialBalance).truncateInt e.balance = x at hzero ⊢
    have hxb : x ≤ e.balance := hx ▸ min_le_right _ _
    generalize he' : ({ e with balance := e.balance - x } : UnbondingDelegationEntry) = e'
    generalize hu' : ({ ubd with entries := ubd.entries.set i e' } : UnbondingDelegation) = ubd'
    have hkey : toLex (ubd'.delegatorAddress, ubd'.validatorAddress) =
        toLex (ubd.delegatorAddress, ubd.validatorAddress) := by rw [← hu']
    have hset : ubd'.entries = (pre ++ [e']) ++ rest := by
      rw [← hu']
      show ubd.entries.set i e' = _
      rw [hent, List.set_append_right _ _ (by omega), hlen, Nat.sub_self, List.set_cons_zero,
        List.append_assoc]
      rfl
    have hemem : e ∈ ubd.entries := by rw [hent]; exact List.mem_append_right _ List.mem_cons_self
    have he0 := hsol.entries_nonneg _ ubd hget e hemem
    -- the record written back: its balance lower by `x`, its entries still nonnegative
    have hsol₁ : Solvent (s.SetUnbondingDelegation ubd') := by
      refine hsol.setUnbondingDelegation fun e₁ he₁ => ?_
      rw [← hu'] at he₁
      rcases List.mem_or_eq_of_mem_set he₁ with he₁ | rfl
      · exact hsol.entries_nonneg _ ubd hget e₁ he₁
      · rw [← he']
        exact ⟨by dsimp only; omega, he0.2⟩
    have hw : s.unbondingDelegations.get? (toLex (ubd'.delegatorAddress, ubd'.validatorAddress)) =
        some ubd := by rw [hkey]; exact hget
    have htot : ubd'.totalBalance = ubd.totalBalance - x := by
      simp only [UnbondingDelegation.totalBalance, hset, hent, ← he', List.map_append,
        List.sum_append, List.map_cons, List.map_nil, List.sum_cons, List.sum_nil]
      omega
    have hlimbo₁ := limbo_SetUnbondingDelegation s hw
    -- the state after the write and the burn
    generalize hs₂ : (s.SetUnbondingDelegation ubd').SetPool
      { notBondedTokens := (s.SetUnbondingDelegation ubd').pool.notBondedTokens - x,
        bondedTokens := (s.SetUnbondingDelegation ubd').pool.bondedTokens } = s₂
    have hget₂ : s₂.unbondingDelegations.get? (toLex (ubd'.delegatorAddress, ubd'.validatorAddress)) =
        some ubd' := by
      rw [← hs₂]
      exact SortedMap.get?_insert_self _ _ _
    have hgap₂ : s₂.bondedGap = s.bondedGap := by
      rw [← hs₂, bondedGap_SetPool, bondedGap_SetUnbondingDelegation]
      dsimp only
      omega
    have hlimbo₂ : s₂.limbo = s.limbo := by
      rw [← hs₂, limbo_SetPool]
      dsimp only
      rw [hlimbo₁, htot]
      omega
    have hsol₂ : Solvent s₂ := by
      rw [← hs₂]
      exact hsol₁.of_eq rfl rfl
    have hother₂ : ∀ k, k ≠ toLex (ubd.delegatorAddress, ubd.validatorAddress) →
        s₂.unbondingDelegations.get? k = s.unbondingDelegations.get? k := by
      intro k hk
      rw [← hs₂]
      rw [← hkey] at hk
      exact SortedMap.get?_insert_ne _ _ hk
    have hlen'' : (pre ++ [e']).length = i + 1 := by rw [List.length_append, hlen]; rfl
    obtain ⟨hgap, hlimbo, hsol₃, hval, hacc, hother⟩ := slashUnbondingEntries_books now ih f rest s₂
      ubd' (i + 1) (tot + (f.mulInt e.initialBalance).truncateInt) _ hget₂ hset hlen'' hsol₂
    refine ⟨hgap.trans hgap₂, hlimbo.trans hlimbo₂, hsol₃, ?_, ?_, fun k hk => ?_⟩
    · rw [hval, ← hs₂]
      rfl
    · rw [hacc, ← hs₂]
      rfl
    · rw [hother k (by rw [hkey]; exact hk), hother₂ k hk]

/-- `slashUnbondingDelegation` of a stored record. -/
theorem slashUnbondingDelegation_books (hdr : Header) (ih : ℤ) (f : Dec)
    {ubd : UnbondingDelegation}
    (hget : s.unbondingDelegations.get? (toLex (ubd.delegatorAddress, ubd.validatorAddress)) =
      some ubd) (hsol : Solvent s) :
    (s.slashUnbondingDelegation hdr ubd ih f).1.bondedGap = s.bondedGap ∧
    (s.slashUnbondingDelegation hdr ubd ih f).1.limbo = s.limbo ∧
    Solvent (s.slashUnbondingDelegation hdr ubd ih f).1 ∧
    (s.slashUnbondingDelegation hdr ubd ih f).1.validators = s.validators ∧
    (s.slashUnbondingDelegation hdr ubd ih f).1.accounts = s.accounts ∧
    ∀ k, k ≠ toLex (ubd.delegatorAddress, ubd.validatorAddress) →
      (s.slashUnbondingDelegation hdr ubd ih f).1.unbondingDelegations.get? k =
        s.unbondingDelegations.get? k :=
  slashUnbondingEntries_books hdr.time ih f ubd.entries s ubd 0 0 [] hget rfl rfl hsol

/-- The unbonding delegations of a validator, as the store lists them: each stored under
the key of its pair, and no two under the same key. -/
theorem GetUnbondingDelegationsFromValidator_stored (hsol : Solvent s) (a : ValAddress) :
    (∀ u ∈ s.GetUnbondingDelegationsFromValidator a,
      s.unbondingDelegations.get? (toLex (u.delegatorAddress, u.validatorAddress)) = some u) ∧
    (s.GetUnbondingDelegationsFromValidator a).Pairwise (fun u u' =>
      toLex (u.delegatorAddress, u.validatorAddress) ≠
        toLex (u'.delegatorAddress, u'.validatorAddress)) := by
  -- an entry of the store is under the key of its record
  have hkey : ∀ e ∈ s.unbondingDelegations.entries,
      s.unbondingDelegations.get? e.1 = some e.2 ∧
        e.1 = toLex (e.2.delegatorAddress, e.2.validatorAddress) := fun e he => by
    have hget := (s.unbondingDelegations.mem_entries_iff).1 he
    exact ⟨hget, hsol.ubd_key _ _ hget⟩
  unfold GetUnbondingDelegationsFromValidator
  refine ⟨fun u hu => ?_, ?_⟩
  · obtain ⟨e, he, rfl⟩ := List.mem_map.mp hu
    obtain ⟨hget, hk⟩ := hkey e (List.mem_filter.mp he).1
    rw [← hk]
    exact hget
  · rw [List.pairwise_map]
    refine List.Pairwise.imp_of_mem (fun {e e'} he he' hlt => ?_)
      (List.Pairwise.filter _ s.unbondingDelegations.sorted)
    rw [← (hkey e (List.mem_filter.mp he).1).2, ← (hkey e' (List.mem_filter.mp he').1).2]
    exact ne_of_lt hlt

/-- The loop over the unbonding delegations of the slashed validator: each is the stored
record when its turn comes, since the ones before it were written under other keys. -/
theorem slashUnbondings_books {hdr : Header} {ih : ℤ} {f : Dec} :
    ∀ (l : List UnbondingDelegation) (acc r : State × ℤ),
      (∀ u ∈ l, acc.1.unbondingDelegations.get? (toLex (u.delegatorAddress, u.validatorAddress)) =
        some u) →
      l.Pairwise (fun u u' => toLex (u.delegatorAddress, u.validatorAddress) ≠
        toLex (u'.delegatorAddress, u'.validatorAddress)) →
      Solvent acc.1 →
      l.foldl (fun (acc : State × ℤ) ubd =>
        let (s, amountSlashed) := acc.1.slashUnbondingDelegation hdr ubd ih f
        (s, acc.2 - amountSlashed)) acc = r →
      r.1.bondedGap = acc.1.bondedGap ∧ r.1.limbo = acc.1.limbo ∧ Solvent r.1 ∧
        r.1.validators = acc.1.validators ∧ r.1.accounts = acc.1.accounts
  | [], acc, r, _, _, hsol, h => by
    subst h
    exact ⟨rfl, rfl, hsol, rfl, rfl⟩
  | u :: rest, acc, r, hget, hpw, hsol, h => by
    rw [List.foldl_cons] at h
    obtain ⟨hne, hpw'⟩ := List.pairwise_cons.mp hpw
    have hstep := slashUnbondingDelegation_books hdr ih f (hget u List.mem_cons_self) hsol
    generalize acc.1.slashUnbondingDelegation hdr u ih f = p at h hstep
    obtain ⟨s₁, x⟩ := p
    obtain ⟨hgap, hlimbo, hsol₁, hval, hacc, hother⟩ := hstep
    -- the records still to go are under other keys, so still stored
    have hget' : ∀ u' ∈ rest, s₁.unbondingDelegations.get?
        (toLex (u'.delegatorAddress, u'.validatorAddress)) = some u' := fun u' hu' => by
      rw [hother _ (Ne.symm (hne u' hu'))]
      exact hget u' (List.mem_cons_of_mem u hu')
    obtain ⟨hgap', hlimbo', hsol', hval', hacc'⟩ :=
      slashUnbondings_books rest (s₁, acc.2 - x) r hget' hpw' hsol₁ h
    exact ⟨hgap'.trans hgap, hlimbo'.trans hlimbo, hsol', hval'.trans hval, hacc'.trans hacc⟩

/-- One slashed entry of a redelegation: the shares unbonded at the destination, and the
tokens they were worth burned from transit. -/
theorem slashRedelegation_burn_books (hs : s.ledger.Inv) (hsol : Solvent s) {del : AccAddress}
    {dst : ValAddress} {x : Dec} {burned : ℤ} {s₂ : State} (hx : 0 ≤ x.i)
    (hu : s.unbond del dst x = .ok (s₂, burned)) :
    (s₂.SetPool ⟨s₂.pool.notBondedTokens - burned, s₂.pool.bondedTokens⟩).ledger.Inv ∧
      (s₂.SetPool ⟨s₂.pool.notBondedTokens - burned, s₂.pool.bondedTokens⟩).bondedGap =
        s.bondedGap ∧
      (s₂.SetPool ⟨s₂.pool.notBondedTokens - burned, s₂.pool.bondedTokens⟩).limbo = s.limbo ∧
      Solvent (s₂.SetPool ⟨s₂.pool.notBondedTokens - burned, s₂.pool.bondedTokens⟩) ∧
      ∀ b, b ≠ dst →
        (s₂.SetPool ⟨s₂.pool.notBondedTokens - burned, s₂.pool.bondedTokens⟩).GetValidator b =
          s.GetValidator b := by
  obtain ⟨hs₂, -, -⟩ := unbond_inv hs hx hu
  obtain ⟨hgap, hlimbo, ha, hub, hframe⟩ := unbond_books hs hx hu
  refine ⟨hs₂, by rw [bondedGap_SetPool, hgap]; dsimp only; omega, ?_,
    (hsol.of_eq ha hub).of_eq rfl rfl, hframe⟩
  rw [limbo_SetPool, hlimbo]
  dsimp only
  omega

/-- The loop over the entries of a redelegation from `a` to another validator: each entry
slashed unbonds shares at the destination, whose tokens the pool burns.  The validator at
`a` stays as it was. -/
theorem slashRedelegationEntries_books {now : Time} {red : Redelegation} {ih : ℤ} {f : Dec}
    {a : ValAddress} (hne : red.validatorDstAddress ≠ a) (hf : 0 ≤ f.i) :
    ∀ (l : List RedelegationEntry) (s : State) (tot : ℤ) (r : State × ℤ), s.ledger.Inv →
      Solvent s → (∀ e ∈ l, 0 ≤ e.sharesDst.i) →
      slashRedelegationEntries now red ih f s l tot = .ok r →
      r.1.bondedGap = s.bondedGap ∧ r.1.limbo = s.limbo ∧ Solvent r.1 ∧
        r.1.GetValidator a = s.GetValidator a
  | [], s, tot, r, _, hsol, _, h => by
    simp only [slashRedelegationEntries, Except.pure_eq_ok, Except.ok_inj] at h
    subst h
    exact ⟨rfl, rfl, hsol, rfl⟩
  | e :: rest, s, tot, r, hs, hsol, hsd, h => by
    obtain ⟨s₁, tot₁, hrest, hs₁⟩ := slashRedelegationEntries_cons_eq_ok h
    have hsd' : ∀ e' ∈ rest, 0 ≤ e'.sharesDst.i := fun e' he' => hsd e' (List.mem_cons_of_mem e he')
    -- the entry either changes nothing or unbonds at the destination and burns the tokens
    have hstep : s₁.ledger.Inv ∧ s₁.bondedGap = s.bondedGap ∧ s₁.limbo = s.limbo ∧ Solvent s₁ ∧
        s₁.GetValidator a = s.GetValidator a := by
      rcases hs₁ with rfl | ⟨d, burned, s₂, hd, hu, rfl⟩
      · exact ⟨hs, rfl, rfl, hsol, rfl⟩
      have hx := slashRedelegation_shares_nonneg hs hd hf (hsd e List.mem_cons_self)
      obtain ⟨hs₃, hgap, hlimbo, hsol₃, hframe⟩ := slashRedelegation_burn_books hs hsol hx hu
      exact ⟨hs₃, hgap, hlimbo, hsol₃, hframe a (Ne.symm hne)⟩
    obtain ⟨hs₁', hgap₁, hlimbo₁, hsol₁, hval₁⟩ := hstep
    obtain ⟨hgap, hlimbo, hsol', hval⟩ :=
      slashRedelegationEntries_books hne hf rest s₁ tot₁ r hs₁' hsol₁ hsd' hrest
    exact ⟨hgap.trans hgap₁, hlimbo.trans hlimbo₁, hsol', hval.trans hval₁⟩

/-- What left the validator after the infraction is slashed and burned: the books stay
balanced, and the validator itself is as it was. -/
theorem slashUnbondingsAndRedelegations_books (hs : s.ledger.Inv) (hsol : Solvent s)
    {hdr : Header} {v : Validator} {ih : ℤ} {f : Dec} {amt rem : ℤ} (hf : 0 ≤ f.i)
    (h : s.slashUnbondingsAndRedelegations hdr v ih f amt = .ok (s', rem)) :
    s'.bondedGap = s.bondedGap ∧ s'.limbo = s.limbo ∧ Solvent s' ∧
      s'.GetValidator v.operatorAddress = s.GetValidator v.operatorAddress := by
  unfold slashUnbondingsAndRedelegations at h
  generalize hacc : (s.GetUnbondingDelegationsFromValidator v.operatorAddress).foldl _ (s, amt) = acc
    at h
  obtain ⟨s₁, rem₁⟩ := acc
  obtain ⟨hstored, hpw⟩ := GetUnbondingDelegationsFromValidator_stored hsol v.operatorAddress
  obtain ⟨hgap₁, hlimbo₁, hsol₁, hval₁, -⟩ := slashUnbondings_books _ (s, amt) _ hstored hpw hsol hacc
  have hl₁ : s₁.ledger = s.ledger := by
    rw [← slashUnbondings_ledger hdr ih f _ (s, amt), hacc]
  -- the redelegations: the loop invariant is the books' and the ledger's, with the validator
  refine Except.foldlM_invariant
    (fun acc : State × ℤ => acc.1.ledger.Inv ∧ acc.1.bondedGap = s.bondedGap ∧
      acc.1.limbo = s.limbo ∧ Solvent acc.1 ∧
      acc.1.GetValidator v.operatorAddress = s.GetValidator v.operatorAddress)
    _ (fun acc red acc' hred hacc' hstep => ?_) (s₁, rem₁) (s', rem)
    ⟨hl₁ ▸ hs, hgap₁, hlimbo₁, hsol₁, by show s₁.validators.get? _ = _; rw [hval₁]; rfl⟩ h
    |>.2
  obtain ⟨⟨s₂, x⟩, hr, hstep⟩ := Except.bind_eq_ok.mp hstep
  simp only [Except.pure_eq_ok, Except.ok_inj] at hstep
  subst hstep
  obtain ⟨-, hdst, hsd⟩ := mem_GetRedelegationsFromValidator (hl₁ ▸ hs) hred
  obtain ⟨hinv, -⟩ := slashRedelegationEntries_inv hdst hf red.entries acc.1 0 (s₂, x) hacc'.1 hsd hr
  obtain ⟨hgap, hlimbo, hsol₂, hval⟩ :=
    slashRedelegationEntries_books hdst hf red.entries acc.1 0 (s₂, x) hacc'.1 hacc'.2.2.2.1 hsd hr
  exact ⟨hinv, hgap.trans hacc'.2.1, hlimbo.trans hacc'.2.2.1, hsol₂, hval.trans hacc'.2.2.2.2⟩

/-- The slashing of `Slash` before the burn: the books stay balanced, the ledger keeps its
invariant, and the slashed validator is stored as it was read. -/
theorem Slash_before_burn_books (hs : s.ledger.Inv) (hsol : Solvent s) {hdr : Header}
    {v : Validator} {ih : ℤ} {f : Dec} {amt rem : ℤ} (hf : 0 ≤ f.i)
    (hv : s.GetValidator v.operatorAddress = some v)
    (h : (if ih < hdr.height then s.slashUnbondingsAndRedelegations hdr v ih f amt
      else pure (s, amt)) = .ok (s', rem)) :
    s'.ledger.Inv ∧ s'.bondedGap = s.bondedGap ∧ s'.limbo = s.limbo ∧ Solvent s' ∧
      s'.GetValidator v.operatorAddress = some v := by
  split_ifs at h
  · obtain ⟨hgap, hlimbo, hsol₁, hval⟩ := slashUnbondingsAndRedelegations_books hs hsol hf h
    exact ⟨(slashUnbondingsAndRedelegations_inv hs hf h).1, hgap, hlimbo, hsol₁, hval.trans hv⟩
  · simp only [Except.pure_eq_ok, Except.ok_inj, Prod.mk.injEq] at h
    obtain ⟨rfl, -⟩ := h
    exact ⟨hs, rfl, rfl, hsol, hv⟩

/-- `Slash`: what left the validator after the infraction is slashed first, then at most its
tokens are taken off it and burned. -/
theorem Slash_books (hs : s.ledger.Inv) (hsol : Solvent s) {hdr : Header}
    {consAddr : ConsAddress} {ih power : ℤ} {f : Dec}
    (h : s.Slash hdr consAddr ih power f = .ok s') :
    s'.bondedGap = s.bondedGap ∧ s'.limbo = s.limbo ∧ Solvent s' := by
  obtain ⟨hf, ⟨-, rfl⟩ | ⟨v, hv, -, -, s₁, rem, h₁, s₂, v₂, h₂, rfl⟩⟩ := Slash_eq_ok h
  · exact ⟨rfl, rfl, hsol⟩
  -- the validator is the one stored under the address its consensus key points to
  obtain ⟨a, -, hva⟩ := Option.bind_eq_some_iff.mp hv
  have hop := operatorAddress_of_get hs hva
  subst hop
  obtain ⟨-, hgap₁, hlimbo₁, hsol₁, hv₁⟩ := Slash_before_burn_books hs hsol hf hva h₁
  -- the tokens taken off the validator are burned from the not-bonded tokens
  obtain ⟨hgap₂, hlimbo₂, ha₂, hu₂⟩ := RemoveValidatorTokens_books hv₁ h₂
  refine ⟨by rw [bondedGap_SetPool, hgap₂, hgap₁]; dsimp only; omega, ?_,
    (hsol₁.of_eq ha₂ hu₂).of_eq rfl rfl⟩
  rw [limbo_SetPool, hlimbo₂, hlimbo₁]
  dsimp only
  omega

/-! ### The end blocker -/

/-- A validator reached by the walk over the power index is bonded, at no cost to the
books. -/
theorem applyValidator_books {acc acc' : ApplyAcc} {valAddr : ValAddress}
    (hs : acc.s.ledger.Inv) (h : applyValidator acc valAddr = .ok (some acc')) :
    acc'.s.bondedGap = acc.s.bondedGap ∧ acc'.s.limbo = acc.s.limbo ∧
      acc'.s.accounts = acc.s.accounts ∧ acc'.s.unbondingDelegations = acc.s.unbondingDelegations := by
  obtain ⟨v, hv, -, ⟨-, hnone⟩ | ⟨-, s₁, v₁, hbond, hr⟩⟩ := applyValidator_eq_ok h
  · cases hnone
  have hb₁ : s₁.bondedGap = acc.s.bondedGap ∧ s₁.limbo = acc.s.limbo ∧
      s₁.accounts = acc.s.accounts ∧ s₁.unbondingDelegations = acc.s.unbondingDelegations := by
    rcases hbond with ⟨-, rfl, -⟩ | ⟨-, hb⟩
    · exact ⟨rfl, rfl, rfl, rfl⟩
    · have hva := operatorAddress_of_get hs hv
      obtain ⟨hgap, hlimbo, ha, hu, -⟩ := bondValidator_books (hva ▸ hv) hb
      exact ⟨hgap, hlimbo, ha, hu⟩
  rw [Option.some.injEq] at hr
  subst hr
  split_ifs
  · exact hb₁
  · exact hb₁

theorem applyPowerIndex_books (maxValidators : ℕ) :
    ∀ (l : List (Bytes × ValAddress)) (acc acc' : ApplyAcc), acc.s.ledger.Inv →
      applyPowerIndex maxValidators acc l = .ok acc' →
      acc'.s.bondedGap = acc.s.bondedGap ∧ acc'.s.limbo = acc.s.limbo ∧
        acc'.s.accounts = acc.s.accounts ∧
        acc'.s.unbondingDelegations = acc.s.unbondingDelegations
  | [], acc, acc', _, h => by
    simp only [applyPowerIndex, Except.pure_eq_ok, Except.ok_inj] at h
    subst h
    exact ⟨rfl, rfl, rfl, rfl⟩
  | (_, valAddr) :: rest, acc, acc', hs, h => by
    unfold applyPowerIndex at h
    split_ifs at h
    · simp only [Except.pure_eq_ok, Except.ok_inj] at h
      subst h
      exact ⟨rfl, rfl, rfl, rfl⟩
    obtain ⟨r, hr, h⟩ := Except.bind_eq_ok.mp h
    cases r with
    | none =>
      simp only [Except.pure_eq_ok, Except.ok_inj] at h
      subst h
      exact ⟨rfl, rfl, rfl, rfl⟩
    | some acc₁ =>
      have hl₁ := applyValidator_ledger hs hr
      obtain ⟨hgap₁, hlimbo₁, ha₁, hu₁⟩ := applyValidator_books hs hr
      obtain ⟨hgap, hlimbo, ha, hu⟩ :=
        applyPowerIndex_books maxValidators rest acc₁ acc' (hl₁ ▸ hs) h
      exact ⟨hgap.trans hgap₁, hlimbo.trans hlimbo₁, ha.trans ha₁, hu.trans hu₁⟩

theorem unbondNoLongerBonded_books {hdr : Header} {acc acc' : State × List ValidatorUpdate}
    {a : Bytes} (hs : acc.1.ledger.Inv) (h : unbondNoLongerBonded hdr acc a = .ok acc') :
    acc'.1.bondedGap = acc.1.bondedGap ∧ acc'.1.limbo = acc.1.limbo ∧
      acc'.1.accounts = acc.1.accounts ∧ acc'.1.unbondingDelegations = acc.1.unbondingDelegations := by
  obtain ⟨v, s₁, v₁, hv, hb, rfl⟩ := unbondNoLongerBonded_eq_ok h
  have hva := operatorAddress_of_get hs hv
  obtain ⟨hgap, hlimbo, ha, hu, -⟩ :=
    beginUnbondingValidator_books (hva ▸ hv) (bondedToUnbonding_eq_ok hb)
  exact ⟨hgap, hlimbo, ha, hu⟩

/-- `ApplyAndReturnValidatorSetUpdates` changes statuses only, with the pool following. -/
theorem ApplyAndReturnValidatorSetUpdates_books {hdr : Header} {updates : List ValidatorUpdate}
    (hs : s.ledger.Inv) (h : s.ApplyAndReturnValidatorSetUpdates hdr = .ok (s', updates)) :
    s'.bondedGap = s.bondedGap ∧ s'.limbo = s.limbo ∧ s'.accounts = s.accounts ∧
      s'.unbondingDelegations = s.unbondingDelegations := by
  obtain ⟨acc, s₁, ha, hu, rfl⟩ := ApplyAndReturnValidatorSetUpdates_eq_ok h
  have hl := applyPowerIndex_ledger _ _ _ acc hs ha
  have hb := applyPowerIndex_books _ _ _ acc hs ha
  -- the loop over the validators no longer bonded: the ledger and the books stay
  have hb₁ : s₁.ledger = s.ledger ∧ s₁.bondedGap = s.bondedGap ∧ s₁.limbo = s.limbo ∧
      s₁.accounts = s.accounts ∧ s₁.unbondingDelegations = s.unbondingDelegations :=
    Except.foldlM_invariant
      (fun acc : State × List ValidatorUpdate => acc.1.ledger = s.ledger ∧
        acc.1.bondedGap = s.bondedGap ∧ acc.1.limbo = s.limbo ∧ acc.1.accounts = s.accounts ∧
        acc.1.unbondingDelegations = s.unbondingDelegations) _
      (fun acc₁ _ acc₂ _ hacc h₂ => by
        obtain ⟨hgap, hlimbo, ha, hu⟩ := unbondNoLongerBonded_books (hacc.1 ▸ hs) h₂
        exact ⟨(unbondNoLongerBonded_ledger (hacc.1 ▸ hs) h₂).trans hacc.1, hgap.trans hacc.2.1,
          hlimbo.trans hacc.2.2.1, ha.trans hacc.2.2.2.1, hu.trans hacc.2.2.2.2⟩)
      (acc.s, acc.updates) (s₁, updates) ⟨hl, hb⟩ hu
  obtain ⟨-, hgap, hlimbo, ha, hu⟩ := hb₁
  split_ifs
  · exact ⟨hgap, hlimbo, ha, hu⟩
  · exact ⟨hgap, hlimbo, ha, hu⟩

/-- A mature unbonding validator becomes unbonded (its tokens stay loose), and is removed
once it has no shares, and so no tokens. -/
theorem unbondMatureValidator_books (hs : s.ledger.Inv) {a : ValAddress}
    (h : s.unbondMatureValidator a = .ok s') :
    s'.bondedGap = s.bondedGap ∧ s'.limbo = s.limbo ∧ s'.accounts = s.accounts ∧
      s'.unbondingDelegations = s.unbondingDelegations := by
  obtain ⟨v, s₁, v₁, hv, -, hc, hr⟩ := unbondMatureValidator_eq_ok h
  have hva := operatorAddress_of_get hs hv
  obtain ⟨hgap₁, hlimbo₁, ha₁, hu₁, -⟩ := completeUnbondingValidator_books (hva ▸ hv) hc
  have hl₁ : s₁.ledger = s.ledger := by
    rw [completeUnbondingValidator_ledger hc, setStake_stored hs hv]
  split_ifs at hr
  · obtain ⟨hgap, hlimbo, ha, hu, -⟩ := RemoveValidator_books (hl₁ ▸ hs) hr
    exact ⟨hgap.trans hgap₁, hlimbo.trans hlimbo₁, ha.trans ha₁, hu.trans hu₁⟩
  · simp only [Except.pure_eq_ok, Except.ok_inj] at hr
    subst hr
    exact ⟨hgap₁, hlimbo₁, ha₁, hu₁⟩

theorem UnbondAllMatureValidatorQueue_books (hs : s.ledger.Inv) {hdr : Header}
    (h : s.UnbondAllMatureValidatorQueue hdr = .ok s') :
    s'.bondedGap = s.bondedGap ∧ s'.limbo = s.limbo ∧ s'.accounts = s.accounts ∧
      s'.unbondingDelegations = s.unbondingDelegations := by
  -- the invariant of both loops: the ledger's, and books equal to those of `s`
  let P : State → Prop := fun s₁ => s₁.ledger.Inv ∧ s₁.bondedGap = s.bondedGap ∧
    s₁.limbo = s.limbo ∧ s₁.accounts = s.accounts ∧
    s₁.unbondingDelegations = s.unbondingDelegations
  have hstep : ∀ s₁ a s₂, P s₁ → s₁.unbondMatureValidator a = .ok s₂ → P s₂ := by
    intro s₁ a s₂ hP h₂
    obtain ⟨hgap, hlimbo, ha, hu⟩ := unbondMatureValidator_books hP.1 h₂
    exact ⟨unbondMatureValidator_inv hP.1 h₂, hgap.trans hP.2.1, hlimbo.trans hP.2.2.1,
      ha.trans hP.2.2.2.1, hu.trans hP.2.2.2.2⟩
  have hP : P s' := Except.foldlM_invariant P _
    (fun s₁ slice s₂ _ hP₁ h₂ => by
      obtain ⟨s₃, h₃, h₂⟩ := Except.bind_eq_ok.mp h₂
      simp only [Except.pure_eq_ok, Except.ok_inj] at h₂
      subst h₂
      exact Except.foldlM_invariant P _ (fun _ a _ _ hP₄ h₄ => hstep _ a _ hP₄ h₄) s₁ s₃ hP₁ h₃)
    s s' ⟨hs, rfl, rfl, rfl, rfl⟩ h
  exact hP.2

/-! ### Completing unbondings and redelegations -/

/-- The loop of `CompleteUnbonding` pays the balance of each mature entry out of transit:
what it pays and what it keeps add up to what the entries held. -/
theorem completeUnbondingEntries_books (t : Time) (a : AccAddress) :
    ∀ (l : List UnbondingDelegationEntry) (s : State) (r : State × List UnbondingDelegationEntry),
      Solvent s → (∀ e ∈ l, 0 ≤ e.balance) → completeUnbondingEntries t a s l = .ok r →
      r.1.bondedGap = s.bondedGap ∧
      r.1.limbo + (l.map UnbondingDelegationEntry.balance).sum =
        s.limbo + (r.2.map UnbondingDelegationEntry.balance).sum ∧
      Solvent r.1 ∧ r.1.unbondingDelegations = s.unbondingDelegations ∧ r.2 ⊆ l
  | [], s, r, hsol, _, h => by
    simp only [completeUnbondingEntries, Except.pure_eq_ok, Except.ok_inj] at h
    subst h
    exact ⟨rfl, rfl, hsol, rfl, List.Subset.refl _⟩
  | e :: rest, s, r, hsol, hl, h => by
    have hl' : ∀ e' ∈ rest, 0 ≤ e'.balance := fun e' he' => hl e' (List.mem_cons_of_mem e he')
    unfold completeUnbondingEntries at h
    split_ifs at h with hm hb
    · -- a mature entry with a balance pays it out to the account
      obtain ⟨s₁, h₁, h⟩ := Except.bind_eq_ok.mp h
      obtain ⟨c, hcoin, hc⟩ := Except.bind_eq_ok.mp h₁
      obtain ⟨-, rfl⟩ := NewCoin_eq_ok.mp hcoin
      obtain ⟨hgap₁, hlimbo₁, -, -, hu₁, -⟩ := s.UndelegateCoins_books hc
      obtain ⟨hgap, hlimbo, hsol', hu, hsub⟩ :=
        completeUnbondingEntries_books t a rest s₁ r (hsol.UndelegateCoins hc) hl' h
      refine ⟨hgap.trans hgap₁, ?_, hsol', hu.trans hu₁, fun x hx => List.mem_cons_of_mem e (hsub hx)⟩
      rw [List.map_cons, List.sum_cons]
      omega
    · -- a mature entry without a balance is dropped
      simp only [Except.pure_eq_ok, Except.ok_bind] at h
      obtain ⟨hgap, hlimbo, hsol', hu, hsub⟩ := completeUnbondingEntries_books t a rest s r hsol hl' h
      refine ⟨hgap, ?_, hsol', hu, fun x hx => List.mem_cons_of_mem e (hsub hx)⟩
      rw [List.map_cons, List.sum_cons]
      simp only [ne_eq, not_not] at hb
      omega
    · -- an entry not mature is kept
      obtain ⟨⟨s₁, rest₁⟩, h₁, h⟩ := Except.bind_eq_ok.mp h
      simp only [Except.pure_eq_ok, Except.ok_inj] at h
      subst h
      obtain ⟨hgap, hlimbo, hsol', hu, hsub⟩ := completeUnbondingEntries_books t a rest s _ hsol hl' h₁
      refine ⟨hgap, ?_, hsol', hu, List.cons_subset_cons e hsub⟩
      simp only [List.map_cons, List.sum_cons] at hlimbo ⊢
      omega

theorem CompleteUnbonding_books (hsol : Solvent s) {hdr : Header} {del : AccAddress}
    {val : ValAddress} (h : s.CompleteUnbonding hdr del val = .ok s') :
    s'.bondedGap = s.bondedGap ∧ s'.limbo = s.limbo ∧ Solvent s' := by
  obtain ⟨ubd, s₁, entries, hubd, he, rfl⟩ := CompleteUnbonding_eq_ok h
  -- the record read is stored under the key of its pair, before and after the payouts
  have hkey := hsol.ubd_key _ ubd hubd
  have hget : s.unbondingDelegations.get? (toLex (ubd.delegatorAddress, ubd.validatorAddress)) =
      some ubd := by
    rw [← hkey]
    exact hubd
  have hnn := hsol.entries_nonneg _ ubd hubd
  obtain ⟨hgap, hlimbo, hsol₁, hu₁, hsub⟩ :=
    completeUnbondingEntries_books _ _ _ s (s₁, entries) hsol (fun e he => (hnn e he).1) he
  have hget₁ : s₁.unbondingDelegations.get?
      (toLex (ubd.delegatorAddress, ubd.validatorAddress)) = some ubd := by
    rw [hu₁]
    exact hget
  split_ifs with hempty
  · -- no entry left: the record goes
    rw [List.isEmpty_iff] at hempty
    subst hempty
    refine ⟨hgap, ?_, hsol₁.removeUnbondingDelegation _⟩
    rw [limbo_RemoveUnbondingDelegation (u := { ubd with entries := [] }) s₁ hget₁]
    simp only [UnbondingDelegation.totalBalance, List.map_nil, List.sum_nil, add_zero] at hlimbo ⊢
    exact hlimbo
  · refine ⟨hgap, ?_, hsol₁.setUnbondingDelegation fun e he' => hnn e (hsub he')⟩
    rw [limbo_SetUnbondingDelegation (u := { ubd with entries := entries }) s₁ hget₁]
    simp only [UnbondingDelegation.totalBalance] at hlimbo ⊢
    omega

theorem CompleteRedelegation_books (hsol : Solvent s) {hdr : Header} {del : AccAddress}
    {src dst : ValAddress} (h : s.CompleteRedelegation hdr del src dst = .ok s') :
    s'.bondedGap = s.bondedGap ∧ s'.limbo = s.limbo ∧ Solvent s' := by
  obtain ⟨red, -, rfl⟩ := CompleteRedelegation_eq_ok h
  split_ifs
  · exact ⟨rfl, rfl, hsol.of_eq rfl rfl⟩
  · exact ⟨rfl, rfl, hsol.of_eq rfl rfl⟩

/-! ### The handlers -/

theorem handleMsgCreateValidator_books (hsol : Solvent s) {msg : MsgCreateValidator}
    (h : s.handleMsgCreateValidator msg = .ok s') :
    s'.bondedGap = s.bondedGap ∧ s'.limbo = s.limbo ∧ Solvent s' := by
  obtain ⟨hnone, -, -, sh, hdel⟩ := handleMsgCreateValidator_eq_ok h
  generalize hs₁ : ((s.SetValidator msg.newValidator).SetValidatorByConsAddr
    msg.newValidator).SetNewValidatorByPowerIndex msg.newValidator = s₁ at hdel
  -- the new validator is stored, with no tokens yet
  have hv : s₁.GetValidator msg.newValidator.operatorAddress = some msg.newValidator := by
    rw [← hs₁]
    exact SortedMap.get?_insert_self _ _ _
  have hgap₁ : s₁.bondedGap = s.bondedGap := by
    rw [← hs₁]
    exact bondedGap_SetValidator_new (v := msg.newValidator) s hnone rfl
  have hlimbo₁ : s₁.limbo = s.limbo := by
    rw [← hs₁]
    exact limbo_SetValidator_new (v := msg.newValidator) s hnone rfl
  have hsol₁ : Solvent s₁ := by
    rw [← hs₁]
    exact hsol.of_eq rfl rfl
  obtain ⟨hgap, hlimbo, hsol'⟩ := Delegate_books hsol₁ hv hdel
  refine ⟨hgap.trans hgap₁, ?_, hsol'⟩
  rw [hlimbo, hlimbo₁]
  simp only [if_true, sub_zero]

/-- An edit writes back a stored validator with its status and tokens. -/
theorem handleMsgEditValidator_books (hs : s.ledger.Inv) {msg : MsgEditValidator}
    (h : s.handleMsgEditValidator msg = .ok s') :
    s'.bondedGap = s.bondedGap ∧ s'.limbo = s.limbo ∧ s'.accounts = s.accounts ∧
      s'.unbondingDelegations = s.unbondingDelegations := by
  obtain ⟨v, hv, m, rfl⟩ := handleMsgEditValidator_eq_ok h
  have hv' : s.GetValidator v.operatorAddress = some v := by
    rw [operatorAddress_of_get hs hv]
    exact hv
  obtain ⟨hgap, hlimbo⟩ := books_SetValidator_same (v := { v with minSelfDelegation := m }) hv' rfl rfl
  exact ⟨hgap, hlimbo, rfl, rfl⟩

theorem handleMsgDelegate_books (hs : s.ledger.Inv) (hsol : Solvent s) {msg : MsgDelegate}
    (h : s.handleMsgDelegate msg = .ok s') :
    s'.bondedGap = s.bondedGap ∧ s'.limbo = s.limbo ∧ Solvent s' := by
  obtain ⟨v, hv, -, sh, hdel⟩ := handleMsgDelegate_eq_ok h
  have hop := operatorAddress_of_get hs hv
  obtain ⟨hgap, hlimbo, hsol'⟩ := Delegate_books hsol (hop ▸ hv) hdel
  refine ⟨hgap, ?_, hsol'⟩
  rw [hlimbo]
  simp only [if_true, sub_zero]

end State

/-! ### The state machine -/

/-- Every step keeps the books balanced, on a state whose share ledger has its
invariant. -/
theorem Step_supply {s s' : State} (hs : s.ledger.Inv) (hsup : SupplyInv s) (h : Step s s') :
    SupplyInv s' := by
  -- each action keeps both gaps and solvency
  suffices hb : s'.bondedGap = s.bondedGap ∧ s'.limbo = s.limbo ∧ Solvent s' by
    obtain ⟨hgap, hlimbo, hsol⟩ := hb
    exact { hsol with bondedGap_eq := hgap.trans hsup.bondedGap_eq,
                      limbo_eq := hlimbo.trans hsup.limbo_eq }
  have hsol := hsup.toSolvent
  obtain ⟨hdr, a, ha, h⟩ := h
  cases a with
  | createValidator msg => exact State.handleMsgCreateValidator_books hsol h
  | editValidator msg =>
    obtain ⟨hgap, hlimbo, ha', hu'⟩ := State.handleMsgEditValidator_books hs h
    exact ⟨hgap, hlimbo, hsol.of_eq ha' hu'⟩
  | delegate msg => exact State.handleMsgDelegate_books hs hsol h
  | undelegate msg =>
    obtain ⟨⟨s₁, t⟩, hu, rfl⟩ := Except.map_eq_ok.mp h
    obtain ⟨x, hx, hun⟩ := State.handleMsgUndelegate_eq_ok hu
    exact State.Undelegate_books hs hsol
      (State.ValidateUnbondAmount_nonneg hs (msg.ValidateBasic_eq_ok ha.1).2.2 hx) hun
  | beginRedelegate msg =>
    obtain ⟨⟨s₁, t⟩, hb, rfl⟩ := Except.map_eq_ok.mp h
    obtain ⟨x, hx, hbr⟩ := State.handleMsgBeginRedelegate_eq_ok hb
    exact State.BeginRedelegation_books hs hsol
      (State.ValidateUnbondAmount_nonneg hs (msg.ValidateBasic_eq_ok ha.1).2.2.2 hx) hbr
  | slash consAddr infractionHeight power slashFactor => exact State.Slash_books hs hsol h
  | jail consAddr =>
    obtain ⟨v, hv, hj⟩ := Except.bind_eq_ok.mp h
    obtain ⟨a, hva⟩ := State.GetValidator_of_mustGetValidatorByConsAddr _ hv
    have hop := State.operatorAddress_of_get hs hva
    obtain ⟨hgap, hlimbo, ha', hu', -⟩ := State.jailValidator_books (hop ▸ hva) hj
    exact ⟨hgap, hlimbo, hsol.of_eq ha' hu'⟩
  | unjail consAddr =>
    obtain ⟨v, hv, hj⟩ := Except.bind_eq_ok.mp h
    obtain ⟨a, hva⟩ := State.GetValidator_of_mustGetValidatorByConsAddr _ hv
    have hop := State.operatorAddress_of_get hs hva
    obtain ⟨hgap, hlimbo, ha', hu'⟩ := State.unjailValidator_books (hop ▸ hva) hj
    exact ⟨hgap, hlimbo, hsol.of_eq ha' hu'⟩
  | completeUnbonding delAddr valAddr => exact State.CompleteUnbonding_books hsol h
  | completeRedelegation delAddr valSrcAddr valDstAddr =>
    exact State.CompleteRedelegation_books hsol h
  | applyAndReturnValidatorSetUpdates =>
    obtain ⟨⟨s₁, u⟩, hu, rfl⟩ := Except.map_eq_ok.mp h
    obtain ⟨hgap, hlimbo, ha', hu'⟩ := State.ApplyAndReturnValidatorSetUpdates_books hs hu
    exact ⟨hgap, hlimbo, hsol.of_eq ha' hu'⟩
  | unbondAllMatureValidatorQueue =>
    obtain ⟨hgap, hlimbo, ha', hu'⟩ := State.UnbondAllMatureValidatorQueue_books hs h
    exact ⟨hgap, hlimbo, hsol.of_eq ha' hu'⟩

/-- The run lemma: the books stay balanced along every run, together with the share
ledger's invariant that the steps rely on. -/
theorem supplyInv_of_run {s s' : State} (hs : s.ledger.Inv) (hsup : SupplyInv s)
    (hrun : Relation.ReflTransGen Step s s') : s'.ledger.Inv ∧ SupplyInv s' :=
  Transition.invariant_of_and (fun s : State => s.ledger.Inv) SupplyInv
    (fun _ _ hs h => Step_inv hs h) (fun _ _ hs hsup h => Step_supply hs hsup h) hrun hs hsup

/-- Balanced books on a state whose validators have nonnegative tokens give the pool
accounting: the bonded tokens are those of the bonded validators, the not-bonded tokens
are the loose ones, and neither is negative. -/
theorem SupplyInv.poolAccounting {s : State} (hs : s.ledger.Inv) (hsup : SupplyInv s) :
    PoolAccounting s := by
  have hgap := hsup.bondedGap_eq
  have hlimbo := hsup.limbo_eq
  have hloose := State.looseSum_nonneg hs hsup.toSolvent
  have hbonded := State.bondedSum_nonneg hs
  unfold State.bondedGap at hgap
  unfold State.limbo at hlimbo
  exact ⟨by omega, by omega, by omega⟩

end CosmosSdk.Staking
