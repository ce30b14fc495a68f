import CosmosSdk.Staking.Ledger

/-!
# The pool's books

The pool of the staking module (`types/pool.go`) keeps two numbers: the bonded tokens,
which `SupplyInvariants` (`keeper/invariants.go`) checks against the tokens of the bonded
validators, and the not-bonded tokens, which it checks against the loose tokens: the
balances of the accounts, of the unbonding delegations' entries and the tokens of the
validators that are not bonded.  (The rewards, fees and community pool of that check are
held by other modules and no staking operation moves them.)

* `PoolAccounting`: the bonded tokens are those of the bonded validators, and neither
  number is negative.  It is decidable.
* `State.bondedGap`, `State.limbo`: what each number of the pool exceeds its counterpart
  by.  Between two operations both are zero (`SupplyInv`); within one, tokens taken from an
  account or a validator and not yet put anywhere are in `limbo`.  Each setter of the store
  moves them by a known amount, stated here as one lemma per setter.
-/

namespace CosmosSdk.Staking

/-- The tokens a validator contributes to the bonded pool. -/
def Validator.bondedTokens (v : Validator) : ℤ := if v.status = .bonded then v.tokens else 0

/-- The tokens a validator contributes to the not-bonded pool. -/
def Validator.looseTokens (v : Validator) : ℤ := if v.status = .bonded then 0 else v.tokens

/-- The balance left in an unbonding delegation's entries. -/
def UnbondingDelegation.totalBalance (ubd : UnbondingDelegation) : ℤ :=
  (ubd.entries.map UnbondingDelegationEntry.balance).sum

namespace State

/-- The tokens of the bonded validators. -/
def bondedSum (s : State) : ℤ := s.validators.sum fun _ v => v.bondedTokens

/-- The loose tokens: those of the validators not bonded, of the accounts, and of the
unbonding delegations. -/
def looseSum (s : State) : ℤ :=
  (s.validators.sum fun _ v => v.looseTokens) + (s.accounts.sum fun _ c => c) +
    s.unbondingDelegations.sum fun _ u => u.totalBalance

/-- What the pool's bonded tokens exceed the bonded validators' tokens by. -/
def bondedGap (s : State) : ℤ := s.pool.bondedTokens - s.bondedSum

/-- What the pool's not-bonded tokens exceed the loose tokens by. -/
def limbo (s : State) : ℤ := s.pool.notBondedTokens - s.looseSum

end State

/-- The pool accounting the claim of the staking module asks for: the bonded tokens are
those of the bonded validators, and neither number of the pool is negative. -/
def PoolAccounting (s : State) : Prop :=
  s.pool.bondedTokens = s.bondedSum ∧ 0 ≤ s.pool.notBondedTokens ∧ 0 ≤ s.pool.bondedTokens

instance (s : State) : Decidable (PoolAccounting s) :=
  inferInstanceAs (Decidable (_ ∧ _ ∧ _))

/-- What the loose tokens are made of, besides the validators' tokens, is nonnegative, and
each unbonding delegation is stored under the key of its pair. -/
structure Solvent (s : State) : Prop where
  accounts_nonneg : ∀ a c, s.accounts.get? a = some c → 0 ≤ c
  ubd_key : ∀ k u, s.unbondingDelegations.get? k = some u →
    k = toLex (u.delegatorAddress, u.validatorAddress)
  entries_nonneg : ∀ k u, s.unbondingDelegations.get? k = some u →
    ∀ e ∈ u.entries, 0 ≤ e.balance ∧ 0 ≤ e.initialBalance

/-- The books balance on a solvent state. -/
structure SupplyInv (s : State) : Prop extends Solvent s where
  bondedGap_eq : s.bondedGap = 0
  limbo_eq : s.limbo = 0

theorem Solvent.of_eq {s s' : State} (h : Solvent s) (ha : s'.accounts = s.accounts)
    (hu : s'.unbondingDelegations = s.unbondingDelegations) : Solvent s' where
  accounts_nonneg := by rw [ha]; exact h.accounts_nonneg
  ubd_key := by rw [hu]; exact h.ubd_key
  entries_nonneg := by rw [hu]; exact h.entries_nonneg

theorem Validator.bondedTokens_add_looseTokens (v : Validator) :
    v.bondedTokens + v.looseTokens = v.tokens := by
  unfold bondedTokens looseTokens
  split_ifs <;> omega

namespace State

variable (s : State)

/-! ### Bounds

On a state whose validators have nonnegative tokens, each validator's part of a sum is at
most the sum: this is what keeps the pool's transfers from running dry. -/

section Bounds

variable {s}

/-- The accounts and the unbonding delegations of a solvent state hold nonnegative tokens. -/
theorem held_nonneg (hsol : Solvent s) :
    0 ≤ (s.accounts.sum fun _ c => c) + s.unbondingDelegations.sum fun _ u => u.totalBalance := by
  have ha : 0 ≤ s.accounts.sum fun _ c => c := SortedMap.sum_nonneg hsol.accounts_nonneg
  have hu : 0 ≤ s.unbondingDelegations.sum fun _ u => u.totalBalance :=
    SortedMap.sum_nonneg fun k u hu => List.sum_nonneg fun x hx => by
      obtain ⟨e, he, rfl⟩ := List.mem_map.mp hx
      exact (hsol.entries_nonneg k u hu e he).1
  omega

theorem looseTokens_nonneg (hs : s.ledger.Inv) {a : ValAddress} {v : Validator}
    (hv : s.validators.get? a = some v) : 0 ≤ v.looseTokens := by
  have hT := hs.tokens_nonneg _ _ (s.ledger_stakes_of_get hv)
  unfold Validator.looseTokens
  split_ifs <;> simp_all

theorem bondedTokens_nonneg (hs : s.ledger.Inv) {a : ValAddress} {v : Validator}
    (hv : s.validators.get? a = some v) : 0 ≤ v.bondedTokens := by
  have hT := hs.tokens_nonneg _ _ (s.ledger_stakes_of_get hv)
  unfold Validator.bondedTokens
  split_ifs <;> simp_all

theorem looseSum_nonneg (hs : s.ledger.Inv) (hsol : Solvent s) : 0 ≤ s.looseSum := by
  have hv : 0 ≤ s.validators.sum fun _ v => v.looseTokens :=
    SortedMap.sum_nonneg fun _ _ hw => looseTokens_nonneg hs hw
  have hheld := held_nonneg hsol
  unfold looseSum
  omega

theorem looseTokens_le_looseSum (hs : s.ledger.Inv) (hsol : Solvent s) {a : ValAddress}
    {v : Validator} (hv : s.validators.get? a = some v) : v.looseTokens ≤ s.looseSum := by
  have hle : v.looseTokens ≤ s.validators.sum fun _ v => v.looseTokens :=
    SortedMap.le_sum (fun _ _ hw => looseTokens_nonneg hs hw) hv
  have hheld := held_nonneg hsol
  unfold looseSum
  omega

theorem bondedTokens_le_bondedSum (hs : s.ledger.Inv) {a : ValAddress} {v : Validator}
    (hv : s.validators.get? a = some v) : v.bondedTokens ≤ s.bondedSum :=
  SortedMap.le_sum (fun _ _ hw => bondedTokens_nonneg hs hw) hv

theorem bondedSum_nonneg (hs : s.ledger.Inv) : 0 ≤ s.bondedSum :=
  SortedMap.sum_nonneg fun _ _ hw => bondedTokens_nonneg hs hw

end Bounds

/-! ### The setters that leave the books alone -/

@[simp] theorem bondedGap_SetValidatorByConsAddr (v : Validator) :
    (s.SetValidatorByConsAddr v).bondedGap = s.bondedGap := rfl
@[simp] theorem limbo_SetValidatorByConsAddr (v : Validator) :
    (s.SetValidatorByConsAddr v).limbo = s.limbo := rfl
@[simp] theorem bondedGap_SetValidatorByPowerIndex (v : Validator) :
    (s.SetValidatorByPowerIndex v).bondedGap = s.bondedGap := by
  unfold SetValidatorByPowerIndex; split <;> rfl
@[simp] theorem limbo_SetValidatorByPowerIndex (v : Validator) :
    (s.SetValidatorByPowerIndex v).limbo = s.limbo := by
  unfold SetValidatorByPowerIndex; split <;> rfl
@[simp] theorem bondedGap_DeleteValidatorByPowerIndex (v : Validator) :
    (s.DeleteValidatorByPowerIndex v).bondedGap = s.bondedGap := rfl
@[simp] theorem limbo_DeleteValidatorByPowerIndex (v : Validator) :
    (s.DeleteValidatorByPowerIndex v).limbo = s.limbo := rfl
@[simp] theorem bondedGap_SetNewValidatorByPowerIndex (v : Validator) :
    (s.SetNewValidatorByPowerIndex v).bondedGap = s.bondedGap := rfl
@[simp] theorem limbo_SetNewValidatorByPowerIndex (v : Validator) :
    (s.SetNewValidatorByPowerIndex v).limbo = s.limbo := rfl
@[simp] theorem bondedGap_SetLastValidatorPower (a : ValAddress) (p : ℤ) :
    (s.SetLastValidatorPower a p).bondedGap = s.bondedGap := rfl
@[simp] theorem limbo_SetLastValidatorPower (a : ValAddress) (p : ℤ) :
    (s.SetLastValidatorPower a p).limbo = s.limbo := rfl
@[simp] theorem bondedGap_DeleteLastValidatorPower (a : ValAddress) :
    (s.DeleteLastValidatorPower a).bondedGap = s.bondedGap := rfl
@[simp] theorem limbo_DeleteLastValidatorPower (a : ValAddress) :
    (s.DeleteLastValidatorPower a).limbo = s.limbo := rfl
@[simp] theorem bondedGap_SetLastTotalPower (p : ℤ) :
    (s.SetLastTotalPower p).bondedGap = s.bondedGap := rfl
@[simp] theorem limbo_SetLastTotalPower (p : ℤ) : (s.SetLastTotalPower p).limbo = s.limbo := rfl
@[simp] theorem bondedGap_SetDelegation (d : Delegation) :
    (s.SetDelegation d).bondedGap = s.bondedGap := rfl
@[simp] theorem limbo_SetDelegation (d : Delegation) : (s.SetDelegation d).limbo = s.limbo := rfl
@[simp] theorem bondedGap_RemoveDelegation (d : Delegation) :
    (s.RemoveDelegation d).bondedGap = s.bondedGap := rfl
@[simp] theorem limbo_RemoveDelegation (d : Delegation) :
    (s.RemoveDelegation d).limbo = s.limbo := rfl
@[simp] theorem bondedGap_SetRedelegation (r : Redelegation) :
    (s.SetRedelegation r).bondedGap = s.bondedGap := rfl
@[simp] theorem limbo_SetRedelegation (r : Redelegation) :
    (s.SetRedelegation r).limbo = s.limbo := rfl
@[simp] theorem bondedGap_RemoveRedelegation (r : Redelegation) :
    (s.RemoveRedelegation r).bondedGap = s.bondedGap := rfl
@[simp] theorem limbo_RemoveRedelegation (r : Redelegation) :
    (s.RemoveRedelegation r).limbo = s.limbo := rfl
@[simp] theorem bondedGap_InsertValidatorQueue (v : Validator) :
    (s.InsertValidatorQueue v).bondedGap = s.bondedGap := rfl
@[simp] theorem limbo_InsertValidatorQueue (v : Validator) :
    (s.InsertValidatorQueue v).limbo = s.limbo := rfl
@[simp] theorem bondedGap_DeleteValidatorQueue (v : Validator) :
    (s.DeleteValidatorQueue v).bondedGap = s.bondedGap := by
  unfold DeleteValidatorQueue; dsimp only; split <;> rfl
@[simp] theorem limbo_DeleteValidatorQueue (v : Validator) :
    (s.DeleteValidatorQueue v).limbo = s.limbo := by
  unfold DeleteValidatorQueue; dsimp only; split <;> rfl
@[simp] theorem bondedGap_DeleteValidatorQueueTimeSlice (t : Time) :
    (s.DeleteValidatorQueueTimeSlice t).bondedGap = s.bondedGap := rfl
@[simp] theorem limbo_DeleteValidatorQueueTimeSlice (t : Time) :
    (s.DeleteValidatorQueueTimeSlice t).limbo = s.limbo := rfl

/-! ### The setters that move the books -/

@[simp] theorem bondedGap_SetPool (p : Pool) :
    (s.SetPool p).bondedGap = s.bondedGap + (p.bondedTokens - s.pool.bondedTokens) := by
  simp only [bondedGap, SetPool, bondedSum]
  omega

@[simp] theorem limbo_SetPool (p : Pool) :
    (s.SetPool p).limbo = s.limbo + (p.notBondedTokens - s.pool.notBondedTokens) := by
  simp only [limbo, SetPool, looseSum]
  omega

/-- Replacing a stored validator moves the difference of its bonded tokens. -/
theorem bondedGap_SetValidator {v w : Validator}
    (hw : s.validators.get? v.operatorAddress = some w) :
    (s.SetValidator v).bondedGap = s.bondedGap + w.bondedTokens - v.bondedTokens := by
  simp only [bondedGap, bondedSum, SetValidator, SortedMap.sum_insert_eq, hw, Option.elim_some]
  omega

/-- Replacing a stored validator moves the difference of its loose tokens. -/
theorem limbo_SetValidator {v w : Validator}
    (hw : s.validators.get? v.operatorAddress = some w) :
    (s.SetValidator v).limbo = s.limbo + w.looseTokens - v.looseTokens := by
  simp only [limbo, looseSum, SetValidator, SortedMap.sum_insert_eq, hw, Option.elim_some]
  omega

/-- A new validator without tokens moves nothing. -/
theorem bondedGap_SetValidator_new {v : Validator}
    (hw : s.validators.get? v.operatorAddress = none) (hT : v.tokens = 0) :
    (s.SetValidator v).bondedGap = s.bondedGap := by
  have h0 : v.bondedTokens = 0 := by unfold Validator.bondedTokens; split_ifs <;> omega
  simp only [bondedGap, bondedSum, SetValidator, SortedMap.sum_insert_eq, hw, Option.elim_none, h0]
  omega

theorem limbo_SetValidator_new {v : Validator}
    (hw : s.validators.get? v.operatorAddress = none) (hT : v.tokens = 0) :
    (s.SetValidator v).limbo = s.limbo := by
  have h0 : v.looseTokens = 0 := by unfold Validator.looseTokens; split_ifs <;> omega
  simp only [limbo, looseSum, SetValidator, SortedMap.sum_insert_eq, hw, Option.elim_none, h0]
  omega

/-- Replacing a stored unbonding delegation under its key moves the difference of the
balances. -/
theorem limbo_SetUnbondingDelegation {u w : UnbondingDelegation}
    (hw : s.unbondingDelegations.get? (toLex (u.delegatorAddress, u.validatorAddress)) = some w) :
    (s.SetUnbondingDelegation u).limbo = s.limbo + w.totalBalance - u.totalBalance := by
  simp only [limbo, looseSum, SetUnbondingDelegation, SortedMap.sum_insert_eq, hw, Option.elim_some]
  omega

theorem limbo_SetUnbondingDelegation_new {u : UnbondingDelegation}
    (hw : s.unbondingDelegations.get? (toLex (u.delegatorAddress, u.validatorAddress)) = none) :
    (s.SetUnbondingDelegation u).limbo = s.limbo - u.totalBalance := by
  simp only [limbo, looseSum, SetUnbondingDelegation, SortedMap.sum_insert_eq, hw, Option.elim_none]
  omega

theorem limbo_RemoveUnbondingDelegation {u w : UnbondingDelegation}
    (hw : s.unbondingDelegations.get? (toLex (u.delegatorAddress, u.validatorAddress)) = some w) :
    (s.RemoveUnbondingDelegation u).limbo = s.limbo + w.totalBalance := by
  simp only [limbo, looseSum, RemoveUnbondingDelegation, SortedMap.sum_erase_eq, hw,
    Option.elim_some]
  omega

@[simp] theorem bondedGap_SetUnbondingDelegation (u : UnbondingDelegation) :
    (s.SetUnbondingDelegation u).bondedGap = s.bondedGap := rfl
@[simp] theorem bondedGap_RemoveUnbondingDelegation (u : UnbondingDelegation) :
    (s.RemoveUnbondingDelegation u).bondedGap = s.bondedGap := rfl

theorem DelegateCoins_books {a : AccAddress} {amt : ℤ} {s' : State}
    (h : s.DelegateCoins a amt = .ok s') :
    s'.bondedGap = s.bondedGap ∧ s'.limbo = s.limbo + amt ∧ s'.pool = s.pool ∧
      s'.validators = s.validators ∧ s'.unbondingDelegations = s.unbondingDelegations ∧
      ∃ c, s.accounts.get? a = some c ∧ amt ≤ c ∧ s'.accounts = s.accounts.insert a (c - amt) := by
  unfold DelegateCoins at h
  split_ifs at h
  split at h
  · cases h
  · rename_i c hc
    split_ifs at h with hlt
    simp only [Except.pure_eq_ok, Except.ok_inj] at h
    subst h
    refine ⟨rfl, ?_, rfl, rfl, rfl, c, hc, by omega, rfl⟩
    simp only [limbo, looseSum, SortedMap.sum_insert_eq, hc, Option.elim_some]
    omega

theorem UndelegateCoins_books {a : AccAddress} {amt : ℤ} {s' : State}
    (h : s.UndelegateCoins a amt = .ok s') :
    s'.bondedGap = s.bondedGap ∧ s'.limbo = s.limbo - amt ∧ s'.pool = s.pool ∧
      s'.validators = s.validators ∧ s'.unbondingDelegations = s.unbondingDelegations ∧
      0 < amt ∧ ∃ c, s.accounts.get? a = some c ∧ s'.accounts = s.accounts.insert a (c + amt) := by
  unfold UndelegateCoins at h
  split_ifs at h with hamt
  split at h
  · cases h
  · rename_i c hc
    simp only [Except.pure_eq_ok, Except.ok_inj] at h
    subst h
    refine ⟨rfl, ?_, rfl, rfl, rfl, by omega, c, hc, rfl⟩
    simp only [limbo, looseSum, SortedMap.sum_insert_eq, hc, Option.elim_some]
    omega

end State

end CosmosSdk.Staking
