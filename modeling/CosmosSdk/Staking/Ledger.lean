import CosmosSdk.Staking.Store

/-!
# The share ledger

What the delegation invariants of `keeper/invariants.go` read of the staking store: the
stake of each validator (its address, tokens and delegator shares), the delegations, and
the redelegations whose slashing unbonds delegations.

* `SharesLedger`: the checks of `DelegatorSharesInvariant` and
  `PositiveDelegationInvariant`, with the signs of each validator's tokens and shares.
  It is decidable, so it can be evaluated on a state.
* `Ledger.Inv`: the inductive invariant.  Besides those checks it holds the keys of the
  records, that every delegation is to a stored validator, that no redelegation returns
  to its source, and the bound on the exchange rate: a validator has at most one token
  per unit of share (`tokens ≤ delegatorShares.i`).  The bound is what keeps the shares
  issued for a positive delegation positive (`ExchangeRate`).
* The ledger operations, what each keeps (`Inv.update` for a change of one validator's
  stake together with its delegations, `Inv.eraseStake`, `Inv.setRedelegation`), and
  `State.ledger`, with one lemma per setter of the store saying how it acts on the ledger.
-/

namespace CosmosSdk.Staking

/-- What the share ledger reads of a validator. -/
structure Stake where
  operatorAddress : ValAddress
  tokens : ℤ
  delegatorShares : Dec
  deriving DecidableEq, Repr

/-- The stake of a validator record. -/
def Validator.stake (v : Validator) : Stake := ⟨v.operatorAddress, v.tokens, v.delegatorShares⟩

@[simp] theorem Validator.stake_operatorAddress (v : Validator) :
    v.stake.operatorAddress = v.operatorAddress := rfl

@[simp] theorem Validator.stake_tokens (v : Validator) : v.stake.tokens = v.tokens := rfl

@[simp] theorem Validator.stake_delegatorShares (v : Validator) :
    v.stake.delegatorShares = v.delegatorShares := rfl

/-- The store key of a delegation record (`GetDelegationKey`). -/
def Delegation.key (d : Delegation) : DelKey := toLex (d.delegatorAddress, d.validatorAddress)

/-- The store key of a redelegation record (`GetREDKey`). -/
def Redelegation.key (r : Redelegation) : RedKey :=
  toLex (r.delegatorAddress, toLex (r.validatorSrcAddress, r.validatorDstAddress))

/-- The sum of the shares of the stored delegations to a validator, as
`DelegatorSharesInvariant` adds them up over `GetValidatorDelegations`. -/
def delegatedShares (delegations : SortedMap DelKey Delegation) (a : ValAddress) : ℤ :=
  delegations.sum fun _ d => if d.validatorAddress = a then d.shares.i else 0

/-! ### The checks of the staking module -/

/-- `DelegatorSharesInvariant` and `PositiveDelegationInvariant`, and the signs of the
tokens and shares of each validator. -/
def SharesLedger (s : State) : Prop :=
  (∀ e ∈ s.validators.entries,
    e.2.delegatorShares.i = delegatedShares s.delegations e.2.operatorAddress) ∧
  (∀ e ∈ s.delegations.entries, 0 < e.2.shares.i) ∧
  (∀ e ∈ s.validators.entries, 0 ≤ e.2.tokens ∧ 0 ≤ e.2.delegatorShares.i ∧
    (e.2.delegatorShares.i = 0 → e.2.tokens = 0))

instance (s : State) : Decidable (SharesLedger s) :=
  inferInstanceAs (Decidable (_ ∧ _ ∧ _))

/-! ### The ledger and its invariant -/

/-- The share ledger: the stake of each validator, the delegations and the
redelegations. -/
structure Ledger where
  stakes : ValAddress → Option Stake
  delegations : SortedMap DelKey Delegation
  redelegations : SortedMap RedKey Redelegation

namespace Ledger

/-- Store a validator's stake under its address. -/
def setStake (l : Ledger) (st : Stake) : Ledger :=
  { l with stakes := Function.update l.stakes st.operatorAddress (some st) }

/-- Remove the validator under an address. -/
def eraseStake (l : Ledger) (a : ValAddress) : Ledger :=
  { l with stakes := Function.update l.stakes a none }

/-- Store a delegation under its key. -/
def setDelegation (l : Ledger) (d : Delegation) : Ledger :=
  { l with delegations := l.delegations.insert d.key d }

/-- Remove the delegation under the key of `d`. -/
def removeDelegation (l : Ledger) (d : Delegation) : Ledger :=
  { l with delegations := l.delegations.erase d.key }

/-- Store a redelegation under its key. -/
def setRedelegation (l : Ledger) (r : Redelegation) : Ledger :=
  { l with redelegations := l.redelegations.insert r.key r }

/-- Remove the redelegation under the key of `r`. -/
def removeRedelegation (l : Ledger) (r : Redelegation) : Ledger :=
  { l with redelegations := l.redelegations.erase r.key }

/-- The invariant of the share ledger. -/
structure Inv (l : Ledger) : Prop where
  stake_key : ∀ a st, l.stakes a = some st → st.operatorAddress = a
  tokens_nonneg : ∀ a st, l.stakes a = some st → 0 ≤ st.tokens
  tokens_le_shares : ∀ a st, l.stakes a = some st → st.tokens ≤ st.delegatorShares.i
  shares_eq : ∀ a st, l.stakes a = some st →
    st.delegatorShares.i = delegatedShares l.delegations a
  delegation_key : ∀ k d, l.delegations.get? k = some d → k = d.key
  shares_pos : ∀ k d, l.delegations.get? k = some d → 0 < d.shares.i
  delegation_validator : ∀ k d, l.delegations.get? k = some d → l.stakes d.validatorAddress ≠ none
  redelegation_key : ∀ k r, l.redelegations.get? k = some r → k = r.key
  redelegation_ne : ∀ k r, l.redelegations.get? k = some r →
    r.validatorSrcAddress ≠ r.validatorDstAddress
  sharesDst_nonneg : ∀ k r, l.redelegations.get? k = some r → ∀ e ∈ r.entries, 0 ≤ e.sharesDst.i

/-- The empty ledger, as at genesis with no validators. -/
def empty : Ledger := ⟨fun _ => none, ∅, ∅⟩

theorem inv_empty : empty.Inv where
  stake_key _ _ h := by cases h
  tokens_nonneg _ _ h := by cases h
  tokens_le_shares _ _ h := by cases h
  shares_eq _ _ h := by cases h
  delegation_key _ _ h := by cases h
  shares_pos _ _ h := by cases h
  delegation_validator _ _ h := by cases h
  redelegation_key _ _ h := by cases h
  redelegation_ne _ _ h := by cases h
  sharesDst_nonneg _ _ h := by cases h

end Ledger

/-! ### Sums of delegated shares -/

section DelegatedShares

variable {ds : SortedMap DelKey Delegation} {d : Delegation}

/-- Storing `d` changes the shares delegated to its validator by the difference with the
delegation it replaces, which is to the same validator. -/
theorem delegatedShares_insert
    (hkey : ∀ d₀, ds.get? d.key = some d₀ → d₀.validatorAddress = d.validatorAddress)
    (b : ValAddress) :
    delegatedShares (ds.insert d.key d) b = delegatedShares ds b +
      if d.validatorAddress = b then d.shares.i - (ds.get? d.key).elim 0 (·.shares.i) else 0 := by
  rw [delegatedShares, SortedMap.sum_insert_eq, ← delegatedShares]
  cases hk : ds.get? d.key with
  | none => simp only [Option.elim_none]; split_ifs <;> omega
  | some d₀ =>
    simp only [Option.elim_some, hkey d₀ hk]
    split_ifs <;> omega

/-- Removing the delegation under the key of `d` takes its shares off its validator. -/
theorem delegatedShares_erase
    (hkey : ∀ d₀, ds.get? d.key = some d₀ → d₀.validatorAddress = d.validatorAddress)
    (b : ValAddress) :
    delegatedShares (ds.erase d.key) b = delegatedShares ds b -
      if d.validatorAddress = b then (ds.get? d.key).elim 0 (·.shares.i) else 0 := by
  rw [delegatedShares, SortedMap.sum_erase_eq, ← delegatedShares]
  cases hk : ds.get? d.key with
  | none => simp only [Option.elim_none]; split_ifs <;> omega
  | some d₀ =>
    simp only [Option.elim_some, hkey d₀ hk]

end DelegatedShares

namespace Ledger

variable {l : Ledger}

/-! ### Consequences of the invariant -/

theorem Inv.delegatedShares_nonneg (h : l.Inv) (a : ValAddress) :
    0 ≤ delegatedShares l.delegations a := by
  refine SortedMap.sum_nonneg fun k d hd => ?_
  split_ifs
  · exact (h.shares_pos k d hd).le
  · exact le_rfl

theorem Inv.shares_nonneg (h : l.Inv) {a : ValAddress} {st : Stake} (hst : l.stakes a = some st) :
    0 ≤ st.delegatorShares.i := by
  rw [h.shares_eq a st hst]
  exact h.delegatedShares_nonneg a

/-- A delegation's shares are part of its validator's. -/
theorem Inv.shares_le (h : l.Inv) {k : DelKey} {d : Delegation} (hd : l.delegations.get? k = some d) :
    d.shares.i ≤ delegatedShares l.delegations d.validatorAddress := by
  have hle := SortedMap.le_sum (f := fun _ d' => if d'.validatorAddress = d.validatorAddress
    then d'.shares.i else 0) (fun k' d' hd' => ?_) hd
  · rw [if_pos rfl] at hle
    exact hle
  · split_ifs
    · exact (h.shares_pos k' d' hd').le
    · exact le_rfl

/-- A validator without shares has no delegations. -/
theorem Inv.validatorAddress_ne_of_shares_zero (h : l.Inv) {a : ValAddress} {st : Stake}
    (hst : l.stakes a = some st) (h0 : st.delegatorShares.i = 0) {k : DelKey} {d : Delegation}
    (hd : l.delegations.get? k = some d) : d.validatorAddress ≠ a := by
  rintro rfl
  have hle := h.shares_le hd
  have hpos := h.shares_pos k d hd
  rw [← h.shares_eq _ st hst, h0] at hle
  omega

/-- No delegation is to an address without a validator. -/
theorem Inv.delegatedShares_eq_zero (h : l.Inv) {a : ValAddress} (ha : l.stakes a = none) :
    delegatedShares l.delegations a = 0 := by
  have hzero : delegatedShares l.delegations a = l.delegations.sum fun _ _ => (0 : ℤ) := by
    refine SortedMap.sum_congr fun k d hd => ?_
    have hval := h.delegation_validator k d hd
    rw [if_neg (fun he => hval (by rw [he]; exact ha))]
  rw [hzero]
  simp [SortedMap.sum]

/-- The stored delegation under the key of `d` is to the validator of `d`. -/
theorem Inv.validatorAddress_of_key (h : l.Inv) {d : Delegation} :
    ∀ d₀, l.delegations.get? d.key = some d₀ → d₀.validatorAddress = d.validatorAddress := by
  intro d₀ hd₀
  have hk := h.delegation_key _ d₀ hd₀
  simp only [Delegation.key, toLex_inj, Prod.mk.injEq] at hk
  exact hk.2.symm

/-- Storing the stake a validator already has changes nothing. -/
theorem Inv.setStake_self (h : l.Inv) {a : ValAddress} {st : Stake} (hst : l.stakes a = some st) :
    l.setStake st = l := by
  have ha := h.stake_key a st hst
  subst ha
  unfold setStake
  rw [Function.update_eq_self_iff.mpr hst.symm]

theorem setStake_setDelegation (st : Stake) (d : Delegation) :
    (l.setStake st).setDelegation d = (l.setDelegation d).setStake st := rfl

theorem setStake_removeDelegation (st : Stake) (d : Delegation) :
    (l.setStake st).removeDelegation d = (l.removeDelegation d).setStake st := rfl

/-! ### What the operations keep -/

theorem update_stakes_eq_some {a b : ValAddress} {st st' : Stake}
    (h : Function.update l.stakes a (some st) b = some st') :
    (b = a ∧ st' = st) ∨ (b ≠ a ∧ l.stakes b = some st') := by
  rw [Function.update_apply] at h
  split_ifs at h with hb
  · exact Or.inl ⟨hb, (Option.some.inj h).symm⟩
  · exact Or.inr ⟨hb, h⟩

/-- One validator's stake and the delegations change together: the validator's shares are
those delegated to it, the others' delegated shares are as they were, and the delegations
keep their keys, positive shares and validators. -/
theorem Inv.update (h : l.Inv) {st : Stake} {ds : SortedMap DelKey Delegation}
    (hT0 : 0 ≤ st.tokens) (hT : st.tokens ≤ st.delegatorShares.i)
    (hS : st.delegatorShares.i = delegatedShares ds st.operatorAddress)
    (hsum : ∀ b, b ≠ st.operatorAddress → delegatedShares ds b = delegatedShares l.delegations b)
    (hkey : ∀ k d, ds.get? k = some d → k = d.key)
    (hpos : ∀ k d, ds.get? k = some d → 0 < d.shares.i)
    (hval : ∀ k d, ds.get? k = some d →
      d.validatorAddress = st.operatorAddress ∨ l.stakes d.validatorAddress ≠ none) :
    Inv ⟨Function.update l.stakes st.operatorAddress (some st), ds, l.redelegations⟩ where
  stake_key b st' hb := by
    rcases update_stakes_eq_some hb with ⟨rfl, rfl⟩ | ⟨-, hb⟩
    · rfl
    · exact h.stake_key b st' hb
  tokens_nonneg b st' hb := by
    rcases update_stakes_eq_some hb with ⟨-, rfl⟩ | ⟨-, hb⟩
    · exact hT0
    · exact h.tokens_nonneg b st' hb
  tokens_le_shares b st' hb := by
    rcases update_stakes_eq_some hb with ⟨-, rfl⟩ | ⟨-, hb⟩
    · exact hT
    · exact h.tokens_le_shares b st' hb
  shares_eq b st' hb := by
    rcases update_stakes_eq_some hb with ⟨rfl, rfl⟩ | ⟨hne, hb⟩
    · exact hS
    · rw [hsum b hne]
      exact h.shares_eq b st' hb
  delegation_key := hkey
  shares_pos := hpos
  delegation_validator k d hd := by
    rcases hval k d hd with he | hne
    · simp [he]
    · dsimp only
      rw [Function.update_apply]
      split_ifs
      · simp
      · exact hne
  redelegation_key := h.redelegation_key
  redelegation_ne := h.redelegation_ne
  sharesDst_nonneg := h.sharesDst_nonneg

/-- A validator whose stake is set, with as many shares as are delegated to it. -/
theorem Inv.setStake (h : l.Inv) {st : Stake} (hT0 : 0 ≤ st.tokens)
    (hT : st.tokens ≤ st.delegatorShares.i)
    (hS : st.delegatorShares.i = delegatedShares l.delegations st.operatorAddress) :
    (l.setStake st).Inv :=
  h.update hT0 hT hS (fun _ _ => rfl) h.delegation_key h.shares_pos
    (fun k d hd => Or.inr (h.delegation_validator k d hd))

/-- Shares move between a validator and one delegation to it, which is stored: the
validator's shares change by what the delegation's do. -/
theorem Inv.transfer (h : l.Inv) {st : Stake} {d : Delegation}
    (hd : d.validatorAddress = st.operatorAddress) (hT0 : 0 ≤ st.tokens)
    (hT : st.tokens ≤ st.delegatorShares.i) (hpos : 0 < d.shares.i)
    (hS : st.delegatorShares.i = delegatedShares l.delegations st.operatorAddress + d.shares.i -
      (l.delegations.get? d.key).elim 0 (·.shares.i)) :
    ((l.setDelegation d).setStake st).Inv := by
  show Inv ⟨_, l.delegations.insert d.key d, _⟩
  have hsum := @delegatedShares_insert l.delegations d h.validatorAddress_of_key
  refine h.update hT0 hT ?_ (fun b hb => ?_) (fun k d' hd' => ?_) (fun k d' hd' => ?_)
    (fun k d' hd' => ?_)
  · rw [hsum, if_pos hd]
    omega
  · rw [hsum, if_neg (by rw [hd]; exact Ne.symm hb), add_zero]
  · rw [SortedMap.get?_insert] at hd'
    split_ifs at hd' with hk
    · cases hd'; exact hk
    · exact h.delegation_key k d' hd'
  · rw [SortedMap.get?_insert] at hd'
    split_ifs at hd' with hk
    · cases hd'; exact hpos
    · exact h.shares_pos k d' hd'
  · rw [SortedMap.get?_insert] at hd'
    split_ifs at hd' with hk
    · cases hd'; exact Or.inl hd
    · exact Or.inr (h.delegation_validator k d' hd')

/-- Shares move from one delegation to its validator, and the delegation, left without
shares, is removed. -/
theorem Inv.transfer_remove (h : l.Inv) {st : Stake} {d : Delegation}
    (hd : d.validatorAddress = st.operatorAddress) (hT0 : 0 ≤ st.tokens)
    (hT : st.tokens ≤ st.delegatorShares.i)
    (hS : st.delegatorShares.i = delegatedShares l.delegations st.operatorAddress -
      (l.delegations.get? d.key).elim 0 (·.shares.i)) :
    ((l.removeDelegation d).setStake st).Inv := by
  show Inv ⟨_, l.delegations.erase d.key, _⟩
  have hsum := @delegatedShares_erase l.delegations d h.validatorAddress_of_key
  have hsub : ∀ k d', (l.delegations.erase d.key).get? k = some d' →
      l.delegations.get? k = some d' := by
    intro k d' hd'
    rw [SortedMap.get?_erase] at hd'
    split_ifs at hd'
    exact hd'
  refine h.update hT0 hT ?_ (fun b hb => ?_) (fun k d' hd' => h.delegation_key k d' (hsub k d' hd'))
    (fun k d' hd' => h.shares_pos k d' (hsub k d' hd'))
    (fun k d' hd' => Or.inr (h.delegation_validator k d' (hsub k d' hd')))
  · rw [hsum, if_pos hd]
    exact hS
  · rw [hsum, if_neg (by rw [hd]; exact Ne.symm hb), sub_zero]

/-- A validator without shares is removed. -/
theorem Inv.eraseStake (h : l.Inv) {a : ValAddress} {st : Stake} (hst : l.stakes a = some st)
    (h0 : st.delegatorShares.i = 0) : (l.eraseStake a).Inv where
  stake_key b st' hb := by
    simp only [Ledger.eraseStake, Function.update_apply] at hb
    split_ifs at hb
    exact h.stake_key b st' hb
  tokens_nonneg b st' hb := by
    simp only [Ledger.eraseStake, Function.update_apply] at hb
    split_ifs at hb
    exact h.tokens_nonneg b st' hb
  tokens_le_shares b st' hb := by
    simp only [Ledger.eraseStake, Function.update_apply] at hb
    split_ifs at hb
    exact h.tokens_le_shares b st' hb
  shares_eq b st' hb := by
    simp only [Ledger.eraseStake, Function.update_apply] at hb
    split_ifs at hb
    exact h.shares_eq b st' hb
  delegation_key := h.delegation_key
  shares_pos := h.shares_pos
  delegation_validator k d hd := by
    simp only [Ledger.eraseStake, Function.update_apply,
      if_neg (h.validatorAddress_ne_of_shares_zero hst h0 hd)]
    exact h.delegation_validator k d hd
  redelegation_key := h.redelegation_key
  redelegation_ne := h.redelegation_ne
  sharesDst_nonneg := h.sharesDst_nonneg

/-- A redelegation between two validators, whose entries created no negative shares, is
stored. -/
theorem Inv.setRedelegation (h : l.Inv) {r : Redelegation}
    (hne : r.validatorSrcAddress ≠ r.validatorDstAddress)
    (hdst : ∀ e ∈ r.entries, 0 ≤ e.sharesDst.i) : (l.setRedelegation r).Inv where
  stake_key := h.stake_key
  tokens_nonneg := h.tokens_nonneg
  tokens_le_shares := h.tokens_le_shares
  shares_eq := h.shares_eq
  delegation_key := h.delegation_key
  shares_pos := h.shares_pos
  delegation_validator := h.delegation_validator
  redelegation_key k r' hr := by
    simp only [Ledger.setRedelegation, SortedMap.get?_insert] at hr
    split_ifs at hr with hk
    · cases hr; exact hk
    · exact h.redelegation_key k r' hr
  redelegation_ne k r' hr := by
    simp only [Ledger.setRedelegation, SortedMap.get?_insert] at hr
    split_ifs at hr
    · cases hr; exact hne
    · exact h.redelegation_ne k r' hr
  sharesDst_nonneg k r' hr := by
    simp only [Ledger.setRedelegation, SortedMap.get?_insert] at hr
    split_ifs at hr
    · cases hr; exact hdst
    · exact h.sharesDst_nonneg k r' hr

/-- Removing a redelegation keeps the invariant. -/
theorem Inv.removeRedelegation (h : l.Inv) (r : Redelegation) : (l.removeRedelegation r).Inv := by
  have hsub : ∀ k r', (l.redelegations.erase r.key).get? k = some r' →
      l.redelegations.get? k = some r' := by
    intro k r' hr
    rw [SortedMap.get?_erase] at hr
    split_ifs at hr
    exact hr
  exact { h with
    redelegation_key := fun k r' hr => h.redelegation_key k r' (hsub k r' hr)
    redelegation_ne := fun k r' hr => h.redelegation_ne k r' (hsub k r' hr)
    sharesDst_nonneg := fun k r' hr => h.sharesDst_nonneg k r' (hsub k r' hr) }

end Ledger

/-! ### The ledger of a state -/

namespace State

variable (s : State)

/-- The share ledger of a state. -/
def ledger : Ledger :=
  ⟨fun a => (s.validators.get? a).map Validator.stake, s.delegations, s.redelegations⟩

theorem ledger_stakes_of_get {a : ValAddress} {v : Validator} (h : s.validators.get? a = some v) :
    s.ledger.stakes a = some v.stake := by
  simp [ledger, h]

theorem get_of_ledger_stakes {a : ValAddress} {st : Stake} (h : s.ledger.stakes a = some st) :
    ∃ v, s.validators.get? a = some v ∧ v.stake = st := by
  simpa [ledger] using h

@[simp] theorem ledger_delegations : s.ledger.delegations = s.delegations := rfl

@[simp] theorem ledger_redelegations : s.ledger.redelegations = s.redelegations := rfl

@[simp] theorem ledger_SetValidator (v : Validator) :
    (s.SetValidator v).ledger = s.ledger.setStake v.stake := by
  simp only [ledger, Ledger.setStake, SetValidator, Validator.stake_operatorAddress]
  congr 1
  funext a
  rw [SortedMap.get?_insert, Function.update_apply]
  split_ifs <;> rfl

@[simp] theorem ledger_SetValidatorByConsAddr (v : Validator) :
    (s.SetValidatorByConsAddr v).ledger = s.ledger := rfl

@[simp] theorem ledger_SetValidatorByPowerIndex (v : Validator) :
    (s.SetValidatorByPowerIndex v).ledger = s.ledger := by
  unfold SetValidatorByPowerIndex
  split <;> rfl

@[simp] theorem ledger_DeleteValidatorByPowerIndex (v : Validator) :
    (s.DeleteValidatorByPowerIndex v).ledger = s.ledger := rfl

@[simp] theorem ledger_SetNewValidatorByPowerIndex (v : Validator) :
    (s.SetNewValidatorByPowerIndex v).ledger = s.ledger := rfl

@[simp] theorem ledger_SetPool (p : Pool) : (s.SetPool p).ledger = s.ledger := rfl

@[simp] theorem ledger_SetLastValidatorPower (a : ValAddress) (p : ℤ) :
    (s.SetLastValidatorPower a p).ledger = s.ledger := rfl

@[simp] theorem ledger_DeleteLastValidatorPower (a : ValAddress) :
    (s.DeleteLastValidatorPower a).ledger = s.ledger := rfl

@[simp] theorem ledger_SetLastTotalPower (p : ℤ) : (s.SetLastTotalPower p).ledger = s.ledger := rfl

@[simp] theorem ledger_SetDelegation (d : Delegation) :
    (s.SetDelegation d).ledger = s.ledger.setDelegation d := rfl

@[simp] theorem ledger_RemoveDelegation (d : Delegation) :
    (s.RemoveDelegation d).ledger = s.ledger.removeDelegation d := rfl

@[simp] theorem ledger_SetUnbondingDelegation (u : UnbondingDelegation) :
    (s.SetUnbondingDelegation u).ledger = s.ledger := rfl

@[simp] theorem ledger_RemoveUnbondingDelegation (u : UnbondingDelegation) :
    (s.RemoveUnbondingDelegation u).ledger = s.ledger := rfl

@[simp] theorem ledger_SetUnbondingDelegationEntry (del : AccAddress) (val : ValAddress)
    (h : ℤ) (t : Time) (b : ℤ) : (s.SetUnbondingDelegationEntry del val h t b).1.ledger = s.ledger :=
  rfl

@[simp] theorem ledger_SetRedelegation (r : Redelegation) :
    (s.SetRedelegation r).ledger = s.ledger.setRedelegation r := rfl

@[simp] theorem ledger_RemoveRedelegation (r : Redelegation) :
    (s.RemoveRedelegation r).ledger = s.ledger.removeRedelegation r := rfl

@[simp] theorem ledger_InsertValidatorQueue (v : Validator) :
    (s.InsertValidatorQueue v).ledger = s.ledger := rfl

@[simp] theorem ledger_DeleteValidatorQueue (v : Validator) :
    (s.DeleteValidatorQueue v).ledger = s.ledger := by
  unfold DeleteValidatorQueue
  dsimp only
  split <;> rfl

@[simp] theorem ledger_DeleteValidatorQueueTimeSlice (t : Time) :
    (s.DeleteValidatorQueueTimeSlice t).ledger = s.ledger := rfl

theorem ledger_DelegateCoins {a : AccAddress} {x : ℤ} {s' : State}
    (h : s.DelegateCoins a x = .ok s') : s'.ledger = s.ledger := by
  unfold DelegateCoins at h
  split_ifs at h
  split at h
  · cases h
  · split_ifs at h
    cases h
    rfl

theorem ledger_UndelegateCoins {a : AccAddress} {x : ℤ} {s' : State}
    (h : s.UndelegateCoins a x = .ok s') : s'.ledger = s.ledger := by
  unfold UndelegateCoins at h
  split_ifs at h
  split at h
  · cases h
  · cases h
    rfl

/-- The invariant of the ledger gives the checks of the staking module. -/
theorem sharesLedger_of_inv {s : State} (h : s.ledger.Inv) : SharesLedger s := by
  have hstake : ∀ e ∈ s.validators.entries, s.ledger.stakes e.1 = some e.2.stake := fun e he =>
    s.ledger_stakes_of_get ((s.validators.mem_entries_iff).1 he)
  refine ⟨fun e he => ?_, fun e he => ?_, fun e he => ?_⟩
  · have hkey := h.stake_key _ _ (hstake e he)
    rw [Validator.stake_operatorAddress] at hkey
    rw [hkey]
    exact h.shares_eq _ _ (hstake e he)
  · exact h.shares_pos e.1 e.2 ((s.delegations.mem_entries_iff).1 he)
  · have hT0 := h.tokens_nonneg _ _ (hstake e he)
    have hT := h.tokens_le_shares _ _ (hstake e he)
    have hS := h.shares_nonneg (hstake e he)
    simp only [Validator.stake_tokens, Validator.stake_delegatorShares] at hT0 hT hS
    refine ⟨hT0, hS, fun h0 => ?_⟩
    omega

end State

end CosmosSdk.Staking
