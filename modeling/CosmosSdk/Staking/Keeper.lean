import CosmosSdk.Staking.Store

/-!
# The validator operations of the staking keeper

`keeper/validator.go` and `keeper/val_state_change.go`: the operations that change a
validator's tokens, status or jail flag and keep its power-index entry up to date
(`AddValidatorTokensAndShares`, `RemoveValidatorTokensAndShares`, `RemoveValidatorTokens`),
remove it (`RemoveValidator`), move it between the three statuses (`bondValidator`,
`beginUnbondingValidator`, `completeUnbondingValidator` and the four guarded transitions),
jail and unjail it, and end the unbonding of mature validators
(`UnbondAllMatureValidatorQueue`).

The hooks (`AfterValidatorBonded` and the rest) are nil in the modelled keeper and are left
out.  Each operation takes the validator record it is given, as the Go code does: whether
that record is the stored one is for the callers' proofs.
-/

namespace CosmosSdk.Staking

namespace State

/-- `AddValidatorTokensAndShares`. -/
def AddValidatorTokensAndShares (s : State) (validator : Validator) (tokensToAdd : ℤ) :
    Except Fault (State × Validator × Dec) := do
  let s := s.DeleteValidatorByPowerIndex validator
  let (validator, pool, addedShares) ← validator.AddTokensFromDel s.pool tokensToAdd
  let s := ((s.SetValidator validator).SetPool pool).SetValidatorByPowerIndex validator
  pure (s, validator, addedShares)

/-- `RemoveValidatorTokensAndShares`. -/
def RemoveValidatorTokensAndShares (s : State) (validator : Validator) (sharesToRemove : Dec) :
    Except Fault (State × Validator × ℤ) := do
  let s := s.DeleteValidatorByPowerIndex validator
  let (validator, pool, removedTokens) ← validator.RemoveDelShares s.pool sharesToRemove
  let s := ((s.SetValidator validator).SetPool pool).SetValidatorByPowerIndex validator
  pure (s, validator, removedTokens)

/-- `RemoveValidatorTokens`. -/
def RemoveValidatorTokens (s : State) (validator : Validator) (tokensToRemove : ℤ) :
    Except Fault (State × Validator) := do
  let s := s.DeleteValidatorByPowerIndex validator
  let (validator, pool) ← validator.RemoveTokens s.pool tokensToRemove
  let s := ((s.SetValidator validator).SetPool pool).SetValidatorByPowerIndex validator
  pure (s, validator)

/-- `RemoveValidator`: remove the record and its two indexes, for an unbonded validator with
no tokens.  The bonded-set entry is left to `ApplyAndReturnValidatorSetUpdates`.  The
source checks for positive tokens twice, with two messages. -/
def RemoveValidator (s : State) (address : ValAddress) : Except Fault State :=
  match s.GetValidator address with
  | none => pure s
  | some validator => do
    if !validator.IsUnbonded then
      throw (.panic "cannot call RemoveValidator on bonded or unbonding validators")
    if 0 < validator.tokens then
      throw (.panic "attempting to remove a validator which still contains tokens")
    if 0 < validator.tokens then
      throw (.panic "validator being removed should never have positive tokens")
    pure { s with
      validators := s.validators.erase address
      validatorsByConsAddr := s.validatorsByConsAddr.erase validator.ConsAddress
      validatorsByPower := s.validatorsByPower.erase (GetValidatorsByPowerIndexKey validator) }

/-! ### Jail -/

/-- `jailValidator`. -/
def jailValidator (s : State) (validator : Validator) : Except Fault State := do
  if validator.jailed then throw (.panic "cannot jail already jailed validator, validator: %v\n")
  let validator := { validator with jailed := true }
  pure ((s.SetValidator validator).DeleteValidatorByPowerIndex validator)

/-- `unjailValidator`. -/
def unjailValidator (s : State) (validator : Validator) : Except Fault State := do
  if !validator.jailed then
    throw (.panic "cannot unjail already unjailed validator, validator: %v\n")
  let validator := { validator with jailed := false }
  pure ((s.SetValidator validator).SetValidatorByPowerIndex validator)

/-- `Jail`, called by the slashing module. -/
def Jail (s : State) (consAddr : ConsAddress) : Except Fault State := do
  let validator ← s.mustGetValidatorByConsAddr consAddr
  s.jailValidator validator

/-- `Unjail`, called by the slashing module. -/
def Unjail (s : State) (consAddr : ConsAddress) : Except Fault State := do
  let validator ← s.mustGetValidatorByConsAddr consAddr
  s.unjailValidator validator

/-! ### Status transitions -/

/-- `bondValidator`. -/
def bondValidator (s : State) (validator : Validator) : Except Fault (State × Validator) := do
  let s := s.DeleteValidatorByPowerIndex validator
  let (validator, pool) ← validator.UpdateStatus s.pool .bonded
  let s := s.SetPool pool
  let s := (s.SetValidator validator).SetValidatorByPowerIndex validator
  pure (s.DeleteValidatorQueue validator, validator)

/-- `beginUnbondingValidator`: the validator will complete unbonding one unbonding period
from the block time. -/
def beginUnbondingValidator (s : State) (hdr : Header) (validator : Validator) :
    Except Fault (State × Validator) := do
  let params := s.params
  let s := s.DeleteValidatorByPowerIndex validator
  if validator.status ≠ .bonded then
    throw (.panic "should not already be unbonded or unbonding, validator: %v\n")
  let (validator, pool) ← validator.UpdateStatus s.pool .unbonding
  let s := s.SetPool pool
  let validator :=
    { validator with
      unbondingCompletionTime := hdr.time + params.unbondingTime
      unbondingHeight := hdr.height }
  let s := (s.SetValidator validator).SetValidatorByPowerIndex validator
  pure (s.InsertValidatorQueue validator, validator)

/-- `completeUnbondingValidator`. -/
def completeUnbondingValidator (s : State) (validator : Validator) :
    Except Fault (State × Validator) := do
  let (validator, pool) ← validator.UpdateStatus s.pool .unbonded
  pure ((s.SetPool pool).SetValidator validator, validator)

/-- `bondedToUnbonding`. -/
def bondedToUnbonding (s : State) (hdr : Header) (validator : Validator) :
    Except Fault (State × Validator) :=
  if !validator.IsBonded then throw (.panic "bad state transition bondedToUnbonding, validator: %v\n")
  else s.beginUnbondingValidator hdr validator

/-- `unbondingToBonded`. -/
def unbondingToBonded (s : State) (validator : Validator) : Except Fault (State × Validator) :=
  if !validator.IsUnbonding then
    throw (.panic "bad state transition unbondingToBonded, validator: %v\n")
  else s.bondValidator validator

/-- `unbondedToBonded`. -/
def unbondedToBonded (s : State) (validator : Validator) : Except Fault (State × Validator) :=
  if !validator.IsUnbonded then
    throw (.panic "bad state transition unbondedToBonded, validator: %v\n")
  else s.bondValidator validator

/-- `unbondingToUnbonded` (its message repeats the one of `unbondingToBonded`). -/
def unbondingToUnbonded (s : State) (validator : Validator) : Except Fault (State × Validator) :=
  if !validator.IsUnbonding then
    throw (.panic "bad state transition unbondingToBonded, validator: %v\n")
  else s.completeUnbondingValidator validator

/-! ### Mature unbonding validators -/

/-- The body of the inner loop of `UnbondAllMatureValidatorQueue`, for one address of a
mature time slice.  The decision to remove reads the shares of the record read before the
status change, which the change leaves as they were. -/
def unbondMatureValidator (s : State) (valAddr : ValAddress) : Except Fault State := do
  let some val := s.GetValidator valAddr
    | throw (.panic "validator in the unbonding queue was not found")
  if !val.IsUnbonding then
    throw (.panic "unexpected validator in unbonding queue, status was not unbonding")
  let (s, _) ← s.unbondingToUnbonded val
  if val.delegatorShares.isZero then s.RemoveValidator val.operatorAddress else pure s

/-- One mature time slice: unbond its validators, then delete the slice. -/
def unbondMatureTimeslice (s : State) (slice : Time × List ValAddress) : Except Fault State := do
  let s ← slice.2.foldlM unbondMatureValidator s
  pure (s.DeleteValidatorQueueTimeSlice slice.1)

/-- `UnbondAllMatureValidatorQueue`: the slices up to the block time, oldest first. -/
def UnbondAllMatureValidatorQueue (s : State) (hdr : Header) : Except Fault State :=
  (s.validatorQueue.entries.filter fun e => e.1 ≤ hdr.time).foldlM unbondMatureTimeslice s

/-! ### What each operation does

One lemma per operation: from a run that returns, the values its steps returned and the
state it leaves, so that callers never unfold it. -/

section Spec

variable {s s' : State} {v v' : Validator}

theorem AddValidatorTokensAndShares_eq_ok {amt : ℤ} {sh : Dec}
    (h : s.AddValidatorTokensAndShares v amt = .ok (s', v', sh)) :
    ∃ pool, v.AddTokensFromDel s.pool amt = .ok (v', pool, sh) ∧
      s' = (((s.DeleteValidatorByPowerIndex v).SetValidator v').SetPool pool).SetValidatorByPowerIndex
        v' := by
  unfold AddValidatorTokensAndShares at h
  obtain ⟨⟨v₁, pool, sh₁⟩, hadd, h⟩ := Except.bind_eq_ok.mp h
  simp only [Except.pure_eq_ok, Except.ok_inj, Prod.mk.injEq] at h
  obtain ⟨rfl, rfl, rfl⟩ := h
  exact ⟨pool, hadd, rfl⟩

theorem RemoveValidatorTokensAndShares_eq_ok {x : Dec} {amt : ℤ}
    (h : s.RemoveValidatorTokensAndShares v x = .ok (s', v', amt)) :
    ∃ pool, v.RemoveDelShares s.pool x = .ok (v', pool, amt) ∧
      s' = (((s.DeleteValidatorByPowerIndex v).SetValidator v').SetPool pool).SetValidatorByPowerIndex
        v' := by
  unfold RemoveValidatorTokensAndShares at h
  obtain ⟨⟨v₁, pool, amt₁⟩, hrem, h⟩ := Except.bind_eq_ok.mp h
  simp only [Except.pure_eq_ok, Except.ok_inj, Prod.mk.injEq] at h
  obtain ⟨rfl, rfl, rfl⟩ := h
  exact ⟨pool, hrem, rfl⟩

theorem RemoveValidatorTokens_eq_ok {t : ℤ} (h : s.RemoveValidatorTokens v t = .ok (s', v')) :
    ∃ pool, v.RemoveTokens s.pool t = .ok (v', pool) ∧
      s' = (((s.DeleteValidatorByPowerIndex v).SetValidator v').SetPool pool).SetValidatorByPowerIndex
        v' := by
  unfold RemoveValidatorTokens at h
  obtain ⟨⟨v₁, pool⟩, hrem, h⟩ := Except.bind_eq_ok.mp h
  simp only [Except.pure_eq_ok, Except.ok_inj, Prod.mk.injEq] at h
  obtain ⟨rfl, rfl⟩ := h
  exact ⟨pool, hrem, rfl⟩

/-- `RemoveValidator` leaves a missing validator alone, and removes an unbonded one
without tokens. -/
theorem RemoveValidator_eq_ok {a : ValAddress} (h : s.RemoveValidator a = .ok s') :
    (s.GetValidator a = none ∧ s' = s) ∨
    (∃ v, s.GetValidator a = some v ∧ v.status = .unbonded ∧ v.tokens ≤ 0 ∧
      s' = { s with
        validators := s.validators.erase a
        validatorsByConsAddr := s.validatorsByConsAddr.erase v.ConsAddress
        validatorsByPower := s.validatorsByPower.erase (GetValidatorsByPowerIndexKey v) }) := by
  unfold RemoveValidator at h
  cases hv : s.GetValidator a with
  | none =>
    left
    simp only [hv, Except.pure_eq_ok, Except.ok_inj] at h
    exact ⟨rfl, h.symm⟩
  | some v =>
    right
    simp only [hv, Except.throw_eq_error, Except.error_bind, Except.ite_error_eq_ok,
      Except.pure_eq_ok, Except.ok_inj, not_lt] at h
    obtain ⟨hu, ht, -, rfl⟩ := h
    refine ⟨v, rfl, ?_, ht, rfl⟩
    simpa [Validator.IsUnbonded] using hu

theorem jailValidator_eq_ok (h : s.jailValidator v = .ok s') :
    v.jailed = false ∧
      s' = (s.SetValidator { v with jailed := true }).DeleteValidatorByPowerIndex
        { v with jailed := true } := by
  unfold jailValidator at h
  simp only [Except.throw_eq_error, Except.error_bind, Except.ite_error_eq_ok, Except.pure_eq_ok,
    Except.ok_inj, Bool.not_eq_true] at h
  exact ⟨h.1, h.2.symm⟩

theorem unjailValidator_eq_ok (h : s.unjailValidator v = .ok s') :
    v.jailed = true ∧
      s' = (s.SetValidator { v with jailed := false }).SetValidatorByPowerIndex
        { v with jailed := false } := by
  unfold unjailValidator at h
  simp only [Except.throw_eq_error, Except.error_bind, Except.ite_error_eq_ok, Except.pure_eq_ok,
    Except.ok_inj, Bool.not_eq_true', Bool.not_eq_false] at h
  exact ⟨h.1, h.2.symm⟩

theorem bondValidator_eq_ok (h : s.bondValidator v = .ok (s', v')) :
    ∃ pool, v.UpdateStatus s.pool .bonded = .ok (v', pool) ∧
      s' = ((((s.DeleteValidatorByPowerIndex v).SetPool pool).SetValidator v').SetValidatorByPowerIndex
        v').DeleteValidatorQueue v' := by
  unfold bondValidator at h
  obtain ⟨⟨v₁, pool⟩, hup, h⟩ := Except.bind_eq_ok.mp h
  simp only [Except.pure_eq_ok, Except.ok_inj, Prod.mk.injEq] at h
  obtain ⟨rfl, rfl⟩ := h
  exact ⟨pool, hup, rfl⟩

theorem beginUnbondingValidator_eq_ok {hdr : Header}
    (h : s.beginUnbondingValidator hdr v = .ok (s', v')) :
    v.status = .bonded ∧ ∃ v₁ pool, v.UpdateStatus s.pool .unbonding = .ok (v₁, pool) ∧
      v' = { v₁ with
        unbondingCompletionTime := hdr.time + s.params.unbondingTime
        unbondingHeight := hdr.height } ∧
      s' = ((((s.DeleteValidatorByPowerIndex v).SetPool pool).SetValidator v').SetValidatorByPowerIndex
        v').InsertValidatorQueue v' := by
  unfold beginUnbondingValidator at h
  simp only [ne_eq, Except.throw_eq_error, Except.error_bind, Except.ite_error_eq_ok,
    not_not] at h
  obtain ⟨hb, h⟩ := h
  obtain ⟨⟨v₁, pool⟩, hup, h⟩ := Except.bind_eq_ok.mp h
  simp only [Except.pure_eq_ok, Except.ok_inj, Prod.mk.injEq] at h
  obtain ⟨rfl, rfl⟩ := h
  exact ⟨hb, v₁, pool, hup, rfl, rfl⟩

theorem completeUnbondingValidator_eq_ok (h : s.completeUnbondingValidator v = .ok (s', v')) :
    ∃ pool, v.UpdateStatus s.pool .unbonded = .ok (v', pool) ∧
      s' = (s.SetPool pool).SetValidator v' := by
  unfold completeUnbondingValidator at h
  obtain ⟨⟨v₁, pool⟩, hup, h⟩ := Except.bind_eq_ok.mp h
  simp only [Except.pure_eq_ok, Except.ok_inj, Prod.mk.injEq] at h
  obtain ⟨rfl, rfl⟩ := h
  exact ⟨pool, hup, rfl⟩

theorem bondedToUnbonding_eq_ok {hdr : Header} {r : State × Validator}
    (h : s.bondedToUnbonding hdr v = .ok r) : s.beginUnbondingValidator hdr v = .ok r := by
  unfold bondedToUnbonding at h
  split_ifs at h
  exact h

theorem unbondingToBonded_eq_ok {r : State × Validator} (h : s.unbondingToBonded v = .ok r) :
    s.bondValidator v = .ok r := by
  unfold unbondingToBonded at h
  split_ifs at h
  exact h

theorem unbondedToBonded_eq_ok {r : State × Validator} (h : s.unbondedToBonded v = .ok r) :
    s.bondValidator v = .ok r := by
  unfold unbondedToBonded at h
  split_ifs at h
  exact h

theorem unbondingToUnbonded_eq_ok {r : State × Validator} (h : s.unbondingToUnbonded v = .ok r) :
    s.completeUnbondingValidator v = .ok r := by
  unfold unbondingToUnbonded at h
  split_ifs at h
  exact h

theorem unbondMatureValidator_eq_ok {a : ValAddress} (h : s.unbondMatureValidator a = .ok s') :
    ∃ v s₁ v₁, s.GetValidator a = some v ∧ v.status = .unbonding ∧
      s.completeUnbondingValidator v = .ok (s₁, v₁) ∧
      (if v.delegatorShares.isZero then s₁.RemoveValidator v.operatorAddress else pure s₁) =
        .ok s' := by
  unfold unbondMatureValidator at h
  cases hv : s.GetValidator a with
  | none => simp [hv] at h
  | some v =>
  simp only [hv, Except.throw_eq_error, Except.error_bind, Except.ite_error_eq_ok,
    Bool.not_eq_true, Bool.not_eq_false'] at h
  obtain ⟨hu, h⟩ := h
  obtain ⟨⟨s₁, v₁⟩, hc, h⟩ := Except.bind_eq_ok.mp h
  refine ⟨v, s₁, v₁, rfl, by simpa [Validator.IsUnbonding] using hu,
    unbondingToUnbonded_eq_ok hc, h⟩

end Spec

end State

end CosmosSdk.Staking
