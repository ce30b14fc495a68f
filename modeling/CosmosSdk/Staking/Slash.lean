import CosmosSdk.Staking.Delegations

/-!
# Slashing

`keeper/slash.go`: `Slash` burns a fraction of the stake a validator had at the height of an
infraction.  Stake that has left the validator since then is slashed where it went: the
balances of the unbonding delegations from it (`slashUnbondingDelegation`) and the shares
that redelegations from it created at their destinations (`slashRedelegation`, which
unbonds those shares and burns the tokens).  What remains is burned from the validator's
tokens.  Burned tokens leave the not-bonded pool.

The logging and the `BeforeValidatorModified` and `BeforeValidatorSlashed` hooks are left
out; the effective fraction computed for the latter divides by positive tokens and cannot
panic.
-/

namespace CosmosSdk.Staking

namespace State

/-- `if err != nil { panic(fmt.Errorf(msg, err)) }`. -/
def panicOnErr {α : Type} (msg : String) (x : Except Fault α) : Except Fault α :=
  x.tryCatch fun
    | .err _ => throw (.panic msg)
    | f => throw f

@[simp] theorem panicOnErr_eq_ok {α : Type} {msg : String} {x : Except Fault α} {a : α} :
    panicOnErr msg x = .ok a ↔ x = .ok a := by
  rcases x with (_ | _ | _) | _ <;> simp [panicOnErr, Except.tryCatch]

/-- The loop of `slashUnbondingDelegation` from entry `i` on, where `rest` are the entries
from `i` on as they were read.  An entry created before the infraction, or mature, is
skipped; the others are slashed by the fraction of their initial balance, at most their
balance, and the record and the pool are written after each.  Returns the amount that
would have been slashed with enough stake. -/
def slashUnbondingEntries (now : Time) (infractionHeight : ℤ) (slashFactor : Dec) :
    State → UnbondingDelegation → ℕ → List UnbondingDelegationEntry → ℤ → State × ℤ
  | s, _, _, [], totalSlashAmount => (s, totalSlashAmount)
  | s, ubd, i, entry :: rest, totalSlashAmount =>
    if entry.creationHeight < infractionHeight ∨ entry.IsMature now then
      slashUnbondingEntries now infractionHeight slashFactor s ubd (i + 1) rest totalSlashAmount
    else
      let slashAmount := (slashFactor.mulInt entry.initialBalance).truncateInt
      let totalSlashAmount := totalSlashAmount + slashAmount
      let unbondingSlashAmount := min slashAmount entry.balance
      if unbondingSlashAmount = 0 then
        slashUnbondingEntries now infractionHeight slashFactor s ubd (i + 1) rest totalSlashAmount
      else
        let entry := { entry with balance := entry.balance - unbondingSlashAmount }
        let ubd := { ubd with entries := ubd.entries.set i entry }
        let s := s.SetUnbondingDelegation ubd
        let pool := s.pool
        let s := s.SetPool { pool with notBondedTokens := pool.notBondedTokens - unbondingSlashAmount }
        slashUnbondingEntries now infractionHeight slashFactor s ubd (i + 1) rest totalSlashAmount

/-- `slashUnbondingDelegation`. -/
def slashUnbondingDelegation (s : State) (hdr : Header) (unbondingDelegation : UnbondingDelegation)
    (infractionHeight : ℤ) (slashFactor : Dec) : State × ℤ :=
  slashUnbondingEntries hdr.time infractionHeight slashFactor s unbondingDelegation 0
    unbondingDelegation.entries 0

/-- The loop of `slashRedelegation`: for each entry made at or after the infraction and not
mature, unbond the slashed fraction of the shares it created at the destination (at most
what the delegation there still has) and burn the tokens. -/
def slashRedelegationEntries (now : Time) (redelegation : Redelegation) (infractionHeight : ℤ)
    (slashFactor : Dec) : State → List RedelegationEntry → ℤ → Except Fault (State × ℤ)
  | s, [], totalSlashAmount => pure (s, totalSlashAmount)
  | s, entry :: rest, totalSlashAmount => do
    if entry.creationHeight < infractionHeight ∨ entry.IsMature now then
      return ← slashRedelegationEntries now redelegation infractionHeight slashFactor s rest
        totalSlashAmount
    let slashAmount := (slashFactor.mulInt entry.initialBalance).truncateInt
    let totalSlashAmount := totalSlashAmount + slashAmount
    let sharesToUnbond := slashFactor.mul entry.sharesDst
    if sharesToUnbond.isZero then
      return ← slashRedelegationEntries now redelegation infractionHeight slashFactor s rest
        totalSlashAmount
    let some delegation :=
        s.GetDelegation redelegation.delegatorAddress redelegation.validatorDstAddress
      | slashRedelegationEntries now redelegation infractionHeight slashFactor s rest
          totalSlashAmount
    let sharesToUnbond := if delegation.shares < sharesToUnbond then delegation.shares else sharesToUnbond
    let (s, tokensToBurn) ← panicOnErr "error unbonding delegator: %v"
      (s.unbond redelegation.delegatorAddress redelegation.validatorDstAddress sharesToUnbond)
    let pool := s.pool
    let s := s.SetPool { pool with notBondedTokens := pool.notBondedTokens - tokensToBurn }
    slashRedelegationEntries now redelegation infractionHeight slashFactor s rest totalSlashAmount

/-- `slashRedelegation`; the slashed source validator is passed and not read. -/
def slashRedelegation (s : State) (hdr : Header) (_validator : Validator)
    (redelegation : Redelegation) (infractionHeight : ℤ) (slashFactor : Dec) :
    Except Fault (State × ℤ) :=
  slashRedelegationEntries hdr.time redelegation infractionHeight slashFactor s
    redelegation.entries 0

/-- The slashing of what left the validator after the infraction: its unbonding
delegations, then its redelegations, each taking what it slashed off the amount left to
burn from the validator. -/
def slashUnbondingsAndRedelegations (s : State) (hdr : Header) (validator : Validator)
    (infractionHeight : ℤ) (slashFactor : Dec) (slashAmount : ℤ) : Except Fault (State × ℤ) := do
  -- the source skips a zero amount, which subtracts nothing
  let (s, remainingSlashAmount) :=
    (s.GetUnbondingDelegationsFromValidator validator.operatorAddress).foldl
      (fun (acc : State × ℤ) ubd =>
        let (s, amountSlashed) := acc.1.slashUnbondingDelegation hdr ubd infractionHeight slashFactor
        (s, acc.2 - amountSlashed))
      (s, slashAmount)
  (s.GetRedelegationsFromValidator validator.operatorAddress).foldlM
    (fun (acc : State × ℤ) red => do
      let (s, amountSlashed) ← acc.1.slashRedelegation hdr validator red infractionHeight slashFactor
      pure (s, acc.2 - amountSlashed))
    (s, remainingSlashAmount)

/-- `Slash`. -/
def Slash (s : State) (hdr : Header) (consAddr : ConsAddress) (infractionHeight power : ℤ)
    (slashFactor : Dec) : Except Fault State := do
  if slashFactor < 0 then throw (.panic "attempted to slash with a negative slash factor: %v")
  let amount := TokensFromConsensusPower power
  let slashAmountDec := (Dec.ofInt amount).mul slashFactor
  let slashAmount := slashAmountDec.truncateInt
  -- a validator that is not found was overslashed and removed: nothing to do
  let some validator := s.GetValidatorByConsAddr consAddr | pure s
  if validator.IsUnbonded then throw (.panic "should not be slashing unbonded validator: %s")
  if hdr.height < infractionHeight then
    throw (.panic "impossible attempt to slash future infraction at height %d but we are at height %d")
  let (s, remainingSlashAmount) ←
    (if infractionHeight < hdr.height then
      s.slashUnbondingsAndRedelegations hdr validator infractionHeight slashFactor slashAmount
     else pure (s, slashAmount))
  -- cannot decrease balance below zero
  let tokensToBurn := max (min remainingSlashAmount validator.tokens) 0
  let (s, _) ← s.RemoveValidatorTokens validator tokensToBurn
  let pool := s.pool
  pure (s.SetPool { pool with notBondedTokens := pool.notBondedTokens - tokensToBurn })

/-! ### What each operation does -/

/-- One entry of the loop of `slashRedelegation`: skipped, or the slashed shares it created
unbonded from the delegation at the destination and the tokens burned. -/
theorem slashRedelegationEntries_cons_eq_ok {now : Time} {red : Redelegation} {ih : ℤ}
    {f : Dec} {s : State} {e : RedelegationEntry} {rest : List RedelegationEntry} {tot : ℤ}
    {r : State × ℤ} (h : slashRedelegationEntries now red ih f s (e :: rest) tot = .ok r) :
    ∃ s₁ tot₁, slashRedelegationEntries now red ih f s₁ rest tot₁ = .ok r ∧
      (s₁ = s ∨
       ∃ d burned s₂, s.GetDelegation red.delegatorAddress red.validatorDstAddress = some d ∧
        s.unbond red.delegatorAddress red.validatorDstAddress
          (if d.shares < f.mul e.sharesDst then d.shares else f.mul e.sharesDst) =
            .ok (s₂, burned) ∧
        s₁ = s₂.SetPool { s₂.pool with notBondedTokens := s₂.pool.notBondedTokens - burned }) := by
  unfold slashRedelegationEntries at h
  dsimp only at h
  split_ifs at h with hskip hzero
  · exact ⟨s, tot, h, Or.inl rfl⟩
  · exact ⟨s, _, h, Or.inl rfl⟩
  cases hd : s.GetDelegation red.delegatorAddress red.validatorDstAddress with
  | none =>
    simp only [hd] at h
    exact ⟨s, _, h, Or.inl rfl⟩
  | some d =>
    simp only [hd] at h
    obtain ⟨⟨s₂, burned⟩, hu, h⟩ := Except.bind_eq_ok.mp h
    rw [panicOnErr_eq_ok] at hu
    exact ⟨_, _, h, Or.inr ⟨d, burned, s₂, rfl, hu, rfl⟩⟩

/-- `Slash`: its guards, the validator found by its consensus address, and the burn of at
most its tokens after the slashing of what left it. -/
theorem Slash_eq_ok {s s' : State} {hdr : Header} {consAddr : ConsAddress}
    {infractionHeight power : ℤ} {slashFactor : Dec}
    (h : s.Slash hdr consAddr infractionHeight power slashFactor = .ok s') :
    0 ≤ slashFactor ∧
    (s.GetValidatorByConsAddr consAddr = none ∧ s' = s ∨
     ∃ v, s.GetValidatorByConsAddr consAddr = some v ∧ v.IsUnbonded = false ∧
      infractionHeight ≤ hdr.height ∧
      ∃ s₁ rem, (if infractionHeight < hdr.height then
          s.slashUnbondingsAndRedelegations hdr v infractionHeight slashFactor
            ((Dec.ofInt (TokensFromConsensusPower power)).mul slashFactor).truncateInt
        else pure (s, ((Dec.ofInt (TokensFromConsensusPower power)).mul slashFactor).truncateInt)) =
          .ok (s₁, rem) ∧
      ∃ s₂ v₂, s₁.RemoveValidatorTokens v (max (min rem v.tokens) 0) = .ok (s₂, v₂) ∧
        s' = s₂.SetPool { s₂.pool with
          notBondedTokens := s₂.pool.notBondedTokens - max (min rem v.tokens) 0 }) := by
  unfold Slash at h
  simp only [Except.throw_eq_error, Except.error_bind, Except.ite_error_eq_ok, not_lt] at h
  obtain ⟨hf, h⟩ := h
  refine ⟨hf, ?_⟩
  cases hv : s.GetValidatorByConsAddr consAddr with
  | none =>
    simp only [hv, Except.pure_eq_ok, Except.ok_inj] at h
    exact Or.inl ⟨rfl, h.symm⟩
  | some v =>
  simp only [hv, Except.ite_error_eq_ok, Bool.not_eq_true, not_lt] at h
  obtain ⟨hu, hh, h⟩ := h
  obtain ⟨⟨s₁, rem⟩, h₁, h⟩ := Except.bind_eq_ok.mp h
  obtain ⟨⟨s₂, v₂⟩, h₂, h⟩ := Except.bind_eq_ok.mp h
  simp only [Except.pure_eq_ok, Except.ok_inj] at h
  exact Or.inr ⟨v, rfl, hu, hh, s₁, rem, h₁, s₂, v₂, h₂, h.symm⟩

end State

end CosmosSdk.Staking
