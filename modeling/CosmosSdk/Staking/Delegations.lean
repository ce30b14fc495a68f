import CosmosSdk.Staking.Keeper

/-!
# Delegating, unbonding and redelegating

`keeper/delegation.go`: `Delegate` issues shares for tokens taken from the delegator's
account, `unbond` removes shares and the tokens they are worth from a delegation and its
validator, `Undelegate` records those tokens in an unbonding delegation,
`BeginRedelegation` delegates them to another validator at once and records the move, and
`CompleteUnbonding`, `CompleteRedelegation` drop the mature entries.
`ValidateUnbondAmount` turns the token amount of a message into shares.

The hooks are nil and left out, and so are the queues of unbonding delegations and
redelegations (`InsertUBDQueue`, `InsertRedelegationQueue`): see `Store`.
-/

namespace CosmosSdk.Staking

namespace State

/-- `Delegate`: the validator is the record the caller read.  The coins leave the
delegator's account unless they come from an unbonding (`subtractAccount = false`). -/
def Delegate (s : State) (delAddr : AccAddress) (bondAmt : ℤ) (validator : Validator)
    (subtractAccount : Bool) : Except Fault (State × Dec) := do
  if validator.InvalidExRate then throw (.err .delegatorShareExRateInvalid)
  let delegation :=
    (s.GetDelegation delAddr validator.operatorAddress).getD
      ⟨delAddr, validator.operatorAddress, 0⟩
  let s ←
    (if subtractAccount then do
      let amt ← NewCoin bondAmt
      s.DelegateCoins delegation.delegatorAddress amt
     else pure s)
  let (s, _, newShares) ← s.AddValidatorTokensAndShares validator bondAmt
  let s := s.SetDelegation { delegation with shares := delegation.shares + newShares }
  pure (s, newShares)

/-- `unbond`: take `shares` off the delegation, jail an operator whose self-delegation falls
below its minimum, remove the delegation once it is empty, take the tokens off the
validator, and remove an unbonded validator once it has no shares.  Returns the tokens. -/
def unbond (s : State) (delAddr : AccAddress) (valAddr : ValAddress) (shares : Dec) :
    Except Fault (State × ℤ) := do
  let some delegation := s.GetDelegation delAddr valAddr | throw (.err .noDelegatorForAddress)
  if delegation.shares < shares then throw (.err .notEnoughDelegationShares)
  let some validator := s.GetValidator valAddr | throw (.err .noValidatorFound)
  let delegation := { delegation with shares := delegation.shares - shares }
  let isValidatorOperator := delegation.delegatorAddress == validator.operatorAddress
  -- the three conditions are evaluated left to right, as Go's `&&`
  let (s, validator) ←
    (if isValidatorOperator && !validator.jailed then do
      let selfTokens := (← validator.TokensFromShares delegation.shares).truncateInt
      if selfTokens < validator.minSelfDelegation then do
        let s ← s.jailValidator validator
        pure (s, ← s.mustGetValidator validator.operatorAddress)
      else pure (s, validator)
     else pure (s, validator))
  let s := if delegation.shares.isZero then s.RemoveDelegation delegation else s.SetDelegation delegation
  let (s, validator, amount) ← s.RemoveValidatorTokensAndShares validator shares
  let s ←
    (if validator.delegatorShares.isZero && validator.IsUnbonded then
      s.RemoveValidator validator.operatorAddress
     else pure s)
  pure (s, amount)

/-- `getBeginInfo`: when a redelegation from the source validator completes, at which height
it counts as made, and whether it is complete at once (an unbonded source). -/
def getBeginInfo (s : State) (hdr : Header) (valSrcAddr : ValAddress) : Time × ℤ × Bool :=
  match s.GetValidator valSrcAddr with
  | none => (hdr.time + s.params.unbondingTime, hdr.height, false)
  | some validator =>
    match validator.status with
    | .bonded => (hdr.time + s.params.unbondingTime, hdr.height, false)
    | .unbonded => (zeroTime, 0, true)
    | .unbonding => (validator.unbondingCompletionTime, validator.unbondingHeight, false)

/-- `Undelegate`. -/
def Undelegate (s : State) (hdr : Header) (delAddr : AccAddress) (valAddr : ValAddress)
    (sharesAmount : Dec) : Except Fault (State × Time) := do
  let (s, returnAmount) ← s.unbond delAddr valAddr sharesAmount
  if s.HasMaxUnbondingDelegationEntries delAddr valAddr then
    throw (.err .maxUnbondingDelegationEntries)
  let completionTime := hdr.time + s.params.unbondingTime
  let (s, _) := s.SetUnbondingDelegationEntry delAddr valAddr hdr.height completionTime returnAmount
  pure (s, completionTime)

/-- The loop of `CompleteUnbonding`: drop each mature entry and pay out its balance when it is
not zero; keep the others in their order. -/
def completeUnbondingEntries (ctxTime : Time) (delegatorAddress : AccAddress) :
    State → List UnbondingDelegationEntry → Except Fault (State × List UnbondingDelegationEntry)
  | s, [] => pure (s, [])
  | s, entry :: rest => do
    if entry.IsMature ctxTime then
      let s ←
        (if entry.balance ≠ 0 then do
          let amt ← NewCoin entry.balance
          s.UndelegateCoins delegatorAddress amt
         else pure s)
      completeUnbondingEntries ctxTime delegatorAddress s rest
    else do
      let (s, rest) ← completeUnbondingEntries ctxTime delegatorAddress s rest
      pure (s, entry :: rest)

/-- `CompleteUnbonding`. -/
def CompleteUnbonding (s : State) (hdr : Header) (delAddr : AccAddress) (valAddr : ValAddress) :
    Except Fault State := do
  let some ubd := s.GetUnbondingDelegation delAddr valAddr | throw (.err .noUnbondingDelegation)
  let (s, entries) ← completeUnbondingEntries hdr.time ubd.delegatorAddress s ubd.entries
  let ubd := { ubd with entries := entries }
  pure (if entries.isEmpty then s.RemoveUnbondingDelegation ubd else s.SetUnbondingDelegation ubd)

/-- `BeginRedelegation`. -/
def BeginRedelegation (s : State) (hdr : Header) (delAddr : AccAddress)
    (valSrcAddr valDstAddr : ValAddress) (sharesAmount : Dec) : Except Fault (State × Time) := do
  if valSrcAddr = valDstAddr then throw (.err .selfRedelegation)
  if s.HasReceivingRedelegation delAddr valSrcAddr then throw (.err .transitiveRedelegation)
  if s.HasMaxRedelegationEntries delAddr valSrcAddr valDstAddr then
    throw (.err .maxRedelegationEntries)
  let (s, returnAmount) ← s.unbond delAddr valSrcAddr sharesAmount
  if returnAmount = 0 then throw (.err .verySmallRedelegation)
  let some dstValidator := s.GetValidator valDstAddr | throw (.err .badRedelegationDst)
  let (s, sharesCreated) ← s.Delegate delAddr returnAmount dstValidator false
  let (completionTime, height, completeNow) := s.getBeginInfo hdr valSrcAddr
  if completeNow then return (s, completionTime)
  let (s, _) :=
    s.SetRedelegationEntry delAddr valSrcAddr valDstAddr height completionTime returnAmount
      sharesAmount sharesCreated
  pure (s, completionTime)

/-- `CompleteRedelegation`: drop the mature entries, and the record once none is left. -/
def CompleteRedelegation (s : State) (hdr : Header) (delAddr : AccAddress)
    (valSrcAddr valDstAddr : ValAddress) : Except Fault State := do
  let some red := s.GetRedelegation delAddr valSrcAddr valDstAddr | throw (.err .noRedelegation)
  let red := { red with entries := red.entries.filter fun e => !e.IsMature hdr.time }
  pure (if red.entries.isEmpty then s.RemoveRedelegation red else s.SetRedelegation red)

/-- `ValidateUnbondAmount`: the shares worth `amt` tokens, capped at the delegation's shares;
the truncated worth must not exceed them. -/
def ValidateUnbondAmount (s : State) (delAddr : AccAddress) (valAddr : ValAddress) (amt : ℤ) :
    Except Fault Dec := do
  let some validator := s.GetValidator valAddr | throw (.err .noValidatorFound)
  let some del := s.GetDelegation delAddr valAddr | throw (.err .noDelegation)
  let shares ← validator.SharesFromTokens amt
  let sharesTruncated ← validator.SharesFromTokensTruncated amt
  let delShares := del.shares
  if delShares < sharesTruncated then throw (.err .badSharesAmount)
  pure (if delShares < shares then delShares else shares)

/-! ### What each operation does -/

/-- The loop of `CompleteUnbonding` keeps whatever paying out an account keeps. -/
theorem completeUnbondingEntries_preserves {β : Type} (f : State → β)
    (hpay : ∀ {s s' : State} {a : AccAddress} {x : ℤ}, s.UndelegateCoins a x = .ok s' → f s' = f s)
    (t : Time) (a : AccAddress) :
    ∀ (l : List UnbondingDelegationEntry) (s : State) (r : State × List UnbondingDelegationEntry),
      completeUnbondingEntries t a s l = .ok r → f r.1 = f s
  | [], s, r, h => by
    simp only [completeUnbondingEntries, Except.pure_eq_ok, Except.ok_inj] at h
    rw [← h]
  | e :: rest, s, r, h => by
    unfold completeUnbondingEntries at h
    split_ifs at h with hm hb
    · -- a mature entry with a balance pays it out
      obtain ⟨s₁, h₁, h⟩ := Except.bind_eq_ok.mp h
      obtain ⟨c, -, hc⟩ := Except.bind_eq_ok.mp h₁
      rw [completeUnbondingEntries_preserves f hpay t a rest s₁ r h, hpay hc]
    · simp only [Except.pure_eq_ok, Except.ok_bind] at h
      exact completeUnbondingEntries_preserves f hpay t a rest s r h
    · obtain ⟨⟨s₁, rest₁⟩, h₁, h⟩ := Except.bind_eq_ok.mp h
      simp only [Except.pure_eq_ok, Except.ok_inj] at h
      rw [← h]
      exact completeUnbondingEntries_preserves f hpay t a rest s (s₁, rest₁) h₁

section Spec

variable {s s' : State} {hdr : Header} {del : AccAddress}

theorem Delegate_eq_ok {amt : ℤ} {v : Validator} {sub : Bool} {sh : Dec}
    (h : s.Delegate del amt v sub = .ok (s', sh)) :
    v.InvalidExRate = false ∧ ∃ s₁ s₂ v',
      (if sub then (NewCoin amt >>= fun c => s.DelegateCoins
          ((s.GetDelegation del v.operatorAddress).getD ⟨del, v.operatorAddress, 0⟩).delegatorAddress c)
        else pure s) = .ok s₁ ∧
      s₁.AddValidatorTokensAndShares v amt = .ok (s₂, v', sh) ∧
      s' = s₂.SetDelegation
        { (s.GetDelegation del v.operatorAddress).getD ⟨del, v.operatorAddress, 0⟩ with
          shares := ((s.GetDelegation del v.operatorAddress).getD ⟨del, v.operatorAddress, 0⟩).shares +
            sh } := by
  unfold Delegate at h
  simp only [Except.throw_eq_error, Except.error_bind, Except.ite_error_eq_ok, Bool.not_eq_true] at h
  obtain ⟨hex, h⟩ := h
  obtain ⟨s₁, h₁, h⟩ := Except.bind_eq_ok.mp h
  obtain ⟨⟨s₂, v', sh'⟩, h₂, h⟩ := Except.bind_eq_ok.mp h
  simp only [Except.pure_eq_ok, Except.ok_inj, Prod.mk.injEq] at h
  obtain ⟨rfl, rfl⟩ := h
  exact ⟨hex, s₁, s₂, v', h₁, h₂, rfl⟩

/-- The jail step of `unbond`: it continues with the state and record it was given, or
jails the operator and continues with the record stored after the jail. -/
theorem unbond_jail_eq_ok (delegation : Delegation) {validator v₁ : Validator} {s₁ : State}
    (h : (if (delegation.delegatorAddress == validator.operatorAddress) && !validator.jailed then do
        let selfTokens := (← validator.TokensFromShares delegation.shares).truncateInt
        if selfTokens < validator.minSelfDelegation then do
          let s ← s.jailValidator validator
          pure (s, ← s.mustGetValidator validator.operatorAddress)
        else pure (s, validator)
      else pure (s, validator)) = .ok (s₁, v₁)) :
    (s₁ = s ∧ v₁ = validator) ∨
      (s.jailValidator validator = .ok s₁ ∧ s₁.mustGetValidator validator.operatorAddress = .ok v₁) := by
  -- the operator's self-delegation may fall below its minimum and jail it
  split_ifs at h with hop
  · obtain ⟨t, -, h⟩ := Except.bind_eq_ok.mp h
    dsimp only at h
    split_ifs at h with hmin
    · obtain ⟨s₄, hjail, h⟩ := Except.bind_eq_ok.mp h
      obtain ⟨v₄, hget, h⟩ := Except.bind_eq_ok.mp h
      simp only [Except.pure_eq_ok, Except.ok_inj, Prod.mk.injEq] at h
      obtain ⟨rfl, rfl⟩ := h
      exact Or.inr ⟨hjail, hget⟩
    · simp only [Except.pure_eq_ok, Except.ok_inj, Prod.mk.injEq] at h
      exact Or.inl ⟨h.1.symm, h.2.symm⟩
  · simp only [Except.pure_eq_ok, Except.ok_inj, Prod.mk.injEq] at h
    exact Or.inl ⟨h.1.symm, h.2.symm⟩

/-- `unbond`: the delegation and the validator it read, the jail step, the removal of the
shares and tokens, and the removal of an emptied unbonded validator. -/
theorem unbond_eq_ok {val : ValAddress} {x : Dec} {amt : ℤ}
    (h : s.unbond del val x = .ok (s', amt)) :
    ∃ d v, s.GetDelegation del val = some d ∧ x ≤ d.shares ∧ s.GetValidator val = some v ∧
    ∃ s₁ v₁, ((s₁ = s ∧ v₁ = v) ∨
        (s.jailValidator v = .ok s₁ ∧ s₁.mustGetValidator v.operatorAddress = .ok v₁)) ∧
    ∃ s₂ v₂, (if (d.shares - x).isZero then s₁.RemoveDelegation { d with shares := d.shares - x }
        else s₁.SetDelegation { d with shares := d.shares - x }).RemoveValidatorTokensAndShares v₁ x =
          .ok (s₂, v₂, amt) ∧
      (if v₂.delegatorShares.isZero && v₂.IsUnbonded then s₂.RemoveValidator v₂.operatorAddress
        else pure s₂) = .ok s' := by
  unfold unbond at h
  cases hd : s.GetDelegation del val with
  | none => simp [hd] at h
  | some d =>
  cases hv : s.GetValidator val with
  | none => simp [hd, hv] at h
  | some v =>
  simp only [hd, hv, Except.throw_eq_error, Except.error_bind, Except.ite_error_eq_ok, not_lt] at h
  obtain ⟨hx, h⟩ := h
  obtain ⟨⟨s₁, v₁⟩, hj, h⟩ := Except.bind_eq_ok.mp h
  obtain ⟨⟨s₂, v₂, amt₂⟩, hr, h⟩ := Except.bind_eq_ok.mp h
  obtain ⟨s₃, hrv, h⟩ := Except.bind_eq_ok.mp h
  simp only [Except.pure_eq_ok, Except.ok_inj, Prod.mk.injEq] at h
  obtain ⟨rfl, rfl⟩ := h
  exact ⟨d, v, rfl, hx, rfl, s₁, v₁, unbond_jail_eq_ok { d with shares := d.shares - x } hj, s₂, v₂, hr, hrv⟩

theorem Undelegate_eq_ok {val : ValAddress} {x : Dec} {t : Time}
    (h : s.Undelegate hdr del val x = .ok (s', t)) :
    ∃ s₁ amt, s.unbond del val x = .ok (s₁, amt) ∧
      s₁.HasMaxUnbondingDelegationEntries del val = false ∧
      t = hdr.time + s₁.params.unbondingTime ∧
      s' = (s₁.SetUnbondingDelegationEntry del val hdr.height t amt).1 := by
  unfold Undelegate at h
  obtain ⟨⟨s₁, amt⟩, hu, h⟩ := Except.bind_eq_ok.mp h
  simp only [Except.throw_eq_error, Except.error_bind, Except.ite_error_eq_ok, Bool.not_eq_true,
    Except.pure_eq_ok, Except.ok_inj, Prod.mk.injEq] at h
  obtain ⟨hmax, rfl, rfl⟩ := h
  exact ⟨s₁, amt, hu, hmax, rfl, rfl⟩

theorem CompleteUnbonding_eq_ok {val : ValAddress} (h : s.CompleteUnbonding hdr del val = .ok s') :
    ∃ ubd s₁ entries, s.GetUnbondingDelegation del val = some ubd ∧
      completeUnbondingEntries hdr.time ubd.delegatorAddress s ubd.entries = .ok (s₁, entries) ∧
      s' = if entries.isEmpty then s₁.RemoveUnbondingDelegation { ubd with entries := entries }
        else s₁.SetUnbondingDelegation { ubd with entries := entries } := by
  unfold CompleteUnbonding at h
  cases hu : s.GetUnbondingDelegation del val with
  | none => simp [hu] at h
  | some ubd =>
  simp only [hu] at h
  obtain ⟨⟨s₁, entries⟩, he, h⟩ := Except.bind_eq_ok.mp h
  simp only [Except.pure_eq_ok, Except.ok_inj] at h
  exact ⟨ubd, s₁, entries, rfl, he, h.symm⟩

/-- `BeginRedelegation`: its three guards, the unbonding from the source, the delegation to
the destination, and the entry recorded unless the source is unbonded. -/
theorem BeginRedelegation_eq_ok {src dst : ValAddress} {x : Dec} {t : Time}
    (h : s.BeginRedelegation hdr del src dst x = .ok (s', t)) :
    src ≠ dst ∧ s.HasReceivingRedelegation del src = false ∧
    s.HasMaxRedelegationEntries del src dst = false ∧
    ∃ s₁ amt, s.unbond del src x = .ok (s₁, amt) ∧ amt ≠ 0 ∧
    ∃ dstValidator, s₁.GetValidator dst = some dstValidator ∧
    ∃ s₂ sh, s₁.Delegate del amt dstValidator false = .ok (s₂, sh) ∧
      t = (s₂.getBeginInfo hdr src).1 ∧
      ((s₂.getBeginInfo hdr src).2.2 = true ∧ s' = s₂ ∨
       (s₂.getBeginInfo hdr src).2.2 = false ∧
        s' = (s₂.SetRedelegationEntry del src dst (s₂.getBeginInfo hdr src).2.1
          (s₂.getBeginInfo hdr src).1 amt x sh).1) := by
  unfold BeginRedelegation at h
  simp only [Except.throw_eq_error, Except.error_bind, Except.ite_error_eq_ok,
    Bool.not_eq_true] at h
  obtain ⟨hne, hrec, hmax, h⟩ := h
  obtain ⟨⟨s₁, amt⟩, hu, h⟩ := Except.bind_eq_ok.mp h
  simp only [Except.ite_error_eq_ok] at h
  obtain ⟨hamt, h⟩ := h
  cases hd : s₁.GetValidator dst with
  | none => simp [hd] at h
  | some dstValidator =>
  simp only [hd] at h
  obtain ⟨⟨s₂, sh⟩, hdel, h⟩ := Except.bind_eq_ok.mp h
  refine ⟨hne, hrec, hmax, s₁, amt, hu, hamt, dstValidator, hd, s₂, sh, hdel, ?_⟩
  -- the source's status decides whether the entry is recorded
  cases hnow : (s₂.getBeginInfo hdr src).2.2
  · simp only [hnow, Bool.false_eq_true, if_false, Except.pure_eq_ok, Except.ok_inj,
      Prod.mk.injEq] at h
    exact ⟨h.2.symm, Or.inr ⟨rfl, h.1.symm⟩⟩
  · simp only [hnow, if_true, Except.pure_eq_ok, Except.ok_inj, Prod.mk.injEq] at h
    exact ⟨h.2.symm, Or.inl ⟨rfl, h.1.symm⟩⟩

theorem CompleteRedelegation_eq_ok {src dst : ValAddress}
    (h : s.CompleteRedelegation hdr del src dst = .ok s') :
    ∃ red, s.GetRedelegation del src dst = some red ∧
      s' = if (red.entries.filter fun e => !e.IsMature hdr.time).isEmpty then
          s.RemoveRedelegation { red with entries := red.entries.filter fun e => !e.IsMature hdr.time }
        else
          s.SetRedelegation { red with entries := red.entries.filter fun e => !e.IsMature hdr.time } := by
  unfold CompleteRedelegation at h
  cases hr : s.GetRedelegation del src dst with
  | none => simp [hr] at h
  | some red =>
  simp only [hr, Except.pure_eq_ok, Except.ok_inj] at h
  exact ⟨red, rfl, h.symm⟩

theorem ValidateUnbondAmount_eq_ok {val : ValAddress} {amt : ℤ} {x : Dec}
    (h : s.ValidateUnbondAmount del val amt = .ok x) :
    ∃ v d sh shT, s.GetValidator val = some v ∧ s.GetDelegation del val = some d ∧
      v.SharesFromTokens amt = .ok sh ∧ v.SharesFromTokensTruncated amt = .ok shT ∧
      shT ≤ d.shares ∧ x = if d.shares < sh then d.shares else sh := by
  unfold ValidateUnbondAmount at h
  cases hv : s.GetValidator val with
  | none => simp [hv] at h
  | some v =>
  cases hd : s.GetDelegation del val with
  | none => simp [hv, hd] at h
  | some d =>
  simp only [hv, hd] at h
  obtain ⟨sh, hsh, h⟩ := Except.bind_eq_ok.mp h
  obtain ⟨shT, hshT, h⟩ := Except.bind_eq_ok.mp h
  simp only [Except.throw_eq_error, Except.error_bind, Except.ite_error_eq_ok, not_lt,
    Except.pure_eq_ok, Except.ok_inj] at h
  exact ⟨v, d, sh, shT, rfl, rfl, hsh, hshT, h.1, h.2.symm⟩

end Spec

end State

end CosmosSdk.Staking
