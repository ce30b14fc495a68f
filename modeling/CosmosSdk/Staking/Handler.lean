import CosmosSdk.Staking.ValStateChange

/-!
# Messages, handlers and the staking state machine

`types/msg.go` and `handler.go`: the four messages that move stake, their `ValidateBasic`
and `GetSigners`, and their handlers.  `Action` adds the calls other parts of the node
make into the keeper: `Slash`, `Jail` and `Unjail` from the slashing module, and the
pieces of the end blocker.  `Step` is one action from one state, as the node runs it: a
message reaches its handler only after its `ValidateBasic` passed (`BaseApp.runTx`) and
after the ante handler verified a signature of each signer, whose address is then the
`AddrLen`-byte address of the signing key.

* The description and commission of `MsgCreateValidator` and `MsgEditValidator` are left
  out with the validator's description and commission (see `Types`).  Their checks can
  only reject a message, so the model accepts more messages than the node.
* The end blocker completes the unbonding delegations and redelegations named by the
  queues; the model lets any pair be completed (see `Store`).
-/

namespace CosmosSdk.Staking

/-- `MsgCreateValidator`, without description and commission. -/
structure MsgCreateValidator where
  delegatorAddress : AccAddress
  validatorAddress : ValAddress
  pubKey : PubKey
  value : Coin
  minSelfDelegation : ℤ
  deriving DecidableEq, Repr

/-- `MsgDelegate`. -/
structure MsgDelegate where
  delegatorAddress : AccAddress
  validatorAddress : ValAddress
  amount : Coin
  deriving DecidableEq, Repr

/-- `MsgBeginRedelegate`. -/
structure MsgBeginRedelegate where
  delegatorAddress : AccAddress
  validatorSrcAddress : ValAddress
  validatorDstAddress : ValAddress
  amount : Coin
  deriving DecidableEq, Repr

/-- `MsgUndelegate`. -/
structure MsgUndelegate where
  delegatorAddress : AccAddress
  validatorAddress : ValAddress
  amount : Coin
  deriving DecidableEq, Repr

/-- `MsgEditValidator`, without description and commission rate: the new minimum
self-delegation, if any. -/
structure MsgEditValidator where
  validatorAddress : ValAddress
  minSelfDelegation : Option ℤ
  deriving DecidableEq, Repr

/-- `MsgCreateValidator.ValidateBasic`, on the fields modelled. -/
def MsgCreateValidator.ValidateBasic (msg : MsgCreateValidator) : Except Err Unit := do
  if msg.delegatorAddress.isEmpty then throw .nilDelegatorAddr
  if msg.validatorAddress.isEmpty then throw .nilValidatorAddr
  if msg.validatorAddress ≠ msg.delegatorAddress then throw .badValidatorAddr
  if msg.value.amount ≤ 0 then throw .badDelegationAmount
  if ¬0 < msg.minSelfDelegation then throw .minSelfDelegationInvalid
  if msg.value.amount < msg.minSelfDelegation then throw .selfDelegationBelowMinimum

/-- `MsgEditValidator.ValidateBasic`, on the fields modelled. -/
def MsgEditValidator.ValidateBasic (msg : MsgEditValidator) : Except Err Unit := do
  if msg.validatorAddress.isEmpty then throw .invalidInput
  if let some minSelfDelegation := msg.minSelfDelegation then
    if ¬0 < minSelfDelegation then throw .minSelfDelegationInvalid

/-- `MsgDelegate.ValidateBasic`. -/
def MsgDelegate.ValidateBasic (msg : MsgDelegate) : Except Err Unit := do
  if msg.delegatorAddress.isEmpty then throw .nilDelegatorAddr
  if msg.validatorAddress.isEmpty then throw .nilValidatorAddr
  if msg.amount.amount ≤ 0 then throw .badDelegationAmount

/-- `MsgBeginRedelegate.ValidateBasic`. -/
def MsgBeginRedelegate.ValidateBasic (msg : MsgBeginRedelegate) : Except Err Unit := do
  if msg.delegatorAddress.isEmpty then throw .nilDelegatorAddr
  if msg.validatorSrcAddress.isEmpty then throw .nilValidatorAddr
  if msg.validatorDstAddress.isEmpty then throw .nilValidatorAddr
  if msg.amount.amount ≤ 0 then throw .badSharesAmount

/-- `MsgUndelegate.ValidateBasic`. -/
def MsgUndelegate.ValidateBasic (msg : MsgUndelegate) : Except Err Unit := do
  if msg.delegatorAddress.isEmpty then throw .nilDelegatorAddr
  if msg.validatorAddress.isEmpty then throw .nilValidatorAddr
  if msg.amount.amount ≤ 0 then throw .badSharesAmount

/-- The validator record that `handleMsgCreateValidator` creates. -/
def MsgCreateValidator.newValidator (msg : MsgCreateValidator) : Validator :=
  { NewValidator msg.validatorAddress msg.pubKey with minSelfDelegation := msg.minSelfDelegation }

theorem MsgCreateValidator.ValidateBasic_eq_ok {msg : MsgCreateValidator}
    (h : msg.ValidateBasic = .ok ()) :
    msg.delegatorAddress ≠ [] ∧ msg.validatorAddress ≠ [] ∧
      msg.validatorAddress = msg.delegatorAddress ∧ 0 < msg.value.amount ∧
      0 < msg.minSelfDelegation ∧ msg.minSelfDelegation ≤ msg.value.amount := by
  unfold ValidateBasic at h
  simp only [Except.throw_eq_error, Except.error_bind, Except.ite_error_eq_ok, List.isEmpty_iff,
    not_le, not_lt, not_not] at h
  obtain ⟨h1, h2, h3, h4, h5, h6, -⟩ := h
  exact ⟨h1, h2, h3, h4, h5, h6⟩

theorem MsgDelegate.ValidateBasic_eq_ok {msg : MsgDelegate} (h : msg.ValidateBasic = .ok ()) :
    msg.delegatorAddress ≠ [] ∧ msg.validatorAddress ≠ [] ∧ 0 < msg.amount.amount := by
  unfold ValidateBasic at h
  simp only [Except.throw_eq_error, Except.error_bind, Except.ite_error_eq_ok, List.isEmpty_iff,
    not_le] at h
  exact ⟨h.1, h.2.1, h.2.2.1⟩

theorem MsgBeginRedelegate.ValidateBasic_eq_ok {msg : MsgBeginRedelegate}
    (h : msg.ValidateBasic = .ok ()) :
    msg.delegatorAddress ≠ [] ∧ msg.validatorSrcAddress ≠ [] ∧ msg.validatorDstAddress ≠ [] ∧
      0 < msg.amount.amount := by
  unfold ValidateBasic at h
  simp only [Except.throw_eq_error, Except.error_bind, Except.ite_error_eq_ok, List.isEmpty_iff,
    not_le] at h
  exact ⟨h.1, h.2.1, h.2.2.1, h.2.2.2.1⟩

theorem MsgUndelegate.ValidateBasic_eq_ok {msg : MsgUndelegate} (h : msg.ValidateBasic = .ok ()) :
    msg.delegatorAddress ≠ [] ∧ msg.validatorAddress ≠ [] ∧ 0 < msg.amount.amount := by
  unfold ValidateBasic at h
  simp only [Except.throw_eq_error, Except.error_bind, Except.ite_error_eq_ok, List.isEmpty_iff,
    not_le] at h
  exact ⟨h.1, h.2.1, h.2.2.1⟩

/-- `MsgCreateValidator.GetSigners`: the delegator, and the validator if it differs. -/
def MsgCreateValidator.GetSigners (msg : MsgCreateValidator) : List AccAddress :=
  if msg.delegatorAddress = msg.validatorAddress then [msg.delegatorAddress]
  else [msg.delegatorAddress, msg.validatorAddress]

/-! ### Handlers -/

namespace State

/-- `handleMsgCreateValidator`. -/
def handleMsgCreateValidator (s : State) (msg : MsgCreateValidator) : Except Fault State := do
  if (s.GetValidator msg.validatorAddress).isSome then throw (.err .validatorOwnerExists)
  if (s.GetValidatorByConsAddr msg.pubKey.address).isSome then
    throw (.err .validatorPubKeyExists)
  if msg.value.denom ≠ s.params.bondDenom then throw (.err .badDenom)
  let validator := msg.newValidator
  let s := ((s.SetValidator validator).SetValidatorByConsAddr validator).SetNewValidatorByPowerIndex
    validator
  let (s, _) ← s.Delegate msg.delegatorAddress msg.value.amount validator true
  pure s

/-- `handleMsgEditValidator`: a new minimum self-delegation must be above the old one and
within the validator's tokens. -/
def handleMsgEditValidator (s : State) (msg : MsgEditValidator) : Except Fault State := do
  let some validator := s.GetValidator msg.validatorAddress | throw (.err .noValidatorFound)
  let validator ← match msg.minSelfDelegation with
    | none => pure validator
    | some minSelfDelegation =>
      if ¬minSelfDelegation > validator.minSelfDelegation then
        throw (.err .minSelfDelegationDecreased)
      else if minSelfDelegation > validator.tokens then throw (.err .selfDelegationBelowMinimum)
      else pure { validator with minSelfDelegation }
  pure (s.SetValidator validator)

/-- `handleMsgDelegate`. -/
def handleMsgDelegate (s : State) (msg : MsgDelegate) : Except Fault State := do
  let some validator := s.GetValidator msg.validatorAddress | throw (.err .noValidatorFound)
  if msg.amount.denom ≠ s.params.bondDenom then throw (.err .badDenom)
  let (s, _) ← s.Delegate msg.delegatorAddress msg.amount.amount validator true
  pure s

/-- `handleMsgUndelegate`; the denomination of the amount is not checked. -/
def handleMsgUndelegate (s : State) (hdr : Header) (msg : MsgUndelegate) :
    Except Fault (State × Time) := do
  let shares ← s.ValidateUnbondAmount msg.delegatorAddress msg.validatorAddress msg.amount.amount
  s.Undelegate hdr msg.delegatorAddress msg.validatorAddress shares

/-- `handleMsgBeginRedelegate`; the denomination of the amount is not checked. -/
def handleMsgBeginRedelegate (s : State) (hdr : Header) (msg : MsgBeginRedelegate) :
    Except Fault (State × Time) := do
  let shares ←
    s.ValidateUnbondAmount msg.delegatorAddress msg.validatorSrcAddress msg.amount.amount
  s.BeginRedelegation hdr msg.delegatorAddress msg.validatorSrcAddress msg.validatorDstAddress shares

/-! ### What each handler does -/

section Spec

variable {s s' : State}

theorem handleMsgCreateValidator_eq_ok {msg : MsgCreateValidator}
    (h : s.handleMsgCreateValidator msg = .ok s') :
    s.GetValidator msg.validatorAddress = none ∧
    s.GetValidatorByConsAddr msg.pubKey.address = none ∧
    msg.value.denom = s.params.bondDenom ∧
    ∃ sh, Delegate (((s.SetValidator msg.newValidator).SetValidatorByConsAddr
        msg.newValidator).SetNewValidatorByPowerIndex msg.newValidator) msg.delegatorAddress
        msg.value.amount msg.newValidator true = .ok (s', sh) := by
  unfold handleMsgCreateValidator at h
  simp only [Except.throw_eq_error, Except.error_bind, Except.ite_error_eq_ok, ne_eq, not_not,
    Option.isSome_iff_ne_none] at h
  obtain ⟨hv, hc, hd, h⟩ := h
  obtain ⟨⟨s₁, sh⟩, hdel, h⟩ := Except.bind_eq_ok.mp h
  simp only [Except.pure_eq_ok, Except.ok_inj] at h
  subst h
  exact ⟨hv, hc, hd, sh, hdel⟩

/-- An edit writes back the stored validator with only its minimum self-delegation
changed. -/
theorem handleMsgEditValidator_eq_ok {msg : MsgEditValidator}
    (h : s.handleMsgEditValidator msg = .ok s') :
    ∃ v, s.GetValidator msg.validatorAddress = some v ∧
      ∃ m, s' = s.SetValidator { v with minSelfDelegation := m } := by
  unfold handleMsgEditValidator at h
  cases hv : s.GetValidator msg.validatorAddress with
  | none => simp [hv] at h
  | some v =>
  refine ⟨v, rfl, ?_⟩
  simp only [hv] at h
  -- the record written is the stored one, with a new minimum or none
  cases hm : msg.minSelfDelegation with
  | none =>
    simp only [hm, Except.pure_eq_ok, Except.ok_bind, Except.ok_inj] at h
    exact ⟨v.minSelfDelegation, h.symm⟩
  | some m =>
    simp only [hm] at h
    split_ifs at h <;> simp only [Except.throw_eq_error, Except.error_bind, reduceCtorEq, Except.ok_bind,
      Except.pure_eq_ok, Except.ok_inj] at h
    exact ⟨m, h.symm⟩

theorem handleMsgDelegate_eq_ok {msg : MsgDelegate} (h : s.handleMsgDelegate msg = .ok s') :
    ∃ v, s.GetValidator msg.validatorAddress = some v ∧ msg.amount.denom = s.params.bondDenom ∧
      ∃ sh, s.Delegate msg.delegatorAddress msg.amount.amount v true = .ok (s', sh) := by
  unfold handleMsgDelegate at h
  cases hv : s.GetValidator msg.validatorAddress with
  | none => simp [hv] at h
  | some v =>
  simp only [hv, Except.throw_eq_error, Except.error_bind, Except.ite_error_eq_ok, ne_eq,
    not_not] at h
  obtain ⟨hd, h⟩ := h
  obtain ⟨⟨s₁, sh⟩, hdel, h⟩ := Except.bind_eq_ok.mp h
  simp only [Except.pure_eq_ok, Except.ok_inj] at h
  subst h
  exact ⟨v, rfl, hd, sh, hdel⟩

theorem handleMsgUndelegate_eq_ok {hdr : Header} {msg : MsgUndelegate} {r : State × Time}
    (h : s.handleMsgUndelegate hdr msg = .ok r) :
    ∃ x, s.ValidateUnbondAmount msg.delegatorAddress msg.validatorAddress msg.amount.amount = .ok x ∧
      s.Undelegate hdr msg.delegatorAddress msg.validatorAddress x = .ok r :=
  Except.bind_eq_ok.mp h

theorem handleMsgBeginRedelegate_eq_ok {hdr : Header} {msg : MsgBeginRedelegate}
    {r : State × Time} (h : s.handleMsgBeginRedelegate hdr msg = .ok r) :
    ∃ x, s.ValidateUnbondAmount msg.delegatorAddress msg.validatorSrcAddress msg.amount.amount =
        .ok x ∧
      s.BeginRedelegation hdr msg.delegatorAddress msg.validatorSrcAddress msg.validatorDstAddress
        x = .ok r :=
  Except.bind_eq_ok.mp h

end Spec

end State

/-! ### The state machine -/

/-- What can happen to the staking state: a message of a transaction, or a call of another
module or of the end blocker. -/
inductive Action
  | createValidator (msg : MsgCreateValidator)
  | editValidator (msg : MsgEditValidator)
  | delegate (msg : MsgDelegate)
  | undelegate (msg : MsgUndelegate)
  | beginRedelegate (msg : MsgBeginRedelegate)
  | slash (consAddr : ConsAddress) (infractionHeight power : ℤ) (slashFactor : Dec)
  | jail (consAddr : ConsAddress)
  | unjail (consAddr : ConsAddress)
  | completeUnbonding (delAddr : AccAddress) (valAddr : ValAddress)
  | completeRedelegation (delAddr : AccAddress) (valSrcAddr valDstAddr : ValAddress)
  | applyAndReturnValidatorSetUpdates
  | unbondAllMatureValidatorQueue
  deriving DecidableEq, Repr

/-- An action the node lets reach the keeper: a message passed `ValidateBasic`, and its
signers' addresses are addresses of keys. -/
def Action.Admitted : Action → Prop
  | .createValidator msg =>
    msg.ValidateBasic = .ok () ∧ ∀ a ∈ msg.GetSigners, a.length = AddrLen
  | .editValidator msg => msg.ValidateBasic = .ok () ∧ msg.validatorAddress.length = AddrLen
  | .delegate msg => msg.ValidateBasic = .ok () ∧ msg.delegatorAddress.length = AddrLen
  | .undelegate msg => msg.ValidateBasic = .ok () ∧ msg.delegatorAddress.length = AddrLen
  | .beginRedelegate msg => msg.ValidateBasic = .ok () ∧ msg.delegatorAddress.length = AddrLen
  | _ => True

/-- Running an action at a block with header `hdr`. -/
def Action.run (s : State) (hdr : Header) : Action → Except Fault State
  | .createValidator msg => s.handleMsgCreateValidator msg
  | .editValidator msg => s.handleMsgEditValidator msg
  | .delegate msg => s.handleMsgDelegate msg
  | .undelegate msg => Prod.fst <$> s.handleMsgUndelegate hdr msg
  | .beginRedelegate msg => Prod.fst <$> s.handleMsgBeginRedelegate hdr msg
  | .slash consAddr infractionHeight power slashFactor =>
    s.Slash hdr consAddr infractionHeight power slashFactor
  | .jail consAddr => s.Jail consAddr
  | .unjail consAddr => s.Unjail consAddr
  | .completeUnbonding delAddr valAddr => s.CompleteUnbonding hdr delAddr valAddr
  | .completeRedelegation delAddr valSrcAddr valDstAddr =>
    s.CompleteRedelegation hdr delAddr valSrcAddr valDstAddr
  | .applyAndReturnValidatorSetUpdates => Prod.fst <$> s.ApplyAndReturnValidatorSetUpdates hdr
  | .unbondAllMatureValidatorQueue => s.UnbondAllMatureValidatorQueue hdr

/-- One step of the staking state machine. -/
def Step (s s' : State) : Prop :=
  ∃ hdr a, Action.Admitted a ∧ a.run s hdr = .ok s'

/-- Actions run one after another, each at its own block. -/
def runActions (s : State) : List (Header × Action) → Except Fault State
  | [] => pure s
  | (hdr, a) :: rest => do runActions (← a.run s hdr) rest

/-- Admitted actions that run one after another make a run. -/
theorem run_of_runActions : ∀ (l : List (Header × Action)) {s s' : State},
    (∀ p ∈ l, p.2.Admitted) → runActions s l = .ok s' → Relation.ReflTransGen Step s s'
  | [], _, _, _, h => by
    rw [runActions, Except.pure_eq_ok, Except.ok_inj] at h
    rw [h]
  | (hdr, a) :: rest, _, _, hadm, h => by
    obtain ⟨s₁, h₁, h⟩ := Except.bind_eq_ok.mp h
    exact .head ⟨hdr, a, hadm _ List.mem_cons_self, h₁⟩
      (run_of_runActions rest (fun p hp => hadm p (List.mem_cons_of_mem _ hp)) h)

end CosmosSdk.Staking
