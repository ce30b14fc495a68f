import CosmosSdk.Group.Keeper
import CosmosSdk.Contract.Keeper

/-!
# The app's router

The stores of the modules that dispatch messages to one another, the keepers over them, and
the router that hands each message to its module's handler (`NewHandler` of `x/bank`,
`x/delegation`, `x/group` and `x/contract`).

A delegated execution, a group proposal and a contract's reply dispatch messages through the
router again, so the router is defined by recursion on a `fuel`: the depth of nested
dispatches, which the gas meter bounds in the Go code.  When the fuel runs out the router
panics, as the gas meter does (`ErrorOutOfGas`).

The chain's fixed parts are the app's `Config`: the amino codec of the group keeper, the
wasm runtime and JSON encoding of the contract keeper, and bank's `SendEnabled` parameter.
-/

namespace CosmosSdk.App

/-- The stores the modelled keepers use, with the fee collection keeper's collected fees. -/
structure State where
  accounts : Auth.State
  delegation : Delegation.State
  group : Group.State
  contract : Contract.State
  collectedFees : Coins

/-- The state of a chain started from an empty genesis: no accounts, grants, groups or
contracts. -/
def State.empty : State where
  accounts := ⟨SortedMap.empty, 0⟩
  delegation := ⟨SortedMap.empty, SortedMap.empty⟩
  group := ⟨SortedMap.empty, 0, 0⟩
  contract := ⟨0, 0, SortedMap.empty, SortedMap.empty, SortedMap.empty, SortedMap.empty⟩
  collectedFees := []

/-- The fixed parts of the app. -/
structure Config where
  cdc : Group.Codec
  run : Bytes → String → Bytes → Bytes → Except String (Bytes × List Msg)
  marshalJSON : Contract.contractMsg → Except String Bytes
  sendEnabled : Bool

variable (cfg : Config) (hdr : Header)

/-- The delegation keeper, with the router `route` for its dispatches. -/
def delegationKeeper (route : State → Msg → Except Panic (Result × State)) :
    Delegation.Keeper State where
  store s := s.delegation
  setStore s st := { s with delegation := st }
  route := route
  store_setStore _ _ := rfl

/-- The group keeper. -/
def groupKeeper (route : State → Msg → Except Panic (Result × State)) : Group.Keeper State where
  cdc := cfg.cdc
  store s := s.group
  setStore s st := { s with group := st }
  accounts s := s.accounts
  setAccounts s st := { s with accounts := st }
  dispatcher := delegationKeeper route
  store_setStore _ _ := rfl
  store_setAccounts _ _ := rfl
  accounts_setAccounts _ _ := rfl
  accounts_setStore _ _ := rfl

/-- The contract keeper. -/
def contractKeeper (route : State → Msg → Except Panic (Result × State)) :
    Contract.Keeper State where
  store s := s.contract
  setStore s st := { s with contract := st }
  accounts s := s.accounts
  setAccounts s st := { s with accounts := st }
  delegationKeeper := delegationKeeper route
  run := cfg.run
  marshalJSON := cfg.marshalJSON
  store_setStore _ _ := rfl
  store_setAccounts _ _ := rfl
  accounts_setAccounts _ _ := rfl
  accounts_setStore _ _ := rfl

/-- The handlers of the four modules, with `route` for the messages they dispatch and `fuel`
for the nested `Authorize` of a group. -/
def handler (fuel : ℕ) (route : State → Msg → Except Panic (Result × State)) (s : State) :
    Msg → Except Panic (Result × State)
  | .MsgSend fromAddress toAddress amount => do
    let (res, accounts) ← Bank.handleMsgSend s.accounts hdr cfg.sendEnabled fromAddress toAddress amount
    pure (res, { s with accounts })
  | .MsgDelegate granter grantee capability expiration =>
    pure ({}, { s with delegation := s.delegation.Delegate grantee granter capability expiration })
  | .MsgExecDelegatedAction signer msgs => (delegationKeeper route).DispatchActions hdr signer s {} msgs
  | .MsgRevoke granter grantee msgType =>
    pure ({}, { s with delegation := s.delegation.Revoke grantee granter msgType })
  | .MsgDelegateFeeAllowance granter grantee allowance =>
    pure ({}, { s with delegation := s.delegation.DelegateFeeAllowance grantee granter allowance })
  | .MsgRevokeFeeAllowance granter grantee =>
    pure ({}, { s with delegation := s.delegation.RevokeFeeAllowance grantee granter })
  | .MsgCreateGroup data _ =>
    match (groupKeeper cfg route).CreateGroup s data with
    | (.error err, s) => pure ({ code := .UnknownAddress, log := err.msg }, s)
    | (.ok _, s) => pure ({}, s)
  | .MsgUpdateGroup groupID data => pure ({}, (groupKeeper cfg route).UpdateGroupInfo s groupID data)
  | .MsgCreateProposal proposer group msgs exec => do
    let (id, res, s) := (groupKeeper cfg route).Propose s proposer group msgs
    if exec then do
      -- the result of the execution is returned only when it is OK; its writes stay either way
      let (execRes, s) ← (groupKeeper cfg route).TryExecute s fuel hdr id
      if execRes.code = .OK then pure (execRes, s) else pure (res, s)
    else pure (res, s)
  | .MsgVote proposalID voter vote => (groupKeeper cfg route).Vote s proposalID voter vote
  | .MsgTryExecuteProposal proposalID _ => (groupKeeper cfg route).TryExecute s fuel hdr proposalID
  | .MsgWithdrawProposal proposalID proposer =>
    pure ((groupKeeper cfg route).Withdraw s proposalID proposer)
  | .MsgStoreCode _ wasmByteCode => pure ({}, ((contractKeeper cfg route).StoreCode s wasmByteCode).2)
  | .MsgCreateContract sender code initMsg initFunds => do
    let (_, res, s) ← (contractKeeper cfg route).CreateContract hdr s sender code initMsg initFunds
    pure (res, s)
  | .MsgSendContract sender contract msg payment =>
    (contractKeeper cfg route).SendContract hdr s sender contract msg payment

/-- `app.router.Route(msg.Route())(ctx, msg)`, with `fuel` nested dispatches left. -/
def route : ℕ → State → Msg → Except Panic (Result × State)
  | 0, _, _ => throw ⟨"out of gas in location: dispatch"⟩
  | fuel + 1, s, msg => handler cfg hdr fuel (route fuel) s msg

@[simp] theorem route_zero (s : State) (msg : Msg) :
    route cfg hdr 0 s msg = throw ⟨"out of gas in location: dispatch"⟩ := rfl

@[simp] theorem route_succ (fuel : ℕ) (s : State) (msg : Msg) :
    route cfg hdr (fuel + 1) s msg = handler cfg hdr fuel (route cfg hdr fuel) s msg := rfl

end CosmosSdk.App
