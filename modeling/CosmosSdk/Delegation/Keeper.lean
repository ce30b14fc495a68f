import CosmosSdk.App.Msg
import CosmosSdk.Lib.SortedMap
import Mathlib.Data.String.Basic

/-!
# The delegation keeper

`x/delegation/keeper.go`: a granter stores a capability for a grantee, under the key
`c/<grantee>/<granter>/<route>/<type>` of the message type it is for (`Delegate`); a grantee
executes messages signed by granters (`DispatchActions`), each accepted by the capability
the granter stored, which `Accept` may replace (`update`) or delete (`Revoke`).  Fee
allowances are kept the same way under `f/<grantee>/<granter>` (`AllowDelegatedFees`).

The store holds the amino encoding of each grant and allowance; decoding returns what was
encoded, so the model keeps the grants and the allowances themselves, in two maps from
their keys (the prefixes `c/` and `f/` keep them apart in the one Go store).  A key is the
list of its characters: the keys are ASCII, so their order is the byte order of the store.

`DispatchActions` hands each message to the app's router: the keeper is generic in the
state `σ` of the app, with the router and the way to its own store as fields (`Keeper`),
as the Go keeper holds its router and its store key.
-/

namespace CosmosSdk.Delegation

/-- `capabilityGrant`. -/
structure capabilityGrant where
  capability : Capability
  expiration : Time
  deriving DecidableEq, Repr

/-- The delegation store. -/
structure State where
  grants : SortedMap (List Char) capabilityGrant
  allowances : SortedMap (List Char) FeeAllowance

/-- `actorCapabilityKey`: `c/%x/%x/%s/%s`. -/
def actorCapabilityKey (grantee granter : AccAddress) (route typ : String) : List Char :=
  ("c/" ++ hexString grantee ++ "/" ++ hexString granter ++ "/" ++ route ++ "/" ++ typ).toList

/-- `ActorCapabilityKey`: the key for the type of `msg`. -/
def ActorCapabilityKey (grantee granter : AccAddress) (msg : Msg) : List Char :=
  actorCapabilityKey grantee granter msg.Route msg.Type

/-- `FeeAllowanceKey`: `f/%x/%x`. -/
def FeeAllowanceKey (grantee granter : AccAddress) : List Char :=
  ("f/" ++ hexString grantee ++ "/" ++ hexString granter).toList

namespace State

variable (s : State)

/-- `getCapabilityGrant`. -/
def getCapabilityGrant (actor : List Char) : Option capabilityGrant := s.grants.get? actor

/-- `Delegate`: the grant stored under the key of the capability's message type. -/
def Delegate (grantee granter : AccAddress) (capability : Capability) (expiration : Time) :
    State :=
  let actor := ActorCapabilityKey grantee granter capability.MsgType
  { s with grants := s.grants.insert actor ⟨capability, expiration⟩ }

/-- `update`: the grant is read and its capability replaced in the local copy; nothing is
written back to the store. -/
def update (grantee granter : AccAddress) (updated : Capability) : State :=
  match s.getCapabilityGrant (ActorCapabilityKey grantee granter updated.MsgType) with
  | none => s
  -- `grant.Capability = updated` assigns to the copy returned by `getCapabilityGrant`
  | some _ => s

/-- `Revoke`. -/
def Revoke (grantee granter : AccAddress) (msgType : Msg) : State :=
  { s with grants := s.grants.erase (ActorCapabilityKey grantee granter msgType) }

/-- `GetCapability`: an expired grant (a nonzero expiration before the block time) is
revoked and not returned. -/
def GetCapability (hdr : Header) (grantee granter : AccAddress) (msgType : Msg) :
    Option Capability × State :=
  match s.getCapabilityGrant (ActorCapabilityKey grantee granter msgType) with
  | none => (none, s)
  | some grant =>
    if grant.expiration ≠ zeroTime ∧ grant.expiration < hdr.time then
      (none, s.Revoke grantee granter msgType)
    else (some grant.capability, s)

/-- `DelegateFeeAllowance`. -/
def DelegateFeeAllowance (grantee granter : AccAddress) (allowance : FeeAllowance) : State :=
  { s with allowances := s.allowances.insert (FeeAllowanceKey grantee granter) allowance }

/-- `RevokeFeeAllowance`. -/
def RevokeFeeAllowance (grantee granter : AccAddress) : State :=
  { s with allowances := s.allowances.erase (FeeAllowanceKey grantee granter) }

/-- `AllowDelegatedFees`: whether the granter's allowance accepts the fee, with the
allowance replaced or deleted as `Accept` says. -/
def AllowDelegatedFees (hdr : Header) (grantee granter : AccAddress) (fee : Coins) :
    Bool × State :=
  match s.allowances.get? (FeeAllowanceKey grantee granter) with
  | none => (false, s)
  | some allowance =>
    let (allow, updated, delete) := allowance.Accept fee hdr
    if !allow then (false, s)
    else if delete then (true, s.RevokeFeeAllowance grantee granter)
    else match updated with
      | some updated => (true, s.DelegateFeeAllowance grantee granter updated)
      | none => (true, s)

/-- `FeeAllowanceGrant`. -/
structure FeeAllowanceGrant where
  Allowance : FeeAllowance
  Grantee : AccAddress
  Granter : AccAddress
  deriving DecidableEq, Repr

/-- `GetFeeAllowances`: the entries under `g/<grantee>/`, each with the granter read from the
rest of its key (an address that does not decode is empty).  The grants are stored under
`c/`, never under `g/`, so the entries come from the allowances' map. -/
def GetFeeAllowances (grantee : AccAddress) : List FeeAllowanceGrant :=
  let pre := ("g/" ++ hexString grantee ++ "/").toList
  (s.allowances.entries.filter fun e => pre.isPrefixOf e.1).map fun e =>
    let granter := (AccAddressFromHex (String.ofList (e.1.drop pre.length))).toOption.getD []
    ⟨e.2, grantee, granter⟩

@[simp] theorem update_eq (grantee granter : AccAddress) (updated : Capability) :
    s.update grantee granter updated = s := by
  unfold update
  split <;> rfl

end State

/-- The delegation keeper inside an app with state `σ`: its store (`ctx.KVStore(k.storeKey)`)
and the app's router (`k.router.Route(msg.Route())`, applied to the message). -/
structure Keeper (σ : Type) where
  store : σ → State
  setStore : σ → State → σ
  route : σ → Msg → Except Panic (Result × σ)
  store_setStore : ∀ ctx st, store (setStore ctx st) = st

namespace Keeper

variable {σ : Type} (k : Keeper σ) (hdr : Header)

attribute [simp] store_setStore

/-- The capability check of `DispatchActions` for a message the sender did not sign: the
result that ends the dispatch if the message is refused, and the state after the check. -/
def checkCapability (sender actor : AccAddress) (msg : Msg) (ctx : σ) :
    Except Panic (Option Result × σ) := do
  let (capability, st) := (k.store ctx).GetCapability hdr sender actor msg
  let ctx := k.setStore ctx st
  match capability with
  | none => pure (some (Error.ErrUnauthorized "unauthorized").Result, ctx)
  | some capability => do
    let (allow, updated, del) ← capability.Accept msg hdr
    if !allow then pure (some (Error.ErrUnauthorized "unauthorized").Result, ctx)
    else if del then pure (none, k.setStore ctx ((k.store ctx).Revoke sender actor msg))
    else match updated with
      | some updated => pure (none, k.setStore ctx ((k.store ctx).update sender actor updated))
      | none => pure (none, ctx)

/-- `DispatchActions(ctx, sender, msgs)` from the result `res` of the messages already run:
each message has one signer, the sender or a granter whose capability accepts it, and is
routed; the first result that is not OK ends the dispatch. -/
def DispatchActions (sender : AccAddress) : σ → Result → List Msg → Except Panic (Result × σ)
  | ctx, res, [] => pure (res, ctx)
  | ctx, _, msg :: msgs =>
    match msg.GetSigners with
    | [actor] => do
      let (refused, ctx) ←
        if actor = sender then pure (none, ctx) else k.checkCapability hdr sender actor msg ctx
      match refused with
      | some res => pure (res, ctx)
      | none => do
        let (res, ctx) ← k.route ctx msg
        if !res.IsOK then pure (res, ctx) else DispatchActions sender ctx res msgs
    | _ =>
      pure ((Error.ErrUnknownRequest "can only dispatch a delegated msg with 1 signer").Result, ctx)

end Keeper

end CosmosSdk.Delegation
