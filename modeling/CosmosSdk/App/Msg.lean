import CosmosSdk.Types.Coins
import CosmosSdk.Types.Result

/-!
# Messages

The messages of the modules that hand messages to one another: `x/bank`'s `MsgSend`, the
messages of `x/delegation` (capabilities, delegated execution, fee allowances), of `x/group`
(groups and proposals) and of `x/contract` (`msgs.go` of each).  A group proposal and a
delegated execution carry messages, so `Msg` is a nested inductive type.  Each message has
the four methods of `sdk.Msg` that the modelled code calls: `Route`, `Type`, `GetSigners`
and `ValidateBasic` (an `sdk.Error`, or `none` for `nil`).

Also here, as the messages use them: the group record (`Group`, `Member`), and the
capabilities and fee allowances, with their `Accept` methods (`capabilities.go`, and
`CapabilityUpdateGroup` of `x/group`).
-/

namespace CosmosSdk

/-- `group.Member`. -/
structure Member where
  address : AccAddress
  weight : ℤ
  deriving DecidableEq, Repr

/-- `group.Group`. -/
structure Group where
  members : List Member
  decisionThreshold : ℤ
  memo : String
  id : AccAddress
  deriving DecidableEq, Repr

namespace Group

/-- `Group.ValidateBasic`. -/
def ValidateBasic (info : Group) : Option Error :=
  if info.members.length = 0 then
    some (.ErrUnknownRequest "Group must reference a non-empty set of members")
  else if ¬ 0 < info.decisionThreshold then
    some (.ErrUnknownRequest
      ("DecisionThreshold must be a positive integer, got " ++ toString info.decisionThreshold))
  else none

end Group

/-- The implementations of `delegation.Capability`. -/
inductive Capability
  /-- `delegation.SendCapability`. -/
  | SendCapability (SpendLimit : Coins)
  /-- `group.CapabilityUpdateGroup`. -/
  | CapabilityUpdateGroup (GroupIDs : List AccAddress)
  deriving DecidableEq, Repr

/-- The implementations of `delegation.FeeAllowance`. -/
inductive FeeAllowance
  /-- `delegation.BasicFeeAllowance`. -/
  | BasicFeeAllowance (SpendLimit : Coins)
  deriving DecidableEq, Repr

/-- The modelled implementations of `sdk.Msg`. -/
inductive Msg
  /-- `bank.MsgSend`. -/
  | MsgSend (fromAddress toAddress : AccAddress) (amount : Coins)
  /-- `delegation.MsgDelegate`: a capability granted. -/
  | MsgDelegate (granter grantee : AccAddress) (capability : Capability) (expiration : Time)
  /-- `delegation.MsgExecDelegatedAction`. -/
  | MsgExecDelegatedAction (signer : AccAddress) (msgs : List Msg)
  /-- `delegation.MsgRevoke`. -/
  | MsgRevoke (granter grantee : AccAddress) (msgType : Msg)
  /-- `delegation.MsgDelegateFeeAllowance`. -/
  | MsgDelegateFeeAllowance (granter grantee : AccAddress) (allowance : FeeAllowance)
  /-- `delegation.MsgRevokeFeeAllowance`. -/
  | MsgRevokeFeeAllowance (granter grantee : AccAddress)
  /-- `group.MsgCreateGroup`. -/
  | MsgCreateGroup (data : Group) (signer : AccAddress)
  /-- `group.MsgUpdateGroup`. -/
  | MsgUpdateGroup (groupID : AccAddress) (data : Group)
  /-- `group.MsgCreateProposal`. -/
  | MsgCreateProposal (proposer group : AccAddress) (msgs : List Msg) (exec : Bool)
  /-- `group.MsgVote`. -/
  | MsgVote (proposalID : ℕ) (voter : AccAddress) (vote : Bool)
  /-- `group.MsgTryExecuteProposal`. -/
  | MsgTryExecuteProposal (proposalID : ℕ) (signer : AccAddress)
  /-- `group.MsgWithdrawProposal`. -/
  | MsgWithdrawProposal (proposalID : ℕ) (proposer : AccAddress)
  /-- `contract.MsgStoreCode`. -/
  | MsgStoreCode (sender : AccAddress) (wasmByteCode : Bytes)
  /-- `contract.MsgCreateContract`. -/
  | MsgCreateContract (sender : AccAddress) (code : ℕ) (initMsg : Bytes) (initFunds : Coins)
  /-- `contract.MsgSendContract`. -/
  | MsgSendContract (sender contract : AccAddress) (msg : Bytes) (payment : Coins)
  deriving Repr

namespace Msg

/-- `Route()`. -/
def Route : Msg → String
  | MsgSend .. => "bank"
  | MsgDelegate .. | MsgExecDelegatedAction .. | MsgRevoke .. | MsgDelegateFeeAllowance ..
  | MsgRevokeFeeAllowance .. => "delegation"
  | MsgCreateGroup .. | MsgUpdateGroup .. | MsgCreateProposal .. | MsgVote ..
  | MsgTryExecuteProposal .. | MsgWithdrawProposal .. => "group"
  | MsgStoreCode .. | MsgCreateContract .. | MsgSendContract .. => "contract"

/-- `Type()`.  `MsgCreateGroup` and `MsgCreateProposal` share theirs. -/
def «Type» : Msg → String
  | MsgSend .. => "send"
  | MsgDelegate .. => "delegate"
  | MsgExecDelegatedAction .. => "exec_delegated"
  | MsgRevoke .. => "revoke"
  | MsgDelegateFeeAllowance .. => "delegate-fee-allowance"
  | MsgRevokeFeeAllowance .. => "revoke-fee-allowance"
  | MsgCreateGroup .. => "group.create"
  | MsgUpdateGroup .. => "group.update"
  | MsgCreateProposal .. => "group.create"
  | MsgVote .. => "proposal.vote"
  | MsgTryExecuteProposal .. => "group.exec-proposal"
  | MsgWithdrawProposal .. => "group.withdraw-proposal"
  | MsgStoreCode .. => "store-code"
  | MsgCreateContract .. => "create"
  | MsgSendContract .. => "send"

/-- `GetSigners()`: one signer for every message here. -/
def GetSigners : Msg → List AccAddress
  | MsgSend fromAddress .. => [fromAddress]
  | MsgDelegate granter .. => [granter]
  | MsgExecDelegatedAction signer _ => [signer]
  | MsgRevoke granter .. => [granter]
  | MsgDelegateFeeAllowance granter .. => [granter]
  | MsgRevokeFeeAllowance granter _ => [granter]
  | MsgCreateGroup _ signer => [signer]
  | MsgUpdateGroup groupID _ => [groupID]
  | MsgCreateProposal proposer .. => [proposer]
  | MsgVote _ voter _ => [voter]
  | MsgTryExecuteProposal _ signer => [signer]
  | MsgWithdrawProposal _ proposer => [proposer]
  | MsgStoreCode sender _ => [sender]
  | MsgCreateContract sender .. => [sender]
  | MsgSendContract sender .. => [sender]

/-- `MsgSend.ValidateBasic`. -/
def validateSend (fromAddress toAddress : AccAddress) (amount : Coins) : Option Error :=
  if fromAddress.isEmpty then some (.ErrInvalidAddress "missing sender address")
  else if toAddress.isEmpty then some (.ErrInvalidAddress "missing recipient address")
  else if !amount.IsValid then some (.ErrInvalidCoins ("send amount is invalid: " ++ Coins.toString amount))
  else if !amount.IsAllPositive then some (.ErrInsufficientCoins "send amount must be positive")
  else none

/-- `ValidateBasic()`.  `MsgCreateProposal.ValidateBasic` loops over the proposal's
messages and returns `nil` on the first one that fails and `nil` after the loop, so it is
`nil` whatever the messages are; the messages of a delegated execution are not looked at. -/
def ValidateBasic : Msg → Option Error
  | MsgSend fromAddress toAddress amount => validateSend fromAddress toAddress amount
  | MsgCreateGroup data _ => data.ValidateBasic
  | MsgUpdateGroup _ data => data.ValidateBasic
  | _ => none

end Msg

namespace Capability

/-- `MsgType()`: the empty message of the type the capability is for. -/
def MsgType : Capability → Msg
  | SendCapability _ => .MsgSend [] [] []
  | CapabilityUpdateGroup _ => .MsgUpdateGroup [] ⟨[], 0, "", []⟩

/-- `Accept(msg, block)`: whether the message is allowed, the capability that replaces this
one, and whether this one is to be deleted.  `CapabilityUpdateGroup` panics on a message
that is not a `MsgUpdateGroup`. -/
def Accept (cap : Capability) (msg : Msg) (_block : Header) :
    Except Panic (Bool × Option Capability × Bool) :=
  match cap, msg with
  | SendCapability SpendLimit, .MsgSend _ _ amount =>
    let (left, invalid) := SpendLimit.SafeSub amount
    if invalid then pure (false, none, false)
    else if left.IsZero then pure (true, none, true)
    else pure (true, some (SendCapability left), false)
  | SendCapability _, _ => pure (false, none, false)
  | CapabilityUpdateGroup GroupIDs, .MsgUpdateGroup groupID _ =>
    if groupID ∈ GroupIDs then pure (true, none, false) else pure (false, none, false)
  | CapabilityUpdateGroup _, _ => throw ⟨"Unexpected"⟩

end Capability

namespace FeeAllowance

/-- `BasicFeeAllowance.Accept(fee, block)`. -/
def Accept (allowance : FeeAllowance) (fee : Coins) (_block : Header) :
    Bool × Option FeeAllowance × Bool :=
  match allowance with
  | BasicFeeAllowance SpendLimit =>
    let (left, invalid) := SpendLimit.SafeSub fee
    if invalid then (false, none, false)
    else if left.IsZero then (true, none, true)
    else (true, some (BasicFeeAllowance left), false)

end FeeAllowance

end CosmosSdk
