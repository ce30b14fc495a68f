import CosmosSdk.Delegation.Keeper
import CosmosSdk.Auth.Account

/-!
# The group keeper

`x/group/keeper.go`: a group is an account whose address is `G` and a counter
(`CreateGroup`); its record is stored under `g/<id>` and, for each member, the group's
address under `g/<member>/<id>`.  A proposal of messages for a group is stored twice, under
`p/<proposal id>` and under `p/<group>/<proposal id>` (`storeProposal`); votes change its
approvers (`Vote`), and once the approvers `Authorize` the group its messages are dispatched
with the group as sender (`TryExecute`).

The store is a map from the keys, written as the Go code formats them (as the list of their
ASCII characters, whose order is the byte order of the store), to bytes: the
record of a group and a proposal is amino-encoded, the member index holds the group's raw
address.  The codec is a field of the keeper (`Codec`), as the Go keeper holds its `cdc`:
decoding what was encoded gives it back, and nothing else is assumed of it.  The two
counters are kept apart from the map, under their keys `newGroupID` and `newProposalID`,
which no prefix iteration here reaches.

`Authorize` follows nested groups; a cycle of groups is stopped by the gas meter, which the
model renders as a panic when the recursion runs out of `fuel`.
-/

namespace CosmosSdk.Group

/-- `group.Proposal`. -/
structure Proposal where
  group : AccAddress
  proposer : AccAddress
  msgs : List Msg
  approvers : List AccAddress

/-- The amino codec as the group keeper uses it: `MarshalBinaryBare`, the two ways of
decoding a group, and those of a proposal.  Decoding the encoding gives the value back, and
no proposal decodes from empty bytes. -/
structure Codec where
  MarshalGroup : Group → Bytes
  UnmarshalGroup : Bytes → Except String Group
  UnmarshalGroupLengthPrefixed : Bytes → Except String Group
  MarshalProposal : Proposal → Bytes
  UnmarshalProposal : Bytes → Except String Proposal
  unmarshal_marshal_group : ∀ info, UnmarshalGroup (MarshalGroup info) = .ok info
  unmarshal_marshal_proposal : ∀ p, UnmarshalProposal (MarshalProposal p) = .ok p
  unmarshal_empty : ∀ p, UnmarshalProposal [] ≠ .ok p

/-- The group store. -/
structure State where
  kv : SortedMap (List Char) Bytes
  newGroupID : ℕ
  newProposalID : ℕ

/-- `KeyGroupID`: `g/%x`. -/
def KeyGroupID (id : AccAddress) : List Char := ("g/" ++ hexString id).toList

/-- `KeyGroupIDByMemberAddress`: `g/%x/%x`. -/
def KeyGroupIDByMemberAddress (addr id : AccAddress) : List Char :=
  ("g/" ++ hexString addr ++ "/" ++ hexString id).toList

/-- `KeyProposalsByGroupID`: `p/%x/%x`. -/
def KeyProposalsByGroupID (groupID : AccAddress) (proposalID : ℕ) : List Char :=
  ("p/" ++ hexString groupID ++ "/" ++ hexNat proposalID).toList

/-- `KeyProposal`: `p/%x`. -/
def KeyProposal (id : ℕ) : List Char := ("p/" ++ hexNat id).toList

/-- `KVStorePrefixIterator`: the entries under a prefix, in ascending key order. -/
def prefixEntries (kv : SortedMap (List Char) Bytes) (pre : String) : List (List Char × Bytes) :=
  kv.entries.filter fun e => pre.toList.isPrefixOf e.1

/-- `addrFromUint64`: `G` and the varint of the counter. -/
def addrFromUint64 (id : ℕ) : AccAddress := 71 :: putUvarint id

theorem length_addrFromUint64_le (id : ℕ) : (addrFromUint64 id).length ≤ 11 := by
  have hlen := length_uvarintAux_le 10 id
  rw [addrFromUint64, putUvarint, List.length_cons]
  omega

/-- The group keeper inside an app with state `σ`: its codec, its store, the account keeper's
store, and the delegation keeper that dispatches proposals. -/
structure Keeper (σ : Type) where
  cdc : Codec
  store : σ → State
  setStore : σ → State → σ
  accounts : σ → Auth.State
  setAccounts : σ → Auth.State → σ
  dispatcher : Delegation.Keeper σ
  store_setStore : ∀ ctx st, store (setStore ctx st) = st
  store_setAccounts : ∀ ctx st, store (setAccounts ctx st) = store ctx
  accounts_setAccounts : ∀ ctx st, accounts (setAccounts ctx st) = st
  accounts_setStore : ∀ ctx st, accounts (setStore ctx st) = accounts ctx

namespace Keeper

variable {σ : Type} (k : Keeper σ)

attribute [simp] store_setStore store_setAccounts accounts_setAccounts accounts_setStore

/-- A write of the group store. -/
def set (ctx : σ) (key : List Char) (bz : Bytes) : σ :=
  k.setStore ctx { k.store ctx with kv := (k.store ctx).kv.insert key bz }

/-- A delete from the group store. -/
def delete (ctx : σ) (key : List Char) : σ :=
  k.setStore ctx { k.store ctx with kv := (k.store ctx).kv.erase key }

@[simp] theorem store_set (ctx : σ) (key : List Char) (bz : Bytes) :
    k.store (k.set ctx key bz) = { k.store ctx with kv := (k.store ctx).kv.insert key bz } := by
  simp [set]

@[simp] theorem accounts_set (ctx : σ) (key : List Char) (bz : Bytes) :
    k.accounts (k.set ctx key bz) = k.accounts ctx := by
  simp [set]

@[simp] theorem store_delete (ctx : σ) (key : List Char) :
    k.store (k.delete ctx key) = { k.store ctx with kv := (k.store ctx).kv.erase key } := by
  simp [delete]

/-- `GetGroupInfo`: only an address that starts with `G` is a group. -/
def GetGroupInfo (ctx : σ) (id : AccAddress) : Except Error Group :=
  if id.length < 1 ∨ id.head? ≠ some 71 then throw (.ErrUnknownRequest "Not a valid group")
  else match (k.store ctx).kv.get? (KeyGroupID id) with
    | none => throw (.ErrUnknownRequest "Not found")
    | some bz => match k.cdc.UnmarshalGroup bz with
      | .ok info => pure info
      | .error e => throw (.ErrUnknownRequest e)

/-- `GetGroups`: every entry under `g/`, decoded length-prefixed; a failure panics. -/
def GetGroups (ctx : σ) : Except Panic (List Group) :=
  (prefixEntries (k.store ctx).kv "g/").mapM fun e =>
    match k.cdc.UnmarshalGroupLengthPrefixed e.2 with
    | .ok group => pure group
    | .error msg => throw ⟨msg⟩

/-- `GetGroupsByMemberAddress`: the groups named by the entries under `g/<member>/`; a group
that cannot be read panics. -/
def GetGroupsByMemberAddress (ctx : σ) (memberAddr : AccAddress) : Except Panic (List Group) :=
  (prefixEntries (k.store ctx).kv ("g/" ++ hexString memberAddr ++ "/")).mapM fun e =>
    match k.GetGroupInfo ctx e.2 with
    | .ok group => pure group
    | .error err => throw ⟨err.msg⟩

/-- `GetProposalsByGroupID`: the entries under `p/<group>/`, decoded; a failure panics. -/
def GetProposalsByGroupID (ctx : σ) (groupID : AccAddress) : Except Panic (List Proposal) :=
  (prefixEntries (k.store ctx).kv ("p/" ++ hexString groupID ++ "/")).mapM fun e =>
    match k.cdc.UnmarshalProposal e.2 with
    | .ok proposal => pure proposal
    | .error msg => throw ⟨msg⟩

/-- `getNewGroupId`: the counter's address, the counter advanced. -/
def getNewGroupId (ctx : σ) : AccAddress × σ :=
  let groupId := (k.store ctx).newGroupID
  (addrFromUint64 groupId, k.setStore ctx { k.store ctx with newGroupID := groupId + 1 })

/-- `setGroupInfo`: the record, bare-encoded, under `g/<id>`. -/
def setGroupInfo (ctx : σ) (id : AccAddress) (info : Group) : σ :=
  k.set ctx (KeyGroupID id) (k.cdc.MarshalGroup info)

/-- `UpdateGroupInfo`: the record rewritten; the member index is left as it is. -/
def UpdateGroupInfo (ctx : σ) (id : AccAddress) (info : Group) : σ :=
  k.setGroupInfo ctx id info

/-- `CreateGroup`: a new address, the record, a group account (a `BaseAccount` with only its
address, so account number 0), and the member index.  The writes made before an error stay
in the state; the error makes the transaction's messages fail. -/
def CreateGroup (ctx : σ) (info : Group) : Except Error AccAddress × σ :=
  let (id, ctx) := k.getNewGroupId ctx
  let info := { info with id := id }
  let ctx := k.setGroupInfo ctx id info
  let acct : Auth.Account := .group { address := id }
  if (k.accounts ctx).GetAccount id ≠ none then
    (.error (.ErrUnknownRequest ("account with address " ++ hexString id ++ " already exists")), ctx)
  else
    let ctx := k.setAccounts ctx ((k.accounts ctx).SetAccount acct)
    let ctx := info.members.foldl (fun ctx member =>
      k.set ctx (KeyGroupIDByMemberAddress member.address id) id) ctx
    (.ok id, ctx)

/-- `AuthorizeGroupInfo`, with `authorize` for the nested `Authorize` of a member: the weights
of the members that signed, directly or as a group the signers authorize, are added up in
member order until they reach the threshold. -/
def AuthorizeGroupInfo (authorize : AccAddress → Except Panic Bool) (info : Group)
    (signers : List AccAddress) : Except Panic Bool :=
  go info.members 0
where
  /-- The inner loop over the signers: `bytes.Compare(mem.Address, signers[j]) == 0 ||
  keeper.Authorize(ctx, mem.Address, signers)`, until one holds. -/
  signedBy (mem : Member) : List AccAddress → Except Panic Bool
    | [] => pure false
    | signer :: rest =>
      if mem.address = signer then pure true
      else do
        let b ← authorize mem.address
        if b then pure true else signedBy mem rest
  /-- The outer loop over the members, with the votes counted so far. -/
  go : List Member → ℤ → Except Panic Bool
    | [], _ => pure false
    | mem :: members, voteCount => do
      let signed ← signedBy mem signers
      if signed then
        let voteCount := voteCount + mem.weight
        if 0 ≤ voteCount - info.decisionThreshold then pure true else go members voteCount
      else go members voteCount

/-- `Authorize`: an address that is not a readable group authorizes nothing. -/
def Authorize (ctx : σ) : ℕ → AccAddress → List AccAddress → Except Panic Bool
  | 0, _, _ => throw ⟨"out of gas in location: group auth"⟩
  | fuel + 1, group, signers =>
    match k.GetGroupInfo ctx group with
    | .error _ => pure false
    | .ok info => AuthorizeGroupInfo (fun addr => Authorize ctx fuel addr signers) info signers

/-- `getNewProposalId`. -/
def getNewProposalId (ctx : σ) : ℕ × σ :=
  let id := (k.store ctx).newProposalID
  (id, k.setStore ctx { k.store ctx with newProposalID := id + 1 })

/-- `storeProposal`: the proposal under its id and under its group. -/
def storeProposal (ctx : σ) (id : ℕ) (proposal : Proposal) : σ :=
  let bz := k.cdc.MarshalProposal proposal
  let ctx := k.set ctx (KeyProposal id) bz
  k.set ctx (KeyProposalsByGroupID proposal.group id) bz

/-- `Propose`: the proposer is the first approver. -/
def Propose (ctx : σ) (proposer group : AccAddress) (msgs : List Msg) : ℕ × Result × σ :=
  let (id, ctx) := k.getNewProposalId ctx
  let prop : Proposal := { group, proposer, msgs, approvers := [proposer] }
  (id, {}, k.storeProposal ctx id prop)

/-- `GetProposal`: a missing proposal reads as empty bytes, which do not decode. -/
def GetProposal (ctx : σ) (id : ℕ) : Except Error Proposal :=
  match k.cdc.UnmarshalProposal (((k.store ctx).kv.get? (KeyProposal id)).getD []) with
  | .ok proposal => pure proposal
  | .error msg => throw (.ErrUnknownRequest msg)

/-- The approvers after a vote: a yes vote is appended unless already there, a no vote is
removed, and must have been there exactly once. -/
def newVotes (votes : List AccAddress) (voter : AccAddress) (yesNo : Bool) :
    Except Panic (Except Result (List AccAddress)) :=
  if yesNo then
    if voter ∈ votes then pure (.error { code := .UnknownRequest, log := "already voted yes" })
    else pure (.ok (votes ++ [voter]))
  else
    let others := votes.filter (· ≠ voter)
    if voter ∉ votes then pure (.error { code := .UnknownRequest, log := "didn't vote yes previously" })
    else if others.length ≠ votes.length - 1 then throw ⟨"unexpected vote count"⟩
    else pure (.ok others)

/-- `Vote`: the proposal is rebuilt from its proposer, its messages and the new approvers,
and stored again. -/
def Vote (ctx : σ) (proposalId : ℕ) (voter : AccAddress) (yesNo : Bool) :
    Except Panic (Result × σ) :=
  match k.GetProposal ctx proposalId with
  | .error _ => pure ({ code := .UnknownRequest, log := "can't find proposal" }, ctx)
  | .ok proposal => do
    match ← newVotes proposal.approvers voter yesNo with
    | .error res => pure (res, ctx)
    | .ok approvers =>
      -- the `Proposal` literal of the Go code sets `Proposer`, `Msgs` and `Approvers`
      let newProp : Proposal :=
        { group := [], proposer := proposal.proposer, msgs := proposal.msgs, approvers }
      pure ({}, k.storeProposal ctx proposalId newProp)

/-- `TryExecute`: the approvers must authorize the proposal's group; its messages are then
dispatched with the group as sender, and on success the proposal is deleted under its id. -/
def TryExecute (ctx : σ) (fuel : ℕ) (hdr : Header) (proposalId : ℕ) :
    Except Panic (Result × σ) :=
  match k.GetProposal ctx proposalId with
  | .error _ => pure ((Error.ErrUnknownRequest "can't find proposal").Result, ctx)
  | .ok proposal => do
    let authorized ← k.Authorize ctx fuel proposal.group proposal.approvers
    if !authorized then pure ((Error.ErrUnauthorized "proposal failed").Result, ctx)
    else do
      let (res, ctx) ← k.dispatcher.DispatchActions hdr proposal.group ctx {} proposal.msgs
      if res.code = .OK then pure (res, k.delete ctx (KeyProposal proposalId))
      else pure (res, ctx)

/-- `Withdraw`: only by the proposer; the proposal is deleted under its id. -/
def Withdraw (ctx : σ) (proposalId : ℕ) (proposer : AccAddress) : Result × σ :=
  match k.GetProposal ctx proposalId with
  | .error _ => ({ code := .UnknownRequest, log := "can't find proposal" }, ctx)
  | .ok proposal =>
    if proposer ≠ proposal.proposer then
      ({ code := .Unauthorized, log := "you didn't propose this" }, ctx)
    else ({}, k.delete ctx (KeyProposal proposalId))

end Keeper

end CosmosSdk.Group
