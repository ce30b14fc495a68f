import CosmosSdk.Group.Keeper
import CosmosSdk.Lib.Outcome

/-!
# The proposals of a group

A proposal is stored under its id and, as a copy, under its group (`storeProposal`).
`Vote` rebuilds the proposal from its proposer, its messages and the new approvers: the Go
literal leaves `Group` out, so after a successful vote the stored proposal belongs to no
group (`Vote_clears_group`), its new copy is filed under the empty group, and the copy under
its real group keeps the approvers from before the vote (`Vote_leaves_group_copy`).  No
approvers authorize the empty address, so a proposal that has been voted on is never
executed (`TryExecute_group_nil`).
-/

namespace CosmosSdk.Group

/-- The by-group key of a proposal is never its id key: it is longer. -/
theorem KeyProposalsByGroupID_ne_KeyProposal (groupID : AccAddress) (id : ℕ) :
    KeyProposalsByGroupID groupID id ≠ KeyProposal id := by
  intro h
  have hlen := congrArg List.length h
  have hsep : "/".length = 1 := by decide
  simp only [KeyProposalsByGroupID, KeyProposal, String.toList_append, List.length_append,
    String.length_toList] at hlen
  omega

/-- The by-group keys of one proposal id under two groups of different lengths differ. -/
theorem KeyProposalsByGroupID_ne_of_length (groupID groupID' : AccAddress) (id : ℕ)
    (hlen : groupID.length ≠ groupID'.length) :
    KeyProposalsByGroupID groupID id ≠ KeyProposalsByGroupID groupID' id := by
  intro h
  have h' := congrArg List.length h
  simp [KeyProposalsByGroupID, hexString] at h'
  omega

namespace Keeper

variable {σ : Type} (k : Keeper σ)

/-- A stored proposal reads back from its id. -/
theorem GetProposal_storeProposal (ctx : σ) (id : ℕ) (p : Proposal) :
    k.GetProposal (k.storeProposal ctx id p) id = .ok p := by
  have hget : (k.store (k.storeProposal ctx id p)).kv.get? (KeyProposal id) =
      some (k.cdc.MarshalProposal p) := by
    simp [storeProposal]
  simp [GetProposal, hget, k.cdc.unmarshal_marshal_proposal]

/-- A yes vote on a new proposal by anyone but its proposer succeeds and stores the proposal
with no group; the proposer's own vote is refused and changes nothing. -/
theorem Vote_clears_group (ctx : σ) (proposer group : AccAddress) (msgs : List Msg)
    (voter : AccAddress) :
    let (id, _, ctx₁) := k.Propose ctx proposer group msgs
    (do
      let (res, ctx₂) ← k.Vote ctx₁ id voter true
      pure (res.IsOK, k.GetProposal ctx₂ id)) =
      if voter = proposer then .ok (false, .ok { group, proposer, msgs, approvers := [proposer] })
      else .ok (true, .ok { group := [], proposer, msgs, approvers := [proposer, voter] }) := by
  simp only [Propose, Vote, GetProposal_storeProposal, newVotes, if_true, List.mem_singleton]
  split_ifs with h
  · simp [Result.IsOK, GetProposal_storeProposal]
  · simp [GetProposal_storeProposal]

/-- A vote rewrites the proposal under its id and under the empty group only: the copy under
the proposal's own group keeps the approvers from before the vote. -/
theorem Vote_leaves_group_copy {ctx ctx' : σ} {id : ℕ} {voter : AccAddress} {yesNo : Bool}
    {p : Proposal} {res : Result} (hp : k.GetProposal ctx id = .ok p) (hgroup : p.group ≠ [])
    (h : k.Vote ctx id voter yesNo = .ok (res, ctx')) :
    (k.store ctx').kv.get? (KeyProposalsByGroupID p.group id) =
      (k.store ctx).kv.get? (KeyProposalsByGroupID p.group id) := by
  have hne : KeyProposalsByGroupID p.group id ≠ KeyProposalsByGroupID [] id :=
    KeyProposalsByGroupID_ne_of_length _ _ _ (by simpa using hgroup)
  simp only [Vote, hp] at h
  obtain ⟨votes, -, h⟩ := Except.bind_eq_ok.mp h
  cases votes with
  | error r =>
    simp only [Except.pure_eq_ok, Except.ok_inj, Prod.mk.injEq] at h
    rw [← h.2]
  | ok approvers =>
    simp only [Except.pure_eq_ok, Except.ok_inj, Prod.mk.injEq] at h
    rw [← h.2]
    simp [storeProposal, hne, KeyProposalsByGroupID_ne_KeyProposal]

/-- No approvers authorize the empty address: it is not a group. -/
theorem Authorize_nil (ctx : σ) (fuel : ℕ) (signers : List AccAddress) :
    k.Authorize ctx (fuel + 1) [] signers = pure false := by
  simp [Authorize, GetGroupInfo]

/-- A proposal that belongs to no group is refused by `TryExecute`, which changes nothing. -/
theorem TryExecute_group_nil {ctx : σ} {id : ℕ} {p : Proposal} (hp : k.GetProposal ctx id = .ok p)
    (hgroup : p.group = []) (fuel : ℕ) (hdr : Header) :
    k.TryExecute ctx (fuel + 1) hdr id = pure ((Error.ErrUnauthorized "proposal failed").Result, ctx) := by
  simp [TryExecute, hp, hgroup, Authorize_nil]

end Keeper

end CosmosSdk.Group
