import CosmosSdk.Gov.Types
import CosmosSdk.Bank.Keeper
import Mathlib.Data.Prod.Lex

/-!
# The governance store

The state the governance keeper reads and writes: one sorted map per key prefix of its store
(`types/keys.go`), the proposal counter, and the accounts of the bank keeper, through which
the deposits move.

* A proposal is keyed by its id.  A deposit and a vote are keyed by the proposal's id, then
  the address: the prefix iterators `GetDepositsIterator` and `GetVotesIterator` list one
  proposal's records in the order of their addresses, which is the order of the filters
  below.
* A queue entry is keyed by an end time, then the proposal's id, and holds the id.  The
  source writes the time with `sdk.FormatTimeBytes`, whose byte order is the order of the
  times for the years 0 to 9999 that it writes in a fixed width; the model keys by the time
  itself.  Within one end time the source orders the ids by their little-endian bytes; no
  modelled property depends on that order, and the model orders them as numbers.
* The counter `ProposalIDKey` is absent until the genesis sets it.
-/

namespace CosmosSdk.Gov

/-- The key of a deposit or a vote: the proposal's id, then the address. -/
abbrev PairKey := ℕ ×ₗ AccAddress

/-- The key of a queue entry: the end time, then the proposal's id. -/
abbrev QueueKey := Time ×ₗ ℕ

/-- The governance store, and the accounts it moves deposits between. -/
structure State where
  bank : Auth.State
  proposals : SortedMap ℕ Proposal
  deposits : SortedMap PairKey Deposit
  votes : SortedMap PairKey Vote
  activeProposalQueue : SortedMap QueueKey ℕ
  inactiveProposalQueue : SortedMap QueueKey ℕ
  proposalID : Option ℕ

namespace State

variable (s : State)

/-! ### Proposals -/

/-- `GetProposal`. -/
def GetProposal (proposalID : ℕ) : Option Proposal := s.proposals.get? proposalID

/-- `SetProposal`. -/
@[simps] def SetProposal (proposal : Proposal) : State :=
  { s with proposals := s.proposals.insert proposal.proposalID proposal }

/-- `GetProposalID`. -/
def GetProposalID : Except Error ℕ :=
  match s.proposalID with
  | some proposalID => pure proposalID
  | none => throw (ErrInvalidGenesis "initial proposal ID hasn't been set")

/-- `setProposalID`. -/
@[simps] def setProposalID (proposalID : ℕ) : State := { s with proposalID := some proposalID }

/-! ### The queues -/

/-- `InsertActiveProposalQueue`. -/
@[simps] def InsertActiveProposalQueue (proposalID : ℕ) (endTime : Time) : State :=
  { s with activeProposalQueue := s.activeProposalQueue.insert (toLex (endTime, proposalID)) proposalID }

/-- `RemoveFromActiveProposalQueue`. -/
@[simps] def RemoveFromActiveProposalQueue (proposalID : ℕ) (endTime : Time) : State :=
  { s with activeProposalQueue := s.activeProposalQueue.erase (toLex (endTime, proposalID)) }

/-- `InsertInactiveProposalQueue`. -/
@[simps] def InsertInactiveProposalQueue (proposalID : ℕ) (endTime : Time) : State :=
  { s with
    inactiveProposalQueue := s.inactiveProposalQueue.insert (toLex (endTime, proposalID)) proposalID }

/-- `RemoveFromInactiveProposalQueue`. -/
@[simps] def RemoveFromInactiveProposalQueue (proposalID : ℕ) (endTime : Time) : State :=
  { s with inactiveProposalQueue := s.inactiveProposalQueue.erase (toLex (endTime, proposalID)) }

@[simp] theorem GetProposal_SetProposal (p : Proposal) (id : ℕ) :
    (s.SetProposal p).GetProposal id = if id = p.proposalID then some p else s.GetProposal id := by
  simp [GetProposal, SetProposal]

@[simp] theorem GetProposal_setProposalID (n id : ℕ) :
    (s.setProposalID n).GetProposal id = s.GetProposal id := rfl

@[simp] theorem GetProposal_InsertActiveProposalQueue (proposalID : ℕ) (endTime : Time) (id : ℕ) :
    (s.InsertActiveProposalQueue proposalID endTime).GetProposal id = s.GetProposal id := rfl

@[simp] theorem GetProposal_RemoveFromActiveProposalQueue (proposalID : ℕ) (endTime : Time) (id : ℕ) :
    (s.RemoveFromActiveProposalQueue proposalID endTime).GetProposal id = s.GetProposal id := rfl

@[simp] theorem GetProposal_InsertInactiveProposalQueue (proposalID : ℕ) (endTime : Time) (id : ℕ) :
    (s.InsertInactiveProposalQueue proposalID endTime).GetProposal id = s.GetProposal id := rfl

@[simp] theorem GetProposal_RemoveFromInactiveProposalQueue (proposalID : ℕ) (endTime : Time)
    (id : ℕ) : (s.RemoveFromInactiveProposalQueue proposalID endTime).GetProposal id =
      s.GetProposal id := rfl

/-- The keys `ActiveProposalQueueIterator` visits at `endTime`: those up to the end of the
time's prefix, that is of end times not after it. -/
def ActiveProposalQueueKeys (endTime : Time) : List QueueKey :=
  (s.activeProposalQueue.entries.filter fun e => (ofLex e.1).1 ≤ endTime).map Prod.fst

/-- The keys `InactiveProposalQueueIterator` visits at `endTime`. -/
def InactiveProposalQueueKeys (endTime : Time) : List QueueKey :=
  (s.inactiveProposalQueue.entries.filter fun e => (ofLex e.1).1 ≤ endTime).map Prod.fst

/-- `DeleteProposal`: the proposal's entries in both queues go with it. -/
def DeleteProposal (proposalID : ℕ) : Except Panic State :=
  match s.GetProposal proposalID with
  | none => throw ⟨"couldn't find proposal with id#" ++ toString proposalID⟩
  | some proposal =>
    let s := s.RemoveFromInactiveProposalQueue proposalID proposal.depositEndTime
    let s := s.RemoveFromActiveProposalQueue proposalID proposal.votingEndTime
    pure { s with proposals := s.proposals.erase proposalID }

/-! ### Deposits and votes -/

/-- `GetDeposit`. -/
def GetDeposit (proposalID : ℕ) (depositorAddr : AccAddress) : Option Deposit :=
  s.deposits.get? (toLex (proposalID, depositorAddr))

/-- `setDeposit`. -/
def setDeposit (proposalID : ℕ) (depositorAddr : AccAddress) (deposit : Deposit) : State :=
  { s with deposits := s.deposits.insert (toLex (proposalID, depositorAddr)) deposit }

/-- `GetDeposits`: the deposits under the proposal's prefix, in the order of the depositors. -/
def GetDeposits (proposalID : ℕ) : List Deposit :=
  (s.deposits.entries.filter fun e => (ofLex e.1).1 = proposalID).map Prod.snd

/-- `GetVote`. -/
def GetVote (proposalID : ℕ) (voterAddr : AccAddress) : Option Vote :=
  s.votes.get? (toLex (proposalID, voterAddr))

/-- `setVote`. -/
def setVote (proposalID : ℕ) (voterAddr : AccAddress) (vote : Vote) : State :=
  { s with votes := s.votes.insert (toLex (proposalID, voterAddr)) vote }

/-- `deleteVote`. -/
def deleteVote (proposalID : ℕ) (voterAddr : AccAddress) : State :=
  { s with votes := s.votes.erase (toLex (proposalID, voterAddr)) }

/-- `GetVotes`: the votes under the proposal's prefix, in the order of the voters. -/
def GetVotes (proposalID : ℕ) : List Vote :=
  (s.votes.entries.filter fun e => (ofLex e.1).1 = proposalID).map Prod.snd

end State

end CosmosSdk.Gov
