import CosmosSdk.Types.Dec
import CosmosSdk.Types.Coins
import CosmosSdk.Types.Result

/-!
# The records of the governance module

`x/gov/types`: a proposal with its status and its deposit, the deposits and the votes on
it, the tally result, the three parameter sets, and the errors of the `gov` codespace.

* A proposal's content is a Go interface; the modelled code reads its route and prints its
  Go type, and `Content` keeps these with its title, description and type.
* `ProposalStatus` and `VoteOption` are the named bytes of the source.  A stored byte outside
  the named ones cannot be written by the modelled code and is not modelled.
* The two special accounts are `crypto.AddressHash` of their names, the first twenty bytes of
  the SHA-256 digest, written out.
-/

namespace CosmosSdk.Gov

/-- `ProposalStatus`. -/
inductive ProposalStatus
  | StatusNil | StatusDepositPeriod | StatusVotingPeriod | StatusPassed | StatusRejected
  | StatusFailed
  deriving DecidableEq, Repr

/-- `VoteOption`. -/
inductive VoteOption
  | OptionEmpty | OptionYes | OptionAbstain | OptionNo | OptionNoWithVeto
  deriving DecidableEq, Repr

/-- `ValidVoteOption`. -/
def ValidVoteOption : VoteOption → Bool
  | .OptionYes | .OptionAbstain | .OptionNo | .OptionNoWithVeto => true
  | .OptionEmpty => false

/-- `TallyResult`. -/
structure TallyResult where
  yes : ℤ
  abstain : ℤ
  no : ℤ
  noWithVeto : ℤ
  deriving DecidableEq, Repr

/-- `EmptyTallyResult`. -/
def EmptyTallyResult : TallyResult := ⟨0, 0, 0, 0⟩

/-- The methods of the `Content` interface that the keeper calls, and the content's Go type
as `%T` prints it. -/
structure Content where
  typeName : String
  title : String
  description : String
  proposalRoute : String
  proposalType : String
  deriving DecidableEq, Repr

/-- `Proposal`. -/
structure Proposal where
  content : Content
  proposalID : ℕ
  status : ProposalStatus
  finalTallyResult : TallyResult
  submitTime : Time
  depositEndTime : Time
  totalDeposit : Coins
  votingStartTime : Time
  votingEndTime : Time
  deriving DecidableEq, Repr

/-- `NewProposal`: in the deposit period, with no deposit and the zero voting times. -/
def NewProposal (content : Content) (id : ℕ) (submitTime depositEndTime : Time) : Proposal where
  content := content
  proposalID := id
  status := .StatusDepositPeriod
  finalTallyResult := EmptyTallyResult
  totalDeposit := []
  submitTime := submitTime
  depositEndTime := depositEndTime
  votingStartTime := zeroTime
  votingEndTime := zeroTime

/-- `Deposit`. -/
structure Deposit where
  proposalID : ℕ
  depositor : AccAddress
  amount : Coins
  deriving DecidableEq, Repr

/-- `NewDeposit`. -/
def NewDeposit (proposalID : ℕ) (depositor : AccAddress) (amount : Coins) : Deposit :=
  ⟨proposalID, depositor, amount⟩

/-- `Vote`. -/
structure Vote where
  proposalID : ℕ
  voter : AccAddress
  option : VoteOption
  deriving DecidableEq, Repr

/-- `NewVote`. -/
def NewVote (proposalID : ℕ) (voter : AccAddress) (option : VoteOption) : Vote :=
  ⟨proposalID, voter, option⟩

/-- `DepositParams`. -/
structure DepositParams where
  minDeposit : Coins
  maxDepositPeriod : Duration
  deriving DecidableEq, Repr

/-- `VotingParams`. -/
structure VotingParams where
  votingPeriod : Duration
  deriving DecidableEq, Repr

/-- `TallyParams`. -/
structure TallyParams where
  quorum : Dec
  threshold : Dec
  veto : Dec
  deriving DecidableEq, Repr

/-- The three parameter sets of the `gov` subspace, as the getters of `keeper.go` read them. -/
structure Params where
  depositParams : DepositParams
  votingParams : VotingParams
  tallyParams : TallyParams
  deriving DecidableEq, Repr

/-- `DepositedCoinsAccAddr`: `crypto.AddressHash([]byte("govDepositedCoins"))`. -/
def DepositedCoinsAccAddr : AccAddress :=
  [15, 105, 77, 220, 238, 227, 27, 40, 75, 62, 4, 71, 63, 201, 145, 45, 134, 136, 247, 32]

/-- `BurnedDepositCoinsAccAddr`: `crypto.AddressHash([]byte("govBurnedDepositCoins"))`. -/
def BurnedDepositCoinsAccAddr : AccAddress :=
  [212, 37, 153, 217, 55, 41, 20, 152, 211, 144, 124, 209, 172, 2, 99, 155, 51, 59, 8, 104]

theorem BurnedDepositCoinsAccAddr_ne : BurnedDepositCoinsAccAddr ≠ DepositedCoinsAccAddr := by
  decide

/-! ### The errors of the `gov` codespace -/

/-- `ErrUnknownProposal`. -/
def ErrUnknownProposal (proposalID : ℕ) : Error :=
  ⟨.module 1, "unknown proposal with id " ++ toString proposalID, by decide⟩

/-- `ErrInactiveProposal`. -/
def ErrInactiveProposal (proposalID : ℕ) : Error :=
  ⟨.module 2, "inactive proposal with id " ++ toString proposalID, by decide⟩

/-- `ErrAlreadyFinishedProposal`. -/
def ErrAlreadyFinishedProposal (proposalID : ℕ) : Error :=
  ⟨.module 4, "proposal " ++ toString proposalID ++ " has already passed its voting period",
    by decide⟩

/-- `ErrInvalidProposalContent`. -/
def ErrInvalidProposalContent (msg : String) : Error :=
  ⟨.module 6, "invalid proposal content: " ++ msg, by decide⟩

/-- `ErrInvalidVote`. -/
def ErrInvalidVote (voteOption : String) : Error :=
  ⟨.module 8, "'" ++ voteOption ++ "' is not a valid voting option", by decide⟩

/-- `ErrInvalidGenesis`: the source gives it the code of `ErrInvalidVote`. -/
def ErrInvalidGenesis (msg : String) : Error := ⟨.module 8, msg, by decide⟩

/-- `ErrNoProposalHandlerExists`, with the content's Go type as `%T` prints it. -/
def ErrNoProposalHandlerExists (contentType : String) : Error :=
  ⟨.module 11, "'" ++ contentType ++ "' does not have a corresponding handler", by decide⟩

/-- `VoteOption.String()`. -/
def VoteOption.String : VoteOption → String
  | .OptionYes => "Yes"
  | .OptionAbstain => "Abstain"
  | .OptionNo => "No"
  | .OptionNoWithVeto => "NoWithVeto"
  | .OptionEmpty => ""

end CosmosSdk.Gov
