import CosmosSdk.Gov.Store
import CosmosSdk.Staking.Supply

/-!
# The tally

`tally.go`: the bonded validators are read from the staking keeper into the map
`currValidators`.  Each vote on the proposal is then read: a validator's vote is recorded on
its entry; any other voter's vote counts, for each of its delegations to a validator of the
map, the fraction of that validator's tokens its shares stand for, and deducts the shares
from the validator.  Each vote is deleted as it is read.  Last, each validator that voted
counts the fraction of its tokens left after the deductions.

The staking keeper's side is `IterateBondedValidatorsByPower`, which walks the power index
from the highest key down, and `IterateDelegations` over a delegator's delegations
(`alias_functions.go`), as the lists of what they hand to their callbacks.

Go's map `results` has an entry for each of the four options; an addition to the entry of
another option reads the zero `Dec`, whose integer is nil, and panics (`Results.add`).  The
loop over `currValidators` is in the order of the map's keys here and in no fixed order in
Go; it only adds.
-/

namespace CosmosSdk

namespace Staking.State

variable (s : Staking.State)

/-- `IterateBondedValidatorsByPower`, as the validators it hands to its callback: the power
index from its highest key down, the bonded validators among the first `MaxValidators`
bonded ones.  A key whose validator is not stored panics in `mustGetValidator`. -/
def IterateBondedValidatorsByPower : Except Panic (List Validator) :=
  go 0 s.validatorsByPower.entries.reverse
where
  /-- The loop, with the count `i` of the bonded validators handed over so far. -/
  go (i : ℕ) : List (Bytes × ValAddress) → Except Panic (List Validator)
    | [] => pure []
    | (_, address) :: rest =>
      if i < s.params.maxValidators then
        match s.GetValidator address with
        | none => throw ⟨"validator record not found for address: %X\n"⟩
        | some validator =>
          if validator.IsBonded then (validator :: ·) <$> go (i + 1) rest else go i rest
      else pure []

/-- `IterateDelegations`, as the delegations it hands to its callback: those under the
delegator's prefix, in the order of their validators. -/
def IterateDelegations (delAddr : AccAddress) : List Delegation :=
  (s.delegations.entries.filter fun e => (ofLex e.1).1 = delAddr).map Prod.snd

end Staking.State

namespace Gov

/-- `validatorGovInfo`. -/
structure validatorGovInfo where
  address : ValAddress
  bondedTokens : ℤ
  delegatorShares : Dec
  delegatorDeductions : Dec
  vote : VoteOption
  deriving DecidableEq, Repr

/-- The map `results` of `tally`, with its four entries. -/
structure Results where
  yes : Dec
  abstain : Dec
  no : Dec
  noWithVeto : Dec
  deriving DecidableEq, Repr

namespace Results

/-- The four entries at `sdk.ZeroDec()`. -/
def zero : Results := ⟨0, 0, 0, 0⟩

/-- `results[option] = results[option].Add(votingPower)`. -/
def add (r : Results) (option : VoteOption) (votingPower : Dec) : Except Panic Results :=
  match option with
  | .OptionYes => pure { r with yes := r.yes + votingPower }
  | .OptionAbstain => pure { r with abstain := r.abstain + votingPower }
  | .OptionNo => pure { r with no := r.no + votingPower }
  | .OptionNoWithVeto => pure { r with noWithVeto := r.noWithVeto + votingPower }
  | .OptionEmpty => throw ⟨"runtime error: invalid memory address or nil pointer dereference"⟩

end Results

/-- `NewTallyResultFromMap`: each entry truncated to an integer. -/
def NewTallyResultFromMap (results : Results) : TallyResult :=
  ⟨results.yes.truncateInt, results.abstain.truncateInt, results.no.truncateInt,
    results.noWithVeto.truncateInt⟩

/-- What the loop over the votes carries: the store, whose votes it deletes, the map
`currValidators`, the sums and their total. -/
structure TallyAcc where
  s : State
  currValidators : SortedMap ValAddress validatorGovInfo
  results : Results
  totalVotingPower : Dec

/-- The entry of `currValidators` for a bonded validator, before any vote. -/
def newValidatorGovInfo (validator : Staking.Validator) : validatorGovInfo :=
  ⟨validator.operatorAddress, validator.bondedTokens, validator.delegatorShares, 0, .OptionEmpty⟩

/-- One delegation of a voter who is not a validator: a delegation to a validator of the map
counts the fraction of its tokens the shares stand for, and deducts the shares from it. -/
def tallyDelegation (option : VoteOption) (acc : TallyAcc) (delegation : Staking.Delegation) :
    Except Panic TallyAcc :=
  match acc.currValidators.get? delegation.validatorAddress with
  | none => pure acc
  | some val => do
    let val := { val with delegatorDeductions := val.delegatorDeductions + delegation.shares }
    let delegatorShare ← delegation.shares.quo val.delegatorShares
    let votingPower := delegatorShare.mulInt val.bondedTokens
    let results ← acc.results.add option votingPower
    pure { acc with
      currValidators := acc.currValidators.insert delegation.validatorAddress val
      results := results
      totalVotingPower := acc.totalVotingPower + votingPower }

/-- One vote: a validator's is recorded on its entry, any other voter's counts through its
delegations; the vote is deleted. -/
def tallyVote (sk : Staking.State) (acc : TallyAcc) (vote : Vote) : Except Panic TallyAcc := do
  let acc ← (match acc.currValidators.get? vote.voter with
    | some val =>
      pure { acc with currValidators := acc.currValidators.insert vote.voter { val with vote := vote.option } }
    | none => (sk.IterateDelegations vote.voter).foldlM (tallyDelegation vote.option) acc)
  pure { acc with s := acc.s.deleteVote vote.proposalID vote.voter }

/-- One validator in the last loop: one that voted counts the fraction of its tokens left
after its delegators' deductions. -/
def tallyValidator (acc : Results × Dec) (val : validatorGovInfo) : Except Panic (Results × Dec) :=
  if val.vote = .OptionEmpty then pure acc
  else do
    let sharesAfterDeductions := val.delegatorShares - val.delegatorDeductions
    let fractionAfterDeductions ← sharesAfterDeductions.quo val.delegatorShares
    let votingPower := fractionAfterDeductions.mulInt val.bondedTokens
    let results ← acc.1.add val.vote votingPower
    pure (results, acc.2 + votingPower)

/-- The loops of `tally`: the sums of the options, their total `totalVotingPower`, and the
store without the proposal's votes. -/
def tallyVotingPower (s : State) (sk : Staking.State) (proposal : Proposal) :
    Except Panic (Results × Dec × State) := do
  let validators ← sk.IterateBondedValidatorsByPower
  let currValidators := validators.foldl
    (fun m validator => m.insert validator.operatorAddress (newValidatorGovInfo validator)) ∅
  let acc ← (s.GetVotes proposal.proposalID).foldlM (tallyVote sk) ⟨s, currValidators, Results.zero, 0⟩
  let (results, totalVotingPower) ←
    acc.currValidators.entries.foldlM (fun r e => tallyValidator r e.2)
      (acc.results, acc.totalVotingPower)
  pure (results, totalVotingPower, acc.s)

/-- The decision of `tally` from the sums: whether the proposal passes, and whether its
deposits are burned. -/
def tallyOutcome (tallyParams : TallyParams) (totalBondedTokens : ℤ) (results : Results)
    (totalVotingPower : Dec) : Except Panic (Bool × Bool) := do
  -- no staked tokens: the proposal fails
  if totalBondedTokens = 0 then return (false, false)
  let percentVoting ← totalVotingPower.quo (Dec.ofInt totalBondedTokens)
  if percentVoting < tallyParams.quorum then return (false, true)
  if totalVotingPower - results.abstain = 0 then return (false, false)
  let vetoFraction ← results.noWithVeto.quo totalVotingPower
  if tallyParams.veto < vetoFraction then return (false, true)
  let yesFraction ← results.yes.quo (totalVotingPower - results.abstain)
  if tallyParams.threshold < yesFraction then return (true, false)
  pure (false, false)

/-- `tally`: whether the proposal passes, whether its deposits are burned, the tally result,
and the store without its votes.  `TotalBondedTokens` is the pool's bonded tokens. -/
def tally (s : State) (sk : Staking.State) (tallyParams : TallyParams) (proposal : Proposal) :
    Except Panic (Bool × Bool × TallyResult × State) := do
  let (results, totalVotingPower, s) ← tallyVotingPower s sk proposal
  let tallyResults := NewTallyResultFromMap results
  let (passes, burnDeposits) ←
    tallyOutcome tallyParams sk.pool.bondedTokens results totalVotingPower
  pure (passes, burnDeposits, tallyResults, s)

/-! ### What the tally writes

Only the votes: the loops thread the store through `deleteVote` and nothing else. -/

section Store

variable {s s' : State} {sk : Staking.State}

theorem tallyDelegation_s {option : VoteOption} {acc acc' : TallyAcc}
    {delegation : Staking.Delegation} (h : tallyDelegation option acc delegation = .ok acc') :
    acc'.s = acc.s := by
  unfold tallyDelegation at h
  split at h
  · simp only [Except.pure_eq_ok, Except.ok_inj] at h
    rw [← h]
  · obtain ⟨_, -, h⟩ := Except.bind_eq_ok.mp h
    obtain ⟨_, -, h⟩ := Except.bind_eq_ok.mp h
    simp only [Except.pure_eq_ok, Except.ok_inj] at h
    rw [← h]

theorem tallyVote_s {acc acc' : TallyAcc} {vote : Vote} (h : tallyVote sk acc vote = .ok acc') :
    acc'.s = acc.s.deleteVote vote.proposalID vote.voter := by
  unfold tallyVote at h
  obtain ⟨acc₁, h₁, h⟩ := Except.bind_eq_ok.mp h
  simp only [Except.pure_eq_ok, Except.ok_inj] at h
  -- the vote's own step leaves the store alone
  have hs₁ : acc₁.s = acc.s := by
    split at h₁
    · simp only [Except.pure_eq_ok, Except.ok_inj] at h₁
      rw [← h₁]
    · exact Except.foldlM_invariant (fun a : TallyAcc => a.s = acc.s) _
        (fun _ _ _ _ hb hstep => (tallyDelegation_s hstep).trans hb) acc acc₁ rfl h₁
  rw [← h, hs₁]

theorem tallyVotingPower_s {proposal : Proposal} {results : Results} {total : Dec}
    (h : tallyVotingPower s sk proposal = .ok (results, total, s')) :
    s' = { s with votes := s'.votes } := by
  unfold tallyVotingPower at h
  obtain ⟨validators, -, h⟩ := Except.bind_eq_ok.mp h
  obtain ⟨acc, hacc, h⟩ := Except.bind_eq_ok.mp h
  obtain ⟨_, -, h⟩ := Except.bind_eq_ok.mp h
  simp only [Except.pure_eq_ok, Except.ok_inj, Prod.mk.injEq] at h
  obtain ⟨-, -, rfl⟩ := h
  refine Except.foldlM_invariant (fun a : TallyAcc => a.s = { s with votes := a.s.votes }) _
    (fun a vote a' _ ha hstep => ?_) _ acc rfl hacc
  rw [tallyVote_s hstep, ha]
  rfl

theorem tally_eq_ok {tp : TallyParams} {proposal : Proposal} {passes burnDeposits : Bool}
    {tallyResults : TallyResult}
    (h : tally s sk tp proposal = .ok (passes, burnDeposits, tallyResults, s')) :
    ∃ results total, tallyVotingPower s sk proposal = .ok (results, total, s') ∧
      tallyOutcome tp sk.pool.bondedTokens results total = .ok (passes, burnDeposits) ∧
      tallyResults = NewTallyResultFromMap results := by
  unfold tally at h
  obtain ⟨⟨results, total, s₁⟩, h₁, h⟩ := Except.bind_eq_ok.mp h
  obtain ⟨⟨p, b⟩, h₂, h⟩ := Except.bind_eq_ok.mp h
  simp only [Except.pure_eq_ok, Except.ok_inj, Prod.mk.injEq] at h
  obtain ⟨rfl, rfl, rfl, rfl⟩ := h
  exact ⟨results, total, h₁, h₂, rfl⟩

/-- The tally writes the votes only. -/
theorem tally_store {tp : TallyParams} {proposal : Proposal} {passes burnDeposits : Bool}
    {tallyResults : TallyResult}
    (h : tally s sk tp proposal = .ok (passes, burnDeposits, tallyResults, s')) :
    s' = { s with votes := s'.votes } := by
  obtain ⟨_, _, h₁, -, -⟩ := tally_eq_ok h
  exact tallyVotingPower_s h₁

end Store

end Gov

end CosmosSdk
