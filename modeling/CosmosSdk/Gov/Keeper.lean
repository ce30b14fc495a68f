import CosmosSdk.Gov.Tally

/-!
# The governance keeper and its state machine

`proposal.go`, `deposit.go`, `vote.go`, `endblocker.go` and `handler.go`: a proposal is
submitted into the inactive queue, keyed by the end of its deposit period; deposits move
coins from the depositor to `DepositedCoinsAccAddr` and, once they reach the minimum, move
the proposal to the active queue, keyed by the end of its voting period.  At the end of a
block the proposals whose deposit period ended are deleted and their deposits burned, and
those whose voting period ended are tallied, their deposits refunded or burned.

* The proposal router is sealed when the keeper is made, so the model takes it as fixed.  A
  handler's effects outside the governance store are not modelled, its answer is.
* The parameters are read from the parameter store at each call, and a passed parameter
  change can rewrite them; the model takes them as an argument of each step.  So are the
  header and the staking keeper's state that the tally reads.
* A message reaches its handler only once a signature of its signer verified, and the
  signer's address is then the address of a key: never `DepositedCoinsAccAddr`, a hash of a
  fixed string (`Action.Admitted`).  A handler's error aborts the transaction, whose writes
  the `BaseApp` drops: `Step` is taken on success only.
* The iterators of the end blocker walk the keys present when they are made; the writes of
  the loop bodies are not seen by them, so the model walks a list of those keys.
-/

namespace CosmosSdk.Gov

/-- A proposal handler: `nil`, or the error it returns for a content. -/
abbrev Handler := Content → Option Error

/-- The proposal router: the handler of each registered route. -/
structure Router where
  routes : String → Option Handler

namespace Router

/-- `HasRoute`. -/
def HasRoute (rtr : Router) (path : String) : Bool := (rtr.routes path).isSome

/-- `GetRoute`: a route not registered panics. -/
def GetRoute (rtr : Router) (path : String) : Except Panic Handler :=
  match rtr.routes path with
  | some handler => pure handler
  | none => throw ⟨"route " ++ path ++ " does not exist"⟩

end Router

/-- An error of the bank keeper inside the end blocker, where the source panics with it. -/
def panicOnErr {α : Type} : Except Abort α → Except Panic α
  | .ok a => pure a
  | .error (.err e) => throw ⟨e.msg⟩
  | .error (.panic p) => throw p

namespace State

variable (s : State) (hdr : Header) (params : Params)

/-! ### Proposals and deposits -/

/-- `SubmitProposal`: the content must have a route whose handler accepts it, on a cache of
the store that is then dropped. -/
def SubmitProposal (router : Router) (content : Content) : Except Abort (Proposal × State) := do
  let some handler := router.routes content.proposalRoute
    | throw (.err (ErrNoProposalHandlerExists content.typeName))
  if let some err := handler content then
    throw (.err (ErrInvalidProposalContent err.Result.log))
  let proposalID ← match s.GetProposalID with
    | .ok proposalID => pure proposalID
    | .error err => throw (.err err)
  let submitTime := hdr.time
  let depositPeriod := params.depositParams.maxDepositPeriod
  let proposal := NewProposal content proposalID submitTime (submitTime + depositPeriod)
  let s := s.SetProposal proposal
  let s := s.InsertInactiveProposalQueue proposalID proposal.depositEndTime
  let s := s.setProposalID (proposalID + 1)
  pure (proposal, s)

/-- `activateVotingPeriod`: the proposal moves from the inactive queue to the active one. -/
def activateVotingPeriod (proposal : Proposal) : State :=
  let proposal := { proposal with
    votingStartTime := hdr.time
    votingEndTime := hdr.time + params.votingParams.votingPeriod
    status := .StatusVotingPeriod }
  let s := s.SetProposal proposal
  let s := s.RemoveFromInactiveProposalQueue proposal.proposalID proposal.depositEndTime
  s.InsertActiveProposalQueue proposal.proposalID proposal.votingEndTime

/-- The last block of `AddDeposit`: the depositor's record, with the amount added to the
stored one or new. -/
def addDepositRecord (proposalID : ℕ) (depositorAddr : AccAddress) (depositAmount : Coins) :
    State :=
  let deposit := match s.GetDeposit proposalID depositorAddr with
    | some deposit => { deposit with amount := deposit.amount.Add depositAmount }
    | none => NewDeposit proposalID depositorAddr depositAmount
  s.setDeposit proposalID depositorAddr deposit

/-- `AddDeposit`: the coins go to `DepositedCoinsAccAddr`, onto the proposal's total and the
depositor's record; whether the voting period started is returned. -/
def AddDeposit (proposalID : ℕ) (depositorAddr : AccAddress) (depositAmount : Coins) :
    Except Abort (State × Bool) := do
  let some proposal := s.GetProposal proposalID | throw (.err (ErrUnknownProposal proposalID))
  if proposal.status ≠ .StatusDepositPeriod ∧ proposal.status ≠ .StatusVotingPeriod then
    throw (.err (ErrAlreadyFinishedProposal proposalID))
  let bank ← Bank.sendCoins s.bank hdr depositorAddr DepositedCoinsAccAddr depositAmount
  let s := { s with bank := bank }
  let proposal := { proposal with totalDeposit := proposal.totalDeposit.Add depositAmount }
  let s := s.SetProposal proposal
  let activatedVotingPeriod := proposal.status == .StatusDepositPeriod &&
    proposal.totalDeposit.IsAllGTE params.depositParams.minDeposit
  let s := if activatedVotingPeriod then s.activateVotingPeriod hdr params proposal else s
  pure (s.addDepositRecord proposalID depositorAddr depositAmount, activatedVotingPeriod)

/-- The loop of `RefundDeposits` and `DeleteDeposits` over the proposal's deposits: each is
sent from `DepositedCoinsAccAddr` to its `recipient`, and deleted. -/
def releaseDeposits (recipient : Deposit → AccAddress) (proposalID : ℕ) : Except Panic State :=
  (s.GetDeposits proposalID).foldlM (fun s deposit => do
    let bank ← panicOnErr
      (Bank.sendCoins s.bank hdr DepositedCoinsAccAddr (recipient deposit) deposit.amount)
    pure { s with
      bank := bank
      deposits := s.deposits.erase (toLex (proposalID, deposit.depositor)) }) s

/-- `RefundDeposits`: each deposit goes back to its depositor. -/
def RefundDeposits (proposalID : ℕ) : Except Panic State :=
  s.releaseDeposits hdr Deposit.depositor proposalID

/-- `DeleteDeposits`: each deposit goes to `BurnedDepositCoinsAccAddr`. -/
def DeleteDeposits (proposalID : ℕ) : Except Panic State :=
  s.releaseDeposits hdr (fun _ => BurnedDepositCoinsAccAddr) proposalID

/-- `AddVote`. -/
def AddVote (proposalID : ℕ) (voterAddr : AccAddress) (option : VoteOption) :
    Except Error State := do
  let some proposal := s.GetProposal proposalID | throw (ErrUnknownProposal proposalID)
  if proposal.status ≠ .StatusVotingPeriod then throw (ErrInactiveProposal proposalID)
  if !ValidVoteOption option then throw (ErrInvalidVote option.String)
  pure (s.setVote proposalID voterAddr (NewVote proposalID voterAddr option))

end State

/-! ### The end blocker -/

/-- A pair of tags of the end blocker: `proposal-id` and `proposal-result`. -/
abbrev ResultTag := ℕ × String

/-- One key of the inactive queue: the proposal is deleted and its deposits burned. -/
def dropInactive (hdr : Header) (acc : State × List ResultTag) (key : QueueKey) :
    Except Panic (State × List ResultTag) := do
  let proposalID := (ofLex key).2
  let some proposal := acc.1.GetProposal proposalID
    | throw ⟨"proposal " ++ toString proposalID ++ " does not exist"⟩
  let s ← acc.1.DeleteProposal proposal.proposalID
  let s ← s.DeleteDeposits hdr proposal.proposalID
  pure (s, acc.2 ++ [(proposal.proposalID, "proposal-dropped")])

/-- One key of the active queue: the proposal is tallied, its deposits refunded or burned,
and its handler run if it passed. -/
def tallyActive (hdr : Header) (params : Params) (router : Router) (sk : Staking.State)
    (acc : State × List ResultTag) (key : QueueKey) : Except Panic (State × List ResultTag) := do
  let proposalID := (ofLex key).2
  let some proposal := acc.1.GetProposal proposalID
    | throw ⟨"proposal " ++ toString proposalID ++ " does not exist"⟩
  let (passes, burnDeposits, tallyResults, s) ← tally acc.1 sk params.tallyParams proposal
  let s ← (if burnDeposits then s.DeleteDeposits hdr proposal.proposalID
    else s.RefundDeposits hdr proposal.proposalID)
  let (status, tagValue) ← (if passes then do
      let handler ← router.GetRoute proposal.content.proposalRoute
      -- the handler runs on a cache of the store, written back only on success
      match handler proposal.content with
      | none => pure (ProposalStatus.StatusPassed, "proposal-passed")
      | some _ => pure (.StatusFailed, "proposal-failed")
    else pure (.StatusRejected, "proposal-rejected"))
  let proposal := { proposal with status := status, finalTallyResult := tallyResults }
  let s := s.SetProposal proposal
  let s := s.RemoveFromActiveProposalQueue proposal.proposalID proposal.votingEndTime
  pure (s, acc.2 ++ [(proposal.proposalID, tagValue)])

/-- `EndBlocker`: the state and the result tags. -/
def EndBlocker (s : State) (hdr : Header) (params : Params) (router : Router)
    (sk : Staking.State) : Except Panic (State × List ResultTag) := do
  let acc ← (s.InactiveProposalQueueKeys hdr.time).foldlM (dropInactive hdr) (s, [])
  (acc.1.ActiveProposalQueueKeys hdr.time).foldlM (tallyActive hdr params router sk) acc

/-! ### Messages and the state machine -/

/-- `MsgSubmitProposal`. -/
structure MsgSubmitProposal where
  content : Content
  initialDeposit : Coins
  proposer : AccAddress
  deriving DecidableEq, Repr

/-- `MsgDeposit`. -/
structure MsgDeposit where
  proposalID : ℕ
  depositor : AccAddress
  amount : Coins
  deriving DecidableEq, Repr

/-- `MsgVote`. -/
structure MsgVote where
  proposalID : ℕ
  voter : AccAddress
  option : VoteOption
  deriving DecidableEq, Repr

namespace State

variable (s : State) (hdr : Header) (params : Params)

/-- `handleMsgSubmitProposal`: the proposal, then the proposer's initial deposit on it. -/
def handleMsgSubmitProposal (router : Router) (msg : MsgSubmitProposal) : Except Abort State := do
  let (proposal, s) ← s.SubmitProposal hdr params router msg.content
  let (s, _) ← s.AddDeposit hdr params proposal.proposalID msg.proposer msg.initialDeposit
  pure s

/-- `handleMsgDeposit`. -/
def handleMsgDeposit (msg : MsgDeposit) : Except Abort State := do
  let (s, _) ← s.AddDeposit hdr params msg.proposalID msg.depositor msg.amount
  pure s

/-- `handleMsgVote`. -/
def handleMsgVote (msg : MsgVote) : Except Abort State :=
  match s.AddVote msg.proposalID msg.voter msg.option with
  | .ok s => pure s
  | .error err => throw (.err err)

end State

/-- What can happen to the governance store and the accounts: the three messages of the
module, a bank transfer, and the end of a block with the staking keeper's state of the
moment. -/
inductive Action
  | submitProposal (msg : MsgSubmitProposal)
  | deposit (msg : MsgDeposit)
  | vote (msg : MsgVote)
  | send (fromAddress toAddress : AccAddress) (amount : Coins)
  | endBlock (sk : Staking.State)

/-- The signer of the message verified a signature with a key, whose address is not
`DepositedCoinsAccAddr`. -/
def Action.Admitted : Action → Prop
  | .submitProposal msg => msg.proposer ≠ DepositedCoinsAccAddr
  | .deposit msg => msg.depositor ≠ DepositedCoinsAccAddr
  | .vote msg => msg.voter ≠ DepositedCoinsAccAddr
  | .send fromAddress _ _ => fromAddress ≠ DepositedCoinsAccAddr
  | .endBlock _ => True

/-- Running an action in a block with header `hdr` and the parameters `params`: the state,
and the tags of the proposals the end blocker dropped or tallied. -/
def Action.run (router : Router) (s : State) (hdr : Header) (params : Params) :
    Action → Except Abort (State × List ResultTag)
  | .submitProposal msg => (·, []) <$> s.handleMsgSubmitProposal hdr params router msg
  | .deposit msg => (·, []) <$> s.handleMsgDeposit hdr params msg
  | .vote msg => (·, []) <$> s.handleMsgVote msg
  | .send fromAddress toAddress amount => do
    let bank ← Bank.sendCoins s.bank hdr fromAddress toAddress amount
    pure ({ s with bank := bank }, [])
  | .endBlock sk => Abort.lift (EndBlocker s hdr params router sk)

/-- One step of the governance state machine, with the tags it returned. -/
def Step (router : Router) (s : State) (tags : List ResultTag) (s' : State) : Prop :=
  ∃ hdr params a, Action.Admitted a ∧ a.run router s hdr params = .ok (s', tags)

/-! ### What each operation does -/

namespace State

variable {s : State} {hdr : Header} {params : Params}

theorem SubmitProposal_eq_ok {router : Router} {content : Content} {proposal : Proposal}
    {s' : State} (h : s.SubmitProposal hdr params router content = .ok (proposal, s')) :
    ∃ proposalID, s.proposalID = some proposalID ∧ router.HasRoute content.proposalRoute ∧
      proposal = NewProposal content proposalID hdr.time
        (hdr.time + params.depositParams.maxDepositPeriod) ∧
      s' = ((s.SetProposal proposal).InsertInactiveProposalQueue proposalID
        proposal.depositEndTime).setProposalID (proposalID + 1) := by
  unfold SubmitProposal at h
  cases hr : router.routes content.proposalRoute with
  | none => simp [hr] at h
  | some handler =>
    cases hc : handler content with
    | some err => simp [hr, hc] at h
    | none =>
      cases hid : s.proposalID with
      | none => simp [hr, hc, GetProposalID, hid] at h
      | some proposalID =>
        simp only [hr, hc, GetProposalID, hid, Except.pure_eq_ok, Except.ok_bind,
          Except.ok_inj, Prod.mk.injEq] at h
        obtain ⟨rfl, rfl⟩ := h
        exact ⟨proposalID, rfl, by simp [Router.HasRoute, hr], rfl, rfl⟩

theorem AddDeposit_eq_ok {proposalID : ℕ} {depositorAddr : AccAddress} {depositAmount : Coins}
    {s' : State} {activated : Bool}
    (h : s.AddDeposit hdr params proposalID depositorAddr depositAmount = .ok (s', activated)) :
    ∃ proposal bank, s.GetProposal proposalID = some proposal ∧
      (proposal.status = .StatusDepositPeriod ∨ proposal.status = .StatusVotingPeriod) ∧
      Bank.sendCoins s.bank hdr depositorAddr DepositedCoinsAccAddr depositAmount = .ok bank ∧
      activated = (proposal.status == .StatusDepositPeriod &&
        (proposal.totalDeposit.Add depositAmount).IsAllGTE params.depositParams.minDeposit) ∧
      s' = (if activated then
          ({ s with bank := bank }.SetProposal
            { proposal with totalDeposit := proposal.totalDeposit.Add depositAmount }).activateVotingPeriod
            hdr params { proposal with totalDeposit := proposal.totalDeposit.Add depositAmount }
        else { s with bank := bank }.SetProposal
            { proposal with totalDeposit := proposal.totalDeposit.Add depositAmount }).addDepositRecord
        proposalID depositorAddr depositAmount := by
  unfold AddDeposit at h
  cases hp : s.GetProposal proposalID with
  | none => simp [hp] at h
  | some proposal =>
    simp only [hp] at h
    by_cases hst : proposal.status ≠ .StatusDepositPeriod ∧ proposal.status ≠ .StatusVotingPeriod
    · simp [hst] at h
    rw [if_neg hst] at h
    obtain ⟨-, -, h⟩ := Except.bind_eq_ok.mp h
    obtain ⟨bank, hb, h⟩ := Except.bind_eq_ok.mp h
    simp only [Except.pure_eq_ok, Except.ok_inj, Prod.mk.injEq] at h
    obtain ⟨rfl, rfl⟩ := h
    refine ⟨proposal, bank, rfl, ?_, hb, rfl, rfl⟩
    by_cases hd : proposal.status = .StatusDepositPeriod
    · exact .inl hd
    · exact .inr (by simpa [hd] using hst)

theorem AddVote_eq_ok {proposalID : ℕ} {voterAddr : AccAddress} {option : VoteOption}
    {s' : State} (h : s.AddVote proposalID voterAddr option = .ok s') :
    ∃ proposal, s.GetProposal proposalID = some proposal ∧
      proposal.status = .StatusVotingPeriod ∧ ValidVoteOption option = true ∧
      s' = s.setVote proposalID voterAddr (NewVote proposalID voterAddr option) := by
  unfold AddVote at h
  cases hp : s.GetProposal proposalID with
  | none => simp [hp] at h
  | some proposal =>
    simp only [hp] at h
    by_cases hst : proposal.status = .StatusVotingPeriod
    · by_cases hv : ValidVoteOption option = true
      · simp only [hst, hv, ne_eq, not_true_eq_false, if_false, Bool.not_true, Bool.false_eq_true,
          Except.pure_eq_ok, Except.ok_inj] at h
        exact ⟨proposal, rfl, hst, hv, h.symm⟩
      · simp [hst, hv] at h
    · simp [hst] at h

theorem DeleteProposal_eq_ok {proposalID : ℕ} {s' : State}
    (h : s.DeleteProposal proposalID = .ok s') :
    ∃ proposal, s.GetProposal proposalID = some proposal ∧
      s' = { (s.RemoveFromInactiveProposalQueue proposalID proposal.depositEndTime).RemoveFromActiveProposalQueue
          proposalID proposal.votingEndTime with proposals := s.proposals.erase proposalID } := by
  unfold DeleteProposal at h
  cases hp : s.GetProposal proposalID with
  | none => simp [hp] at h
  | some proposal =>
    simp only [hp, Except.pure_eq_ok, Except.ok_inj] at h
    exact ⟨proposal, rfl, h.symm⟩

/-- `releaseDeposits` writes the accounts and the deposits only. -/
theorem releaseDeposits_frame {recipient : Deposit → AccAddress} {proposalID : ℕ} {s' : State}
    (h : s.releaseDeposits hdr recipient proposalID = .ok s') :
    s' = { s with bank := s'.bank, deposits := s'.deposits } := by
  unfold releaseDeposits at h
  refine Except.foldlM_invariant (fun t : State => t = { s with bank := t.bank, deposits := t.deposits })
    _ (fun t deposit t' _ ht hstep => ?_) s s' rfl h
  obtain ⟨bank, -, hstep⟩ := Except.bind_eq_ok.mp hstep
  simp only [Except.pure_eq_ok, Except.ok_inj] at hstep
  rw [← hstep, ht]

end State

theorem dropInactive_eq_ok {hdr : Header} {acc acc' : State × List ResultTag} {key : QueueKey}
    (h : dropInactive hdr acc key = .ok acc') :
    ∃ proposal s₁, acc.1.GetProposal (ofLex key).2 = some proposal ∧
      acc.1.DeleteProposal proposal.proposalID = .ok s₁ ∧
      s₁.DeleteDeposits hdr proposal.proposalID = .ok acc'.1 ∧
      acc'.2 = acc.2 ++ [(proposal.proposalID, "proposal-dropped")] := by
  unfold dropInactive at h
  cases hp : acc.1.GetProposal (ofLex key).2 with
  | none => simp [hp] at h
  | some proposal =>
    simp only [hp] at h
    obtain ⟨s₁, h₁, h⟩ := Except.bind_eq_ok.mp h
    obtain ⟨s₂, h₂, h⟩ := Except.bind_eq_ok.mp h
    simp only [Except.pure_eq_ok, Except.ok_inj] at h
    subst h
    exact ⟨proposal, s₁, rfl, h₁, h₂, rfl⟩

theorem tallyActive_eq_ok {hdr : Header} {params : Params} {router : Router}
    {sk : Staking.State} {acc acc' : State × List ResultTag} {key : QueueKey}
    (h : tallyActive hdr params router sk acc key = .ok acc') :
    ∃ proposal passes burnDeposits tallyResults s₁ s₂ status tagValue,
      acc.1.GetProposal (ofLex key).2 = some proposal ∧
      tally acc.1 sk params.tallyParams proposal = .ok (passes, burnDeposits, tallyResults, s₁) ∧
      (if burnDeposits then s₁.DeleteDeposits hdr proposal.proposalID
        else s₁.RefundDeposits hdr proposal.proposalID) = .ok s₂ ∧
      (status = .StatusPassed ∨ status = .StatusFailed ∨ status = .StatusRejected) ∧
      tagValue ≠ "proposal-dropped" ∧
      acc'.1 = (s₂.SetProposal { proposal with status := status, finalTallyResult := tallyResults
        }).RemoveFromActiveProposalQueue proposal.proposalID proposal.votingEndTime ∧
      acc'.2 = acc.2 ++ [(proposal.proposalID, tagValue)] := by
  unfold tallyActive at h
  cases hp : acc.1.GetProposal (ofLex key).2 with
  | none => simp [hp] at h
  | some proposal =>
    simp only [hp] at h
    obtain ⟨⟨passes, burnDeposits, tallyResults, s₁⟩, ht, h⟩ := Except.bind_eq_ok.mp h
    obtain ⟨s₂, hd, h⟩ := Except.bind_eq_ok.mp h
    obtain ⟨⟨status, tagValue⟩, hs, h⟩ := Except.bind_eq_ok.mp h
    simp only [Except.pure_eq_ok, Except.ok_inj] at h
    subst h
    -- the new status is final, and its tag is not the one of a dropped proposal
    have hst : (status = .StatusPassed ∨ status = .StatusFailed ∨ status = .StatusRejected) ∧
        tagValue ≠ "proposal-dropped" := by
      split_ifs at hs
      · obtain ⟨handler, -, hs⟩ := Except.bind_eq_ok.mp hs
        split at hs <;> simp only [Except.pure_eq_ok, Except.ok_inj, Prod.mk.injEq] at hs <;>
          obtain ⟨rfl, rfl⟩ := hs <;> decide
      · simp only [Except.pure_eq_ok, Except.ok_inj, Prod.mk.injEq] at hs
        obtain ⟨rfl, rfl⟩ := hs
        decide
    exact ⟨proposal, passes, burnDeposits, tallyResults, s₁, s₂, status, tagValue, rfl, ht, hd,
      hst.1, hst.2, rfl, rfl⟩

/-- The genesis state: the accounts, no proposal, and the first proposal id. -/
def genesis (bank : Auth.State) (startingProposalID : ℕ) : State where
  bank := bank
  proposals := ∅
  deposits := ∅
  votes := ∅
  activeProposalQueue := ∅
  inactiveProposalQueue := ∅
  proposalID := some startingProposalID

end CosmosSdk.Gov
