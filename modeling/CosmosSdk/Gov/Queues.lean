import CosmosSdk.Gov.Keeper
import CosmosSdk.Lib.Transition

/-!
# The proposal queues

A proposal is in the inactive queue, under the end of its deposit period and its id, exactly
while it is in its deposit period, and in the active queue, under the end of its voting
period, exactly while it is in its voting period (`Queued`).  The writes that keep this are
made apart: `SubmitProposal` stores the proposal and its inactive entry, `activateVotingPeriod`
changes the status and moves the entry, `DeleteProposal` and the last writes of the tally
remove the entries of a proposal they delete or close.  Each of them changes one id, and
`QueueInv.of_update` puts the other ids aside.

The end blocker walks the keys each queue held when it started, deleting and closing
proposals as it goes; each step removes only its own key, so every key still to come names
a proposal still in its period (`LoopInv`).  A tallied proposal gets a final status, which
nothing changes afterwards, so no proposal is tallied twice along a run (`TallyOnce`).
-/

namespace CosmosSdk.Gov

/-- A status no write leaves: passed, rejected or failed. -/
def ProposalStatus.IsFinal : ProposalStatus → Prop
  | .StatusPassed | .StatusRejected | .StatusFailed => True
  | _ => False

theorem ProposalStatus.IsFinal.not_queued {status : ProposalStatus} (h : status.IsFinal) :
    status ≠ .StatusDepositPeriod ∧ status ≠ .StatusVotingPeriod := by
  cases status <;> simp_all [IsFinal]

/-- The ids the end blocker reports as tallied: those of the tags other than a drop. -/
def talliedIDs (tags : List ResultTag) : List ℕ :=
  (tags.filter fun t => t.2 != "proposal-dropped").map Prod.fst

@[simp] theorem talliedIDs_nil : talliedIDs [] = [] := rfl

@[simp] theorem talliedIDs_append (tags tags' : List ResultTag) :
    talliedIDs (tags ++ tags') = talliedIDs tags ++ talliedIDs tags' := by
  simp [talliedIDs]

@[simp] theorem talliedIDs_dropped (id : ℕ) : talliedIDs [(id, "proposal-dropped")] = [] := by
  simp [talliedIDs]

theorem talliedIDs_tag {id : ℕ} {tagValue : String} (h : tagValue ≠ "proposal-dropped") :
    talliedIDs [(id, tagValue)] = [id] := by
  simp [talliedIDs, h]

namespace State

/-- The queue entries under the id `id` agree with the proposal stored there: it is stored
under its own id; the inactive queue has an entry `(t, id)`, holding `id`, exactly when the
proposal is in its deposit period and `t` is its end, and the active queue one exactly when
it is in its voting period and `t` is the end of that. -/
structure Queued (s : State) (id : ℕ) : Prop where
  key : ∀ p, s.GetProposal id = some p → p.proposalID = id
  inactive : ∀ t v, s.inactiveProposalQueue.get? (toLex (t, id)) = some v ↔
    v = id ∧ ∃ p, s.GetProposal id = some p ∧ p.status = .StatusDepositPeriod ∧ p.depositEndTime = t
  active : ∀ t v, s.activeProposalQueue.get? (toLex (t, id)) = some v ↔
    v = id ∧ ∃ p, s.GetProposal id = some p ∧ p.status = .StatusVotingPeriod ∧ p.votingEndTime = t

/-- The queues agree with the proposals at every id, and the counter is above every stored
id. -/
structure QueueInv (s : State) : Prop where
  queued : ∀ id, s.Queued id
  below_next : ∃ n, s.proposalID = some n ∧ ∀ id p, s.GetProposal id = some p → id < n

/-- The final proposals of `s` are in `s'` as they were. -/
def FinalKept (s s' : State) : Prop :=
  ∀ id p, s.GetProposal id = some p → p.status.IsFinal → s'.GetProposal id = some p

theorem FinalKept.trans {s₁ s₂ s₃ : State} (h₁ : FinalKept s₁ s₂) (h₂ : FinalKept s₂ s₃) :
    FinalKept s₁ s₃ := fun id p hp hf => h₂ id p (h₁ id p hp hf) hf

/-- Along a run, no id is reported tallied twice, and each one reported is a final
proposal. -/
structure TallyOnce (tags : List ResultTag) (s : State) : Prop where
  nodup : (talliedIDs tags).Nodup
  final : ∀ id ∈ talliedIDs tags, ∃ p, s.GetProposal id = some p ∧ p.status.IsFinal

theorem TallyOnce.nil (s : State) : TallyOnce [] s :=
  ⟨List.nodup_nil, fun _ h => by simp at h⟩

theorem TallyOnce.of_finalKept {tags : List ResultTag} {s s' : State} (h : TallyOnce tags s)
    (hk : FinalKept s s') : TallyOnce tags s' where
  nodup := h.nodup
  final id hid := by
    obtain ⟨p, hp, hf⟩ := h.final id hid
    exact ⟨p, hk id p hp hf, hf⟩

theorem TallyOnce.append_dropped {tags : List ResultTag} {s : State} {id : ℕ}
    (h : TallyOnce tags s) : TallyOnce (tags ++ [(id, "proposal-dropped")]) s :=
  ⟨by simpa using h.nodup, by simpa using h.final⟩

variable {s s' : State} {id : ℕ}

/-! ### One id at a time -/

/-- The inactive entry under `(t, id)`, read off the proposal. -/
theorem Queued.inactive_get? (h : s.Queued id) (t : Time) :
    s.inactiveProposalQueue.get? (toLex (t, id)) =
      if ∃ p, s.GetProposal id = some p ∧ p.status = .StatusDepositPeriod ∧ p.depositEndTime = t
      then some id else none := by
  split_ifs with hc
  · exact (h.inactive t id).mpr ⟨rfl, hc⟩
  · cases hv : s.inactiveProposalQueue.get? (toLex (t, id)) with
    | none => rfl
    | some v => exact absurd ((h.inactive t v).mp hv).2 hc

/-- The active entry under `(t, id)`, read off the proposal. -/
theorem Queued.active_get? (h : s.Queued id) (t : Time) :
    s.activeProposalQueue.get? (toLex (t, id)) =
      if ∃ p, s.GetProposal id = some p ∧ p.status = .StatusVotingPeriod ∧ p.votingEndTime = t
      then some id else none := by
  split_ifs with hc
  · exact (h.active t id).mpr ⟨rfl, hc⟩
  · cases hv : s.activeProposalQueue.get? (toLex (t, id)) with
    | none => rfl
    | some v => exact absurd ((h.active t v).mp hv).2 hc

/-- `Queued` from the entries the proposal asks for. -/
theorem Queued.of_get? (hkey : ∀ p, s.GetProposal id = some p → p.proposalID = id)
    (hi : ∀ t, s.inactiveProposalQueue.get? (toLex (t, id)) =
      if ∃ p, s.GetProposal id = some p ∧ p.status = .StatusDepositPeriod ∧ p.depositEndTime = t
      then some id else none)
    (ha : ∀ t, s.activeProposalQueue.get? (toLex (t, id)) =
      if ∃ p, s.GetProposal id = some p ∧ p.status = .StatusVotingPeriod ∧ p.votingEndTime = t
      then some id else none) : s.Queued id where
  key := hkey
  inactive t v := by
    rw [hi t]
    split_ifs with hc
    · simp only [Option.some.injEq, hc, and_true]
      exact eq_comm
    · simp [hc]
  active t v := by
    rw [ha t]
    split_ifs with hc
    · simp only [Option.some.injEq, hc, and_true]
      exact eq_comm
    · simp [hc]

/-- A write that changes the proposal and the entries of the id `id₀` only keeps the
invariant at every other id; at `id₀` it is shown apart. -/
theorem QueueInv.of_update (hs : s.QueueInv) (id₀ : ℕ)
    (hp : ∀ id ≠ id₀, s'.GetProposal id = s.GetProposal id)
    (hi : ∀ t id, id ≠ id₀ →
      s'.inactiveProposalQueue.get? (toLex (t, id)) = s.inactiveProposalQueue.get? (toLex (t, id)))
    (ha : ∀ t id, id ≠ id₀ →
      s'.activeProposalQueue.get? (toLex (t, id)) = s.activeProposalQueue.get? (toLex (t, id)))
    (h₀ : s'.Queued id₀)
    (hn : ∃ n, s'.proposalID = some n ∧ ∀ id p, s'.GetProposal id = some p → id < n) :
    s'.QueueInv where
  queued id := by
    by_cases hid : id = id₀
    · exact hid ▸ h₀
    have h := hs.queued id
    refine ⟨?_, fun t v => ?_, fun t v => ?_⟩
    · rw [hp id hid]
      exact h.key
    · rw [hi t id hid, hp id hid]
      exact h.inactive t v
    · rw [ha t id hid, hp id hid]
      exact h.active t v
  below_next := hn

/-- The counter's bound, when the counter stays and no proposal is added. -/
theorem QueueInv.below_next_of (hs : s.QueueInv) (hn : s'.proposalID = s.proposalID)
    (hp : ∀ id p, s'.GetProposal id = some p → ∃ q, s.GetProposal id = some q) :
    ∃ n, s'.proposalID = some n ∧ ∀ id p, s'.GetProposal id = some p → id < n := by
  obtain ⟨n, hsn, hlt⟩ := hs.below_next
  refine ⟨n, hn ▸ hsn, fun id p h => ?_⟩
  obtain ⟨q, hq⟩ := hp id p h
  exact hlt id q hq

/-- Two stores with the same proposals, queues and counter: the other writes of the keeper
(accounts, deposits, votes) keep everything the queues are checked against. -/
structure SameQueues (s s' : State) : Prop where
  proposals : s'.proposals = s.proposals
  active : s'.activeProposalQueue = s.activeProposalQueue
  inactive : s'.inactiveProposalQueue = s.inactiveProposalQueue
  proposalID : s'.proposalID = s.proposalID

theorem SameQueues.trans {s₁ s₂ s₃ : State} (h₁ : SameQueues s₁ s₂) (h₂ : SameQueues s₂ s₃) :
    SameQueues s₁ s₃ :=
  ⟨h₂.proposals.trans h₁.proposals, h₂.active.trans h₁.active, h₂.inactive.trans h₁.inactive,
    h₂.proposalID.trans h₁.proposalID⟩

theorem SameQueues.GetProposal (h : SameQueues s s') : s'.GetProposal = s.GetProposal := by
  funext id
  simp only [State.GetProposal, h.proposals]

theorem QueueInv.congr (hs : s.QueueInv) (h : SameQueues s s') : s'.QueueInv := by
  have hg := h.GetProposal
  refine hs.of_update 0 (fun id _ => by rw [hg]) (fun t id _ => by rw [h.inactive])
    (fun t id _ => by rw [h.active]) ?_ (hs.below_next_of h.proposalID fun id p hp => ⟨p, hg ▸ hp⟩)
  have h₀ := hs.queued 0
  exact ⟨hg ▸ h₀.key, hg ▸ h.inactive ▸ h₀.inactive, hg ▸ h.active ▸ h₀.active⟩

theorem FinalKept.of_same (h : SameQueues s s') : FinalKept s s' := by
  intro id p hp _
  rw [h.GetProposal]
  exact hp

/-- `releaseDeposits` moves coins and deletes deposits only. -/
theorem releaseDeposits_sameQueues {hdr : Header} {recipient : Deposit → AccAddress}
    {proposalID : ℕ} (h : s.releaseDeposits hdr recipient proposalID = .ok s') : SameQueues s s' := by
  rw [releaseDeposits_frame h]
  exact ⟨rfl, rfl, rfl, rfl⟩

/-- The tally deletes votes only. -/
theorem tally_sameQueues {sk : Staking.State} {tp : TallyParams} {proposal : Proposal}
    {passes burnDeposits : Bool} {tallyResults : TallyResult}
    (h : tally s sk tp proposal = .ok (passes, burnDeposits, tallyResults, s')) : SameQueues s s' := by
  rw [tally_store h]
  exact ⟨rfl, rfl, rfl, rfl⟩

/-- A write that changes the proposal of `id₀` only, where none was final. -/
theorem FinalKept.of_update (id₀ : ℕ) (hp : ∀ id ≠ id₀, s'.GetProposal id = s.GetProposal id)
    (h₀ : ∀ p, s.GetProposal id₀ = some p → ¬ p.status.IsFinal) : FinalKept s s' := by
  intro id p h hf
  by_cases hid : id = id₀
  · subst hid
    exact absurd hf (h₀ p h)
  · rw [hp id hid]
    exact h

/-! ### The writes that keep the queues -/

/-- Writing back a stored proposal with its status and end times changes no queue entry. -/
theorem QueueInv.SetProposal_same (hs : s.QueueInv) {p q : Proposal}
    (hq : s.GetProposal p.proposalID = some q) (hst : p.status = q.status)
    (hd : p.depositEndTime = q.depositEndTime) (hv : p.votingEndTime = q.votingEndTime) :
    (s.SetProposal p).QueueInv := by
  have h := hs.queued p.proposalID
  refine hs.of_update p.proposalID (fun id hid => by simp [hid]) (fun _ _ _ => rfl)
    (fun _ _ _ => rfl) (Queued.of_get? (fun r hr => ?_) (fun t => ?_) (fun t => ?_))
    (hs.below_next_of rfl fun id r hr => ?_)
  · simp only [GetProposal_SetProposal, if_true, Option.some.injEq] at hr
    rw [← hr]
  · simpa [hq, hst, hd] using h.inactive_get? t
  · simpa [hq, hst, hv] using h.active_get? t
  · by_cases hid : id = p.proposalID
    · exact ⟨q, hid ▸ hq⟩
    · exact ⟨r, by simpa [hid] using hr⟩

/-- `SubmitProposal`'s writes: a new proposal in its deposit period under the counter's id,
its inactive entry, and the counter advanced. -/
theorem QueueInv.submit (hs : s.QueueInv) {n : ℕ} (hn : s.proposalID = some n) {p : Proposal}
    (hid : p.proposalID = n) (hst : p.status = .StatusDepositPeriod) :
    (((s.SetProposal p).InsertInactiveProposalQueue n p.depositEndTime).setProposalID
      (n + 1)).QueueInv := by
  obtain ⟨m, hm, hlt⟩ := hs.below_next
  obtain rfl : m = n := Option.some.inj (hm.symm.trans hn)
  -- the counter's id is free, so it has no entry yet
  have hfree : s.GetProposal m = none := by
    cases hq : s.GetProposal m with
    | none => rfl
    | some q => exact absurd (hlt m q hq) (lt_irrefl m)
  have hi := (hs.queued m).inactive_get?
  have ha := (hs.queued m).active_get?
  simp [hfree] at hi ha
  refine hs.of_update m (fun id hid' => by simp [hid, hid'])
    (fun t id hid' => by simp [hid']) (fun _ _ _ => rfl)
    (Queued.of_get? (fun r hr => ?_) (fun t => ?_) (fun t => ?_)) ⟨m + 1, rfl, fun id r hr => ?_⟩
  · simp only [GetProposal_setProposalID, GetProposal_InsertInactiveProposalQueue,
      GetProposal_SetProposal, hid, if_true, Option.some.injEq] at hr
    rw [← hr, hid]
  · by_cases ht : t = p.depositEndTime
    · simp [hid, hst, ht]
    · simp [hid, hst, ht, Ne.symm ht, hi]
  · simp [hid, hst, ha]
  · simp only [GetProposal_setProposalID, GetProposal_InsertInactiveProposalQueue,
      GetProposal_SetProposal, hid] at hr
    split_ifs at hr with h'
    · omega
    · exact Nat.lt_succ_of_lt (hlt id r hr)

/-- `activateVotingPeriod` of a stored proposal in its deposit period: the entry moves from
the inactive queue to the active one. -/
theorem QueueInv.activate (hs : s.QueueInv) {hdr : Header} {params : Params}
    {p : Proposal} (hp : s.GetProposal p.proposalID = some p)
    (hst : p.status = .StatusDepositPeriod) : (s.activateVotingPeriod hdr params p).QueueInv := by
  have hi := (hs.queued p.proposalID).inactive_get?
  have ha := (hs.queued p.proposalID).active_get?
  simp only [hp, Option.some.injEq, exists_eq_left', hst, true_and, reduceCtorEq, false_and,
    if_false] at hi ha
  unfold State.activateVotingPeriod
  refine hs.of_update p.proposalID (fun id hid => by simp [hid]) (fun t id hid => by simp [hid])
    (fun t id hid => by simp [hid]) (Queued.of_get? (fun r hr => ?_) (fun t => ?_) (fun t => ?_))
    (hs.below_next_of rfl fun id r hr => ?_)
  · simp only [GetProposal_InsertActiveProposalQueue, GetProposal_RemoveFromInactiveProposalQueue,
      GetProposal_SetProposal, if_true, Option.some.injEq] at hr
    rw [← hr]
  · by_cases ht : t = p.depositEndTime
    · simp [ht]
    · simp [ht, Ne.symm ht, hi]
  · by_cases ht : t = hdr.time + params.votingParams.votingPeriod
    · simp [ht]
    · simp [ht, Ne.symm ht, ha]
  · by_cases hid : id = p.proposalID
    · exact ⟨p, hid ▸ hp⟩
    · exact ⟨r, by simpa [hid] using hr⟩

/-- `DeleteProposal` of a stored proposal: the proposal goes with both of its entries. -/
theorem QueueInv.DeleteProposal (hs : s.QueueInv) (h : s.DeleteProposal id = .ok s') :
    s'.QueueInv := by
  obtain ⟨p, hp, rfl⟩ := DeleteProposal_eq_ok h
  have hi := (hs.queued id).inactive_get?
  have ha := (hs.queued id).active_get?
  simp only [hp, Option.some.injEq, exists_eq_left'] at hi ha
  -- the proposal is erased from the store's map, which `GetProposal` reads
  refine hs.of_update id (fun id' hid => by simp [GetProposal, hid]) (fun t id' hid => by simp [hid])
    (fun t id' hid => by simp [hid]) (Queued.of_get? (fun r hr => by simp [GetProposal] at hr)
      (fun t => ?_) (fun t => ?_)) (hs.below_next_of rfl fun id' r hr => ?_)
  · by_cases ht : t = p.depositEndTime
    · simp [GetProposal, ht]
    · simp [GetProposal, ht, Ne.symm ht, hi]
  · by_cases ht : t = p.votingEndTime
    · simp [GetProposal, ht]
    · simp [GetProposal, ht, Ne.symm ht, ha]
  · simp only [GetProposal, SortedMap.get?_erase] at hr
    split_ifs at hr
    exact ⟨r, hr⟩

/-- The last writes of the tally: a proposal in its voting period gets a final status and
leaves the active queue. -/
theorem QueueInv.finalize (hs : s.QueueInv) {p : Proposal} (hp : s.GetProposal p.proposalID = some p)
    (hv : p.status = .StatusVotingPeriod) {status : ProposalStatus} (hf : status.IsFinal)
    (tallyResults : TallyResult) :
    ((s.SetProposal { p with status := status, finalTallyResult := tallyResults }).RemoveFromActiveProposalQueue
      p.proposalID p.votingEndTime).QueueInv := by
  have hi := (hs.queued p.proposalID).inactive_get?
  have ha := (hs.queued p.proposalID).active_get?
  simp only [hp, Option.some.injEq, exists_eq_left', hv, reduceCtorEq, false_and, true_and,
    ↓reduceIte] at hi ha
  have hq := hf.not_queued
  refine hs.of_update p.proposalID (fun id hid => by simp [hid]) (fun _ _ _ => rfl)
    (fun t id hid => by simp [hid]) (Queued.of_get? (fun r hr => ?_) (fun t => ?_) (fun t => ?_))
    (hs.below_next_of rfl fun id r hr => ?_)
  · simp only [GetProposal_RemoveFromActiveProposalQueue, GetProposal_SetProposal, if_true,
      Option.some.injEq] at hr
    rw [← hr]
  · simp [hq.1, hi]
  · by_cases ht : t = p.votingEndTime
    · simp [hq.2, ht]
    · simp [hq.2, ht, Ne.symm ht, ha]
  · by_cases hid : id = p.proposalID
    · exact ⟨p, hid ▸ hp⟩
    · exact ⟨r, by simpa [hid] using hr⟩

/-- The counter's id has no proposal yet. -/
theorem QueueInv.GetProposal_next (hs : s.QueueInv) {n : ℕ} (hn : s.proposalID = some n) :
    s.GetProposal n = none := by
  obtain ⟨m, hm, hlt⟩ := hs.below_next
  obtain rfl : m = n := Option.some.inj (hm.symm.trans hn)
  cases hq : s.GetProposal m with
  | none => rfl
  | some q => exact absurd (hlt m q hq) (lt_irrefl m)

/-- An inactive entry names a stored proposal in its deposit period ending at the entry's
time. -/
theorem QueueInv.of_inactive (hs : s.QueueInv) {key : QueueKey} {v : ℕ}
    (h : s.inactiveProposalQueue.get? key = some v) :
    ∃ p, s.GetProposal (ofLex key).2 = some p ∧ p.status = .StatusDepositPeriod ∧
      p.depositEndTime = (ofLex key).1 :=
  (((hs.queued (ofLex key).2).inactive (ofLex key).1 v).mp h).2

/-- An active entry names a stored proposal in its voting period ending at the entry's time. -/
theorem QueueInv.of_active (hs : s.QueueInv) {key : QueueKey} {v : ℕ}
    (h : s.activeProposalQueue.get? key = some v) :
    ∃ p, s.GetProposal (ofLex key).2 = some p ∧ p.status = .StatusVotingPeriod ∧
      p.votingEndTime = (ofLex key).1 :=
  (((hs.queued (ofLex key).2).active (ofLex key).1 v).mp h).2

/-! ### The messages -/

section Messages

variable {hdr : Header} {params : Params}

/-- `AddDeposit`: the proposal is written back with its total, and moved to the active queue
if the deposit period ends. -/
theorem QueueInv.AddDeposit (hs : s.QueueInv) {proposalID : ℕ} {depositorAddr : AccAddress}
    {depositAmount : Coins} {activated : Bool}
    (h : s.AddDeposit hdr params proposalID depositorAddr depositAmount = .ok (s', activated)) :
    s'.QueueInv ∧ FinalKept s s' := by
  obtain ⟨proposal, bank, hp, hst, -, hact, rfl⟩ := AddDeposit_eq_ok h
  have hkey : proposal.proposalID = proposalID := (hs.queued proposalID).key proposal hp
  set p := { proposal with totalDeposit := proposal.totalDeposit.Add depositAmount }
  have hp' : ({ s with bank := bank } : State).GetProposal p.proposalID = some proposal := by
    rw [show p.proposalID = proposalID from hkey]
    exact hp
  have h₁ : ({ s with bank := bank }.SetProposal p).QueueInv :=
    (hs.congr (show SameQueues s { s with bank := bank } from ⟨rfl, rfl, rfl, rfl⟩)).SetProposal_same
      hp' rfl rfl rfl
  -- the activated branch writes the proposal again, in its voting period
  have h₂ : (if activated then ({ s with bank := bank }.SetProposal p).activateVotingPeriod hdr params p
      else { s with bank := bank }.SetProposal p).QueueInv := by
    split_ifs with ha
    · refine h₁.activate (by simp) ?_
      rw [ha, eq_comm, Bool.and_eq_true, beq_iff_eq] at hact
      exact hact.1
    · exact h₁
  refine ⟨h₂.congr ⟨rfl, rfl, rfl, rfl⟩, FinalKept.of_update proposalID (fun id hid => ?_) ?_⟩
  · have hid' : id ≠ p.proposalID := hkey ▸ hid
    split_ifs <;> simp [addDepositRecord, setDeposit, GetProposal, State.activateVotingPeriod, hid']
  · intro q hq hf
    rw [hp, Option.some.injEq] at hq
    subst hq
    rcases hst with hst | hst <;> simp [hst, ProposalStatus.IsFinal] at hf

/-- `handleMsgSubmitProposal`: a new proposal under the counter's id, then its first
deposit. -/
theorem QueueInv.handleMsgSubmitProposal (hs : s.QueueInv) {router : Router}
    {msg : MsgSubmitProposal} (h : s.handleMsgSubmitProposal hdr params router msg = .ok s') :
    s'.QueueInv ∧ FinalKept s s' := by
  obtain ⟨⟨proposal, s₁⟩, h₁, h⟩ := Except.bind_eq_ok.mp h
  obtain ⟨⟨s₂, activated⟩, h₂, h⟩ := Except.bind_eq_ok.mp h
  simp only [Except.pure_eq_ok, Except.ok_inj] at h
  subst h
  obtain ⟨n, hn, -, rfl, rfl⟩ := SubmitProposal_eq_ok h₁
  have hq₁ := hs.submit hn (p := NewProposal msg.content n hdr.time
    (hdr.time + params.depositParams.maxDepositPeriod)) rfl rfl
  -- the new id was free, so no final proposal is overwritten
  have hk₁ : FinalKept s (((s.SetProposal (NewProposal msg.content n hdr.time
      (hdr.time + params.depositParams.maxDepositPeriod))).InsertInactiveProposalQueue n
      (hdr.time + params.depositParams.maxDepositPeriod)).setProposalID (n + 1)) :=
    FinalKept.of_update n (fun id hid => by simp [NewProposal, hid])
      (fun q hq => by simp [hs.GetProposal_next hn] at hq)
  obtain ⟨hq₂, hk₂⟩ := hq₁.AddDeposit h₂
  exact ⟨hq₂, hk₁.trans hk₂⟩

/-- `handleMsgVote`: a vote is written, nothing else. -/
theorem handleMsgVote_sameQueues {msg : MsgVote} (h : s.handleMsgVote msg = .ok s') :
    SameQueues s s' := by
  cases hv : s.AddVote msg.proposalID msg.voter msg.option with
  | error err => simp [handleMsgVote, hv] at h
  | ok s₁ =>
    simp only [handleMsgVote, hv, Except.pure_eq_ok, Except.ok_inj] at h
    obtain ⟨-, -, -, -, rfl⟩ := AddVote_eq_ok hv
    subst h
    exact ⟨rfl, rfl, rfl, rfl⟩

end Messages

/-! ### The end blocker -/

/-- What holds between two keys of an end-blocker loop over the keys `rest` of the queue `q`
still to visit, with `hist` the tags of the run before the block: the queues agree with the
proposals, no id is tallied twice, and each key to come is still in the queue. -/
structure LoopInv (q : State → SortedMap QueueKey ℕ) (hist : List ResultTag)
    (rest : List QueueKey) (acc : State × List ResultTag) : Prop where
  queues : acc.1.QueueInv
  once : TallyOnce (hist ++ acc.2) acc.1
  nodup : rest.Nodup
  present : ∀ k ∈ rest, ∃ v, (q acc.1).get? k = some v

section Loop

variable {q : State → SortedMap QueueKey ℕ} {hist : List ResultTag}
  {f : State × List ResultTag → QueueKey → Except Panic (State × List ResultTag)}

/-- A loop body that keeps the invariant and removes no entry of `q` but its own key's. -/
def KeepsLoop (q : State → SortedMap QueueKey ℕ) (hist : List ResultTag)
    (f : State × List ResultTag → QueueKey → Except Panic (State × List ResultTag)) : Prop :=
  ∀ acc key acc', acc.1.QueueInv → TallyOnce (hist ++ acc.2) acc.1 →
    (∃ v, (q acc.1).get? key = some v) → f acc key = .ok acc' →
      acc'.1.QueueInv ∧ TallyOnce (hist ++ acc'.2) acc'.1 ∧
        ∀ k ≠ key, (q acc'.1).get? k = (q acc.1).get? k

/-- The step rule of a loop: one key visited. -/
theorem LoopInv.step (hf : KeepsLoop q hist f) {key : QueueKey} {rest : List QueueKey}
    {acc acc' : State × List ResultTag} (h : LoopInv q hist (key :: rest) acc)
    (hstep : f acc key = .ok acc') : LoopInv q hist rest acc' := by
  obtain ⟨hnot, hnd⟩ := List.nodup_cons.mp h.nodup
  obtain ⟨hq, ho, hk⟩ := hf acc key acc' h.queues h.once (h.present key List.mem_cons_self) hstep
  refine ⟨hq, ho, hnd, fun k hmem => ?_⟩
  have hne : k ≠ key := fun he => hnot (he ▸ hmem)
  rw [hk k hne]
  exact h.present k (List.mem_cons_of_mem key hmem)

/-- The run rule of a loop: after the keys `l₁`, the invariant holds of the keys after
them. -/
theorem LoopInv.run (hf : KeepsLoop q hist f) {l₁ l₂ : List QueueKey}
    {acc acc' : State × List ResultTag} (h : LoopInv q hist (l₁ ++ l₂) acc)
    (hrun : l₁.foldlM f acc = .ok acc') : LoopInv q hist l₂ acc' :=
  Except.foldlM_invariant_rest (fun l acc => LoopInv q hist (l ++ l₂) acc)
    (fun _ _ _ _ hb hstep => hb.step hf hstep) l₁ acc acc' h hrun

/-- The run rule over the whole list. -/
theorem LoopInv.run_all (hf : KeepsLoop q hist f) {l : List QueueKey}
    {acc acc' : State × List ResultTag} (h : LoopInv q hist l acc)
    (hrun : l.foldlM f acc = .ok acc') : LoopInv q hist [] acc' :=
  LoopInv.run hf (show LoopInv q hist (l ++ []) acc by rwa [List.append_nil]) hrun

end Loop

/-- One key of the inactive queue: its proposal is in its deposit period, and goes with its
two entries; the other inactive entries stay. -/
theorem dropInactive_keeps (hdr : Header) (hist : List ResultTag) :
    KeepsLoop State.inactiveProposalQueue hist (dropInactive hdr) := by
  intro acc key acc' hs ho ⟨v, hv⟩ h
  obtain ⟨p, hp, hst, ht⟩ := hs.of_inactive hv
  obtain ⟨proposal, s₁, hp', hdel, hdd, htag⟩ := dropInactive_eq_ok h
  obtain rfl : proposal = p := Option.some.inj (hp'.symm.trans hp)
  have hkey : proposal.proposalID = (ofLex key).2 := (hs.queued _).key _ hp
  have hsame := releaseDeposits_sameQueues hdd
  obtain ⟨p', hp'', rfl⟩ := DeleteProposal_eq_ok hdel
  obtain rfl : proposal = p' := Option.some.inj ((hkey ▸ hp).symm.trans hp'')
  -- the deleted proposal was in its deposit period, so it was not final
  have hk : FinalKept acc.1 acc'.1 := by
    refine (FinalKept.of_update proposal.proposalID (fun id hid => by simp [GetProposal, hid])
      fun r hr hf => ?_).trans (FinalKept.of_same hsame)
    rw [hkey, hp, Option.some.injEq] at hr
    subst hr
    simp [hst, ProposalStatus.IsFinal] at hf
  refine ⟨(hs.DeleteProposal hdel).congr hsame, ?_, fun k hne => ?_⟩
  · rw [htag, ← List.append_assoc]
    exact (ho.of_finalKept hk).append_dropped
  · rw [hsame.inactive]
    have hk' : k ≠ toLex (proposal.depositEndTime, proposal.proposalID) := by
      rw [ht, hkey]
      exact hne
    simp [hk']

/-- One key of the active queue: its proposal is in its voting period, and is closed with a
final status and leaves the queue; the other active entries stay. -/
theorem tallyActive_keeps (hdr : Header) (params : Params) (router : Router) (sk : Staking.State)
    (hist : List ResultTag) :
    KeepsLoop State.activeProposalQueue hist (tallyActive hdr params router sk) := by
  intro acc key acc' hs ho ⟨v, hv⟩ h
  obtain ⟨p, hp, hst, ht⟩ := hs.of_active hv
  obtain ⟨proposal, passes, burnDeposits, tallyResults, s₁, s₂, status, tagValue, hp', htally,
    hrel, hfin, hdrop, h₁, h₂⟩ := tallyActive_eq_ok h
  obtain rfl : proposal = p := Option.some.inj (hp'.symm.trans hp)
  have hkey : proposal.proposalID = (ofLex key).2 := (hs.queued _).key _ hp
  have hsame : SameQueues acc.1 s₂ := by
    refine (tally_sameQueues htally).trans ?_
    split_ifs at hrel
    · exact releaseDeposits_sameQueues hrel
    · exact releaseDeposits_sameQueues hrel
  have hf : status.IsFinal := by rcases hfin with rfl | rfl | rfl <;> trivial
  have hs₂ : s₂.GetProposal proposal.proposalID = some proposal := by
    rw [hsame.GetProposal, hkey]
    exact hp
  have hq := (hs.congr hsame).finalize hs₂ hst hf tallyResults
  rw [← h₁] at hq
  -- the closed proposal was in its voting period, so it was neither final nor tallied
  have hk : FinalKept acc.1 acc'.1 := by
    refine (FinalKept.of_same hsame).trans (FinalKept.of_update proposal.proposalID
      (fun id hid => by simp [h₁, hid]) fun r hr hf' => ?_)
    rw [hs₂, Option.some.injEq] at hr
    subst hr
    simp [hst, ProposalStatus.IsFinal] at hf'
  have hnew : proposal.proposalID ∉ talliedIDs (hist ++ acc.2) := by
    intro hmem
    obtain ⟨r, hr, hrf⟩ := ho.final _ hmem
    rw [hkey, hp, Option.some.injEq] at hr
    subst hr
    simp [hst, ProposalStatus.IsFinal] at hrf
  refine ⟨hq, ⟨?_, fun id hid => ?_⟩, fun k hne => ?_⟩
  · rw [h₂, ← List.append_assoc, talliedIDs_append, talliedIDs_tag hdrop, List.nodup_append]
    refine ⟨ho.nodup, by simp, fun a ha b hb => ?_⟩
    rw [List.mem_singleton.mp hb]
    exact fun he => hnew (he ▸ ha)
  · rw [h₂, ← List.append_assoc, talliedIDs_append, talliedIDs_tag hdrop, List.mem_append] at hid
    rcases hid with hid | hid
    · obtain ⟨r, hr, hrf⟩ := ho.final id hid
      exact ⟨r, hk id r hr hrf, hrf⟩
    · rw [List.mem_singleton.mp hid, h₁]
      exact ⟨{ proposal with status := status, finalTallyResult := tallyResults }, by simp, hf⟩
  · rw [h₁]
    have hk' : k ≠ toLex (proposal.votingEndTime, proposal.proposalID) := by
      rw [ht, hkey]
      exact hne
    simp [hk', hsame.active]

/-- The end blocker keeps the queues, and tallies each proposal it closes for the first
time. -/
theorem QueueInv.EndBlocker (hs : s.QueueInv) {hist : List ResultTag} (ho : TallyOnce hist s)
    {hdr : Header} {params : Params} {router : Router} {sk : Staking.State}
    {tags : List ResultTag} (h : EndBlocker s hdr params router sk = .ok (s', tags)) :
    s'.QueueInv ∧ TallyOnce (hist ++ tags) s' := by
  obtain ⟨acc, h₁, h₂⟩ := Except.bind_eq_ok.mp h
  have i₁ := LoopInv.run_all (dropInactive_keeps hdr hist)
    ⟨hs, by simpa using ho, SortedMap.nodup_filter_keys _ _,
      fun k hk => SortedMap.get?_of_mem_filter_keys _ hk⟩ h₁
  have i₂ := LoopInv.run_all (tallyActive_keeps hdr params router sk hist)
    ⟨i₁.queues, i₁.once, SortedMap.nodup_filter_keys _ _,
      fun k hk => SortedMap.get?_of_mem_filter_keys _ hk⟩ h₂
  exact ⟨i₂.queues, i₂.once⟩

/-- The end blocker finds the proposal of each key it visits, when the key's turn comes: its
lookups never take the branch that panics with "proposal N does not exist". -/
def EndBlockerFinds (s : State) (hdr : Header) (params : Params) (router : Router)
    (sk : Staking.State) : Prop :=
  (∀ l₁ k l₂ acc, s.InactiveProposalQueueKeys hdr.time = l₁ ++ k :: l₂ →
    l₁.foldlM (dropInactive hdr) (s, []) = .ok acc → ∃ p, acc.1.GetProposal (ofLex k).2 = some p) ∧
  ∀ acc₁, (s.InactiveProposalQueueKeys hdr.time).foldlM (dropInactive hdr) (s, []) = .ok acc₁ →
    ∀ l₁ k l₂ acc, acc₁.1.ActiveProposalQueueKeys hdr.time = l₁ ++ k :: l₂ →
      l₁.foldlM (tallyActive hdr params router sk) acc₁ = .ok acc →
        ∃ p, acc.1.GetProposal (ofLex k).2 = some p

theorem QueueInv.endBlockerFinds (hs : s.QueueInv) (hdr : Header) (params : Params)
    (router : Router) (sk : Staking.State) : s.EndBlockerFinds hdr params router sk := by
  have i₀ : LoopInv State.inactiveProposalQueue [] (s.InactiveProposalQueueKeys hdr.time) (s, []) :=
    ⟨hs, TallyOnce.nil s, SortedMap.nodup_filter_keys _ _,
      fun k hk => SortedMap.get?_of_mem_filter_keys _ hk⟩
  refine ⟨fun l₁ k l₂ acc hl hrun => ?_, fun acc₁ h₁ l₁ k l₂ acc hl hrun => ?_⟩
  · rw [hl] at i₀
    have i := i₀.run (dropInactive_keeps hdr []) hrun
    obtain ⟨v, hv⟩ := i.present k List.mem_cons_self
    obtain ⟨p, hp, -⟩ := i.queues.of_inactive hv
    exact ⟨p, hp⟩
  · have i₁ := i₀.run_all (dropInactive_keeps hdr []) h₁
    have i₂ : LoopInv State.activeProposalQueue [] (l₁ ++ k :: l₂) acc₁ := by
      rw [← hl]
      exact ⟨i₁.queues, i₁.once, SortedMap.nodup_filter_keys _ _,
        fun k hk => SortedMap.get?_of_mem_filter_keys _ hk⟩
    have i := i₂.run (tallyActive_keeps hdr params router sk []) hrun
    obtain ⟨v, hv⟩ := i.present k List.mem_cons_self
    obtain ⟨p, hp, -⟩ := i.queues.of_active hv
    exact ⟨p, hp⟩

end State

open State

/-- The genesis store has no proposal and empty queues. -/
theorem genesis_queueInv (bank : Auth.State) (startingProposalID : ℕ) :
    (genesis bank startingProposalID).QueueInv where
  queued id := ⟨fun p hp => by simp [genesis, GetProposal] at hp,
    fun t v => by simp [genesis, GetProposal], fun t v => by simp [genesis, GetProposal]⟩
  below_next := ⟨startingProposalID, rfl, fun id p hp => by simp [genesis, GetProposal] at hp⟩

/-- One step of the state machine keeps the queues, and tallies only proposals never tallied
before. -/
theorem State.QueueInv.step {router : Router} {hist tags : List ResultTag} {s s' : State}
    (hs : s.QueueInv) (ho : TallyOnce hist s) (h : Step router s tags s') :
    s'.QueueInv ∧ TallyOnce (hist ++ tags) s' := by
  obtain ⟨hdr, params, a, -, h⟩ := h
  cases a with
  | submitProposal msg =>
    obtain ⟨s₁, h₁, he⟩ := Except.map_eq_ok.mp h
    obtain ⟨rfl, rfl⟩ := Prod.mk.inj he
    obtain ⟨hq, hk⟩ := hs.handleMsgSubmitProposal h₁
    exact ⟨hq, by simpa using ho.of_finalKept hk⟩
  | deposit msg =>
    obtain ⟨s₁, h₁, he⟩ := Except.map_eq_ok.mp h
    obtain ⟨rfl, rfl⟩ := Prod.mk.inj he
    obtain ⟨⟨s₂, activated⟩, h₂, h₃⟩ := Except.bind_eq_ok.mp h₁
    simp only [Except.pure_eq_ok, Except.ok_inj] at h₃
    subst h₃
    obtain ⟨hq, hk⟩ := hs.AddDeposit h₂
    exact ⟨hq, by simpa using ho.of_finalKept hk⟩
  | vote msg =>
    obtain ⟨s₁, h₁, he⟩ := Except.map_eq_ok.mp h
    obtain ⟨rfl, rfl⟩ := Prod.mk.inj he
    have hsame := handleMsgVote_sameQueues h₁
    exact ⟨hs.congr hsame, by simpa using ho.of_finalKept (FinalKept.of_same hsame)⟩
  | send fromAddress toAddress amount =>
    obtain ⟨bank, -, h₁⟩ := Except.bind_eq_ok.mp h
    simp only [Except.pure_eq_ok, Except.ok_inj, Prod.mk.injEq] at h₁
    obtain ⟨rfl, rfl⟩ := h₁
    have hsame : SameQueues s { s with bank := bank } := ⟨rfl, rfl, rfl, rfl⟩
    exact ⟨hs.congr hsame, by simpa using ho.of_finalKept (FinalKept.of_same hsame)⟩
  | endBlock sk => exact hs.EndBlocker ho (Abort.lift_eq_ok.mp h)

end CosmosSdk.Gov
