import CosmosSdk.Distribution.Allocation
import CosmosSdk.Lib.Transition

/-!
# Fees across blocks

Between blocks the ante handler adds the fee of each transaction to the collected fees
(`FeeCollectionKeeper.AddCollectedFees`, `x/auth/types/feekeeper.go`), and each block begins
with `BeginBlocker`, which hands out what was collected.  A run is a sequence of these steps,
each labelled with the fees it takes in; the staking keeper is the same along a run.

* `holdings`: what the module holds of a denomination, the collected fees included.
* `BeginBlocker_eq_ok`: a block that begins records its proposer and, past the first block,
  allocated the fees (`FeesAllocated`).
* `holdings_of_trace`: along every run the holdings grow by exactly the fees taken in, whatever
  the blocks, their votes and the parameters.
* `wellFormed_of_trace` and `BeginBlocker_returns`: from a well-formed state every state of a
  run is well formed, and from a well-formed state a block whose voters the staking keeper knows
  begins without a panic once a proposer is recorded.
-/

namespace CosmosSdk.Distribution

namespace State

/-- `AddCollectedFees` of the fee collection keeper. -/
def AddCollectedFees (s : State) (coins : Coins) : State :=
  { s with collectedFees := s.collectedFees.Add coins }

/-- What the module holds of a denomination, in units of `10^-18`: the community pool, the
outstanding rewards of all validators, and the fees collected for it. -/
def holdings (s : State) (d : String) : ℤ :=
  s.communityOf d + s.outstandingTotal d + Coins.amount s.collectedFees d * Dec.precisionReuse

theorem FeesAllocated.holdings_eq {s s' : State} (h : FeesAllocated s s') (d : String) :
    s'.holdings d = s.holdings d := by
  rw [holdings, holdings, h.collectedFees, Coins.amount_nil, zero_mul, add_zero, h.conserves]

@[simp] theorem holdings_SetPreviousProposerConsAddr (s : State) (consAddr : ConsAddress) (d : String) :
    (s.SetPreviousProposerConsAddr consAddr).holdings d = s.holdings d := rfl

@[simp] theorem holdings_AddCollectedFees (s : State) (coins : Coins) (d : String) :
    (s.AddCollectedFees coins).holdings d =
      s.holdings d + Coins.amount coins d * Dec.precisionReuse := by
  show s.communityOf d + s.outstandingTotal d +
    Coins.amount (s.collectedFees.Add coins) d * Dec.precisionReuse = _
  rw [Coins.amount_Add, holdings]
  ring

/-! ### Well-formed states -/

section WellFormed

variable {sk : StakingKeeper} {s s' : State}

/-- An allocation leaves no fees, and keeps the fee pool, the parameters and the records. -/
theorem FeesAllocated.wellFormed (hwf : WellFormed sk s) (h : FeesAllocated s s') : WellFormed sk s' where
  fees := by
    rw [h.collectedFees]
    exact ⟨List.Pairwise.nil, by simp⟩
  lower := by simp [h.collectedFees]
  feePool := h.feePool
  params := by
    rw [h.params]
    exact hwf.params
  ready := hwf.ready.of_records sk h.current_isSome h.outstanding_isSome

theorem WellFormed.setPreviousProposer (hwf : WellFormed sk s) (consAddr : ConsAddress) :
    WellFormed sk (s.SetPreviousProposerConsAddr consAddr) :=
  ⟨hwf.fees, hwf.lower, hwf.feePool, hwf.params, hwf.ready⟩

/-- A valid fee is canonical and in lower case, and so is what it adds up to. -/
theorem WellFormed.addCollectedFees (hwf : WellFormed sk s) {fee : Coins} (hfee : fee.IsValid = true) :
    WellFormed sk (s.AddCollectedFees fee) where
  fees := hwf.fees.Add (Coins.Canonical.of_IsValid hfee)
  lower := Coins.forall_denom_Add (P := fun d => d.toLower = d) hwf.fees (Coins.Canonical.of_IsValid hfee)
    hwf.lower (Coins.toLower_of_IsValid hfee)
  feePool := hwf.feePool
  params := hwf.params
  ready := hwf.ready

end WellFormed

/-! ### A block that begins -/

section Begin

variable {sk : StakingKeeper} {s s' : State} {blockHeight : ℤ} {proposerAddress : ConsAddress}
  {votes : List VoteInfo}

/-- A block that begins records its proposer; past the first block it allocated the fees first. -/
theorem BeginBlocker_eq_ok (h : BeginBlocker sk s blockHeight proposerAddress votes = .ok s') :
    ∃ s₁, s' = s₁.SetPreviousProposerConsAddr proposerAddress ∧
      if blockHeight > 1 then FeesAllocated s s₁ else s₁ = s := by
  unfold BeginBlocker at h
  dsimp only at h
  split_ifs at h with hh
  · obtain ⟨previousProposer, -, h⟩ := Except.bind_eq_ok.mp h
    obtain ⟨s₁, h₁, h⟩ := Except.bind_eq_ok.mp h
    cases h
    exact ⟨s₁, rfl, by rw [if_pos hh]; exact AllocateTokens_allocated h₁⟩
  · obtain ⟨s₁, h₁, h⟩ := Except.bind_eq_ok.mp h
    cases h₁
    cases h
    exact ⟨s, rfl, by rw [if_neg hh]⟩

theorem BeginBlocker_holdings (h : BeginBlocker sk s blockHeight proposerAddress votes = .ok s')
    (d : String) : s'.holdings d = s.holdings d := by
  obtain ⟨s₁, rfl, hs₁⟩ := BeginBlocker_eq_ok h
  rw [holdings_SetPreviousProposerConsAddr]
  split_ifs at hs₁
  · exact hs₁.holdings_eq d
  · rw [hs₁]

theorem BeginBlocker_wellFormed (hwf : WellFormed sk s)
    (h : BeginBlocker sk s blockHeight proposerAddress votes = .ok s') : WellFormed sk s' := by
  obtain ⟨s₁, rfl, hs₁⟩ := BeginBlocker_eq_ok h
  have hwf₁ : WellFormed sk s₁ := by
    split_ifs at hs₁
    · exact hs₁.wellFormed hwf
    · exact hs₁ ▸ hwf
  exact hwf₁.setPreviousProposer proposerAddress

/-- From a well-formed state, a block whose voters the staking keeper knows, with powers that
are not negative, begins without a panic, once a proposer is recorded past the first block. -/
theorem BeginBlocker_returns (proposerAddress : ConsAddress) (hwf : WellFormed sk s)
    (hprev : blockHeight > 1 → s.previousProposer.isSome)
    (hvotes : ∀ v ∈ votes, 0 ≤ v.validator.power ∧ (sk.ValidatorByConsAddr v.validator.address).isSome) :
    ∃ s', BeginBlocker sk s blockHeight proposerAddress votes = .ok s' := by
  -- the power that signed is a part of the total, both sums of powers that are not negative
  have hsigned : 0 ≤ ((votes.filter fun v => v.signedLastBlock).map fun v => v.validator.power).sum ∧
      ((votes.filter fun v => v.signedLastBlock).map fun v => v.validator.power).sum ≤
        (votes.map fun v => v.validator.power).sum := by
    refine ⟨powers_sum_nonneg fun w hw => (hvotes w (List.mem_of_mem_filter hw)).1, ?_⟩
    refine (List.filter_sublist.map _).sum_le_sum fun x hx => ?_
    obtain ⟨w, hw, rfl⟩ := List.mem_map.1 hx
    exact (hvotes w hw).1
  unfold BeginBlocker
  dsimp only
  by_cases hh : blockHeight > 1
  · obtain ⟨previousProposer, hp⟩ := Option.isSome_iff_exists.1 (hprev hh)
    obtain ⟨s₁, h₁⟩ := AllocateTokens_returns previousProposer hwf hvotes rfl hsigned
    refine ⟨s₁.SetPreviousProposerConsAddr proposerAddress, ?_⟩
    rw [if_pos hh, (GetPreviousProposerConsAddr_eq_ok s).2 hp, Except.ok_bind, h₁, Except.ok_bind]
    rfl
  · refine ⟨s.SetPreviousProposerConsAddr proposerAddress, ?_⟩
    rw [if_neg hh]
    rfl

end Begin

/-! ### Runs -/

/-- The distribution module's part of the chain, each step with the fees it takes in: the ante
handler adds a valid fee to the collected fees, or a block begins. -/
inductive Step (sk : StakingKeeper) : State → List Coins → State → Prop
  | collectFees (s : State) (fee : Coins) (hfee : fee.IsValid = true) :
      Step sk s [fee] (s.AddCollectedFees fee)
  | beginBlock {s s' : State} (blockHeight : ℤ) (proposerAddress : ConsAddress) (votes : List VoteInfo)
      (h : BeginBlocker sk s blockHeight proposerAddress votes = .ok s') : Step sk s [] s'

section Runs

variable {sk : StakingKeeper} {s s' : State} {fees : List Coins}

/-- The units of a denomination in a list of fees. -/
def feesAmount (fees : List Coins) (d : String) : ℤ := (fees.map fun fee => Coins.amount fee d).sum

@[simp] theorem feesAmount_nil (d : String) : feesAmount [] d = 0 := rfl

@[simp] theorem feesAmount_singleton (fee : Coins) (d : String) : feesAmount [fee] d = Coins.amount fee d := by
  simp [feesAmount]

theorem feesAmount_append (l l₁ : List Coins) (d : String) :
    feesAmount (l ++ l₁) d = feesAmount l d + feesAmount l₁ d := by
  simp [feesAmount]

/-- The step lemma: a step keeps the holdings but for the fees it takes in. -/
theorem Step.holdings (h : Step sk s fees s') (d : String) :
    s'.holdings d = s.holdings d + feesAmount fees d * Dec.precisionReuse := by
  cases h with
  | collectFees fee hfee => simp
  | beginBlock blockHeight proposerAddress votes h => simp [BeginBlocker_holdings h d]

theorem Step.wellFormed (hwf : WellFormed sk s) (h : Step sk s fees s') : WellFormed sk s' := by
  cases h with
  | collectFees fee hfee => exact hwf.addCollectedFees hfee
  | beginBlock blockHeight proposerAddress votes h => exact BeginBlocker_wellFormed hwf h

/-- Along every run the module holds what it held and the fees taken in, to the unit: whatever
the blocks, their votes and the parameters, no unit is lost or made. -/
theorem holdings_of_trace (htrace : Transition.Trace (Step sk) s fees s') (d : String) :
    s'.holdings d = s.holdings d + feesAmount fees d * Dec.precisionReuse := by
  refine Transition.Trace.invariant
    (fun fees s' => s'.holdings d = s.holdings d + feesAmount fees d * Dec.precisionReuse)
    (fun l s₁ l₁ s₂ ih hstep => ?_) htrace (by simp)
  rw [hstep.holdings d, ih, feesAmount_append]
  ring

/-- Every state of a run from a well-formed state is well formed, so that its next block
begins whenever its voters are known (`BeginBlocker_returns`). -/
theorem wellFormed_of_trace (hwf : WellFormed sk s) (htrace : Transition.Trace (Step sk) s fees s') :
    WellFormed sk s' :=
  Transition.Trace.invariant (fun _ s' => WellFormed sk s') (fun _ _ _ _ hs hstep => hstep.wellFormed hs)
    htrace hwf

/-- A state before its second block: a fee pool, no fee collected, the first block's proposer
recorded, and parameters of zero. -/
def secondBlock : State :=
  ⟨some ⟨[]⟩, ∅, ∅, ∅, some [1], [], ⟨⟨0⟩, ⟨0⟩, ⟨0⟩⟩⟩

end Runs

end State

end CosmosSdk.Distribution
