import CosmosSdk.Gov.Keeper
import CosmosSdk.Staking.SupplySafety
import Mathlib.Algebra.BigOperators.Ring.Finset
import Mathlib.Algebra.Order.Field.Rat
import Mathlib.Tactic.Abel
import Mathlib.Tactic.FieldSimp

/-!
# What the tally counts

`tally` splits each bonded validator's tokens between the validator's own vote and the
votes of its delegators: a delegator who votes counts the fraction of the tokens its shares
stand for, and the validator, if it voted, the fraction its delegators' deductions left.
Each fraction is a `Quo`, rounded to eighteen digits before it is multiplied by the tokens.

* The sums of the four options add up to the total voting power the quorum is computed
  from, and the returned tally result is their truncation (`tally_eq_ok`).
* On a state whose share ledger has its invariant, and whose votes are stored under their
  own keys (`State.VotesKeyed`, which every run keeps), each validator's tokens are counted
  at most once, up to the rounding: half a unit of `10^-18` of each rounded fraction, times
  the tokens it multiplies.  So twice the total voting power is at most twice the tokens of
  the bonded validators, plus the tokens once for each validator and once more for each
  delegation of a voter to a validator (`tallyLoops_bound`); and the tally deletes every
  vote of the proposal.
* The rounding is not one unit per delegation: it is multiplied by the tokens, and a
  validator of 6000000 tokens split among its operator and three delegators, one sixth
  each, yields a total voting power 6000000 units above its tokens.

The bound is carried through the loops as a potential (`Except.foldlM_potential`): the
total voting power less the exact share of the tokens of the deductions made so far, which
each counted delegation raises by at most half its validator's tokens.
-/

namespace CosmosSdk.Gov

open Staking (Validator Delegation)

/-! ### The bonded validators -/

/-- The map `currValidators` that `tallyVotingPower` builds from the bonded validators. -/
def currValidatorsOf (validators : List Staking.Validator) :
    SortedMap ValAddress validatorGovInfo :=
  validators.foldl
    (fun m validator => m.insert validator.operatorAddress (newValidatorGovInfo validator)) ∅

theorem currValidatorsOf_get {validators : List Staking.Validator} {a : ValAddress}
    {val : validatorGovInfo} (h : (currValidatorsOf validators).get? a = some val) :
    ∃ v ∈ validators, v.operatorAddress = a ∧ val = newValidatorGovInfo v := by
  rw [currValidatorsOf, SortedMap.get?_foldl_insert] at h
  simp only [SortedMap.get?_emptyCollection, Option.or_none, Option.map_eq_some_iff] at h
  obtain ⟨v, hv, rfl⟩ := h
  have hkey : v.operatorAddress = a := by simpa using List.find?_some hv
  exact ⟨v, List.mem_reverse.mp (List.mem_of_find?_eq_some hv), hkey, rfl⟩

/-- `IterateBondedValidatorsByPower` hands over stored validators only. -/
theorem IterateBondedValidatorsByPower_stored {sk : Staking.State} :
    ∀ (i : ℕ) (l : List (Bytes × ValAddress)) (validators : List Staking.Validator),
      Staking.State.IterateBondedValidatorsByPower.go sk i l = .ok validators →
        ∀ v ∈ validators, ∃ a, sk.GetValidator a = some v
  | _, [], validators, h => by
    simp only [Staking.State.IterateBondedValidatorsByPower.go, Except.pure_eq_ok,
      Except.ok_inj] at h
    simp [← h]
  | i, (_, address) :: rest, validators, h => by
    simp only [Staking.State.IterateBondedValidatorsByPower.go] at h
    split_ifs at h with hi
    · cases hv : sk.GetValidator address with
      | none => simp [hv] at h
      | some validator =>
        simp only [hv] at h
        split_ifs at h with hb
        · -- a bonded validator is handed over, and the loop goes on
          obtain ⟨rest', h', rfl⟩ := Except.map_eq_ok.mp h
          intro v hmem
          rcases List.mem_cons.mp hmem with rfl | hmem
          · exact ⟨address, hv⟩
          · exact IterateBondedValidatorsByPower_stored (i + 1) rest rest' h' v hmem
        · exact IterateBondedValidatorsByPower_stored i rest validators h
    · simp only [Except.pure_eq_ok, Except.ok_inj] at h
      simp [← h]

/-- What the share ledger says of the validators of the map: nonnegative tokens, and the
shares of the delegations to each. -/
theorem currValidators_ledger {sk : Staking.State} (hsk : sk.ledger.Inv)
    {validators : List Staking.Validator} (h : sk.IterateBondedValidatorsByPower = .ok validators)
    {a : ValAddress} {val : validatorGovInfo} (hval : (currValidatorsOf validators).get? a = some val) :
    0 ≤ val.bondedTokens ∧ val.delegatorShares.i = Staking.delegatedShares sk.delegations a := by
  obtain ⟨v, hmem, rfl, rfl⟩ := currValidatorsOf_get hval
  obtain ⟨b, hb⟩ := IterateBondedValidatorsByPower_stored 0 _ validators h v hmem
  have hkey := Staking.State.operatorAddress_of_get hsk hb
  subst hkey
  have hst := sk.ledger_stakes_of_get hb
  refine ⟨?_, hsk.shares_eq _ _ hst⟩
  have h0 := hsk.tokens_nonneg _ _ hst
  simp only [newValidatorGovInfo, Staking.Validator.bondedTokens]
  split_ifs
  · exact h0
  · exact le_rfl

/-! ### The sums and their potential -/

/-- The sum of the four entries of `results`. -/
def Results.total (r : Results) : Dec := r.yes + r.abstain + r.no + r.noWithVeto

theorem Results.add_total {r r' : Results} {option : VoteOption} {p : Dec}
    (h : r.add option p = .ok r') : r'.total = r.total + p := by
  cases option <;> simp only [Results.add, Except.pure_eq_ok, Except.ok_inj, Except.throw_eq_error,
    reduceCtorEq] at h <;> subst h <;> simp only [Results.total] <;> abel

/-- A validator's tokens and shares, which the loops never change. -/
def validatorGovInfo.stake (val : validatorGovInfo) : ℤ × Dec := (val.bondedTokens, val.delegatorShares)

/-- The tokens of the validator of the map under `a`, and none for another address. -/
def tokensAt (cv : SortedMap ValAddress validatorGovInfo) (a : ValAddress) : ℤ :=
  (cv.get? a).elim 0 validatorGovInfo.bondedTokens

/-- The validators of the map have nonnegative tokens and shares. -/
def StakesNonneg (cv : SortedMap ValAddress validatorGovInfo) : Prop :=
  ∀ a val, cv.get? a = some val → 0 ≤ val.bondedTokens ∧ 0 ≤ val.delegatorShares.i

theorem StakesNonneg.tokensAt {cv : SortedMap ValAddress validatorGovInfo} (h : StakesNonneg cv)
    (a : ValAddress) : 0 ≤ tokensAt cv a := by
  unfold Gov.tokensAt
  cases hv : cv.get? a with
  | none => exact le_rfl
  | some val => exact (h a val hv).1

/-- The exact share of a validator's tokens that its deductions stand for, in units of
`10^-18`. -/
def deductedTokens (val : validatorGovInfo) : ℚ :=
  val.bondedTokens * val.delegatorDeductions.i * Dec.precisionReuse / val.delegatorShares.i

namespace TallyAcc

/-- The total voting power less the exact share of the tokens of the deductions: what the
roundings have added so far. -/
def excess (acc : TallyAcc) : ℚ :=
  acc.totalVotingPower.i - acc.currValidators.sum fun _ val => deductedTokens val

/-- The deductions made from the validator under `a`. -/
def deductions (acc : TallyAcc) (a : ValAddress) : ℤ :=
  (acc.currValidators.get? a).elim 0 fun val => val.delegatorDeductions.i

/-- What the loop over the votes keeps: the validators of the map, with their tokens and
shares, and the four sums adding up to the total voting power. -/
structure Inv (cv₀ : SortedMap ValAddress validatorGovInfo) (acc : TallyAcc) : Prop where
  stakes : ∀ a, (acc.currValidators.get? a).map validatorGovInfo.stake =
    (cv₀.get? a).map validatorGovInfo.stake
  total : acc.results.total = acc.totalVotingPower

theorem Inv.get {cv₀ : SortedMap ValAddress validatorGovInfo} {acc : TallyAcc} (hI : acc.Inv cv₀)
    {a : ValAddress} {val : validatorGovInfo} (h : acc.currValidators.get? a = some val) :
    ∃ val₀, cv₀.get? a = some val₀ ∧ val₀.stake = val.stake := by
  have hs := hI.stakes a
  rw [h, Option.map_some] at hs
  obtain ⟨val₀, h₀, he⟩ := Option.map_eq_some_iff.mp hs.symm
  exact ⟨val₀, h₀, he⟩

theorem Inv.get_none {cv₀ : SortedMap ValAddress validatorGovInfo} {acc : TallyAcc} (hI : acc.Inv cv₀)
    {a : ValAddress} (h : acc.currValidators.get? a = none) : cv₀.get? a = none := by
  have hs := hI.stakes a
  rw [h, Option.map_none] at hs
  exact Option.map_eq_none_iff.mp hs.symm

/-- Writing a validator back with its tokens and shares keeps the invariant. -/
theorem Inv.insert {cv₀ : SortedMap ValAddress validatorGovInfo} {acc : TallyAcc} (hI : acc.Inv cv₀)
    {a : ValAddress} {val val' : validatorGovInfo} (h : acc.currValidators.get? a = some val)
    (hst : val'.stake = val.stake) :
    ∀ a', ((acc.currValidators.insert a val').get? a').map validatorGovInfo.stake =
      (cv₀.get? a').map validatorGovInfo.stake := by
  intro a'
  rw [SortedMap.get?_insert]
  split_ifs with ha
  · rw [← hI.stakes, ha, h, Option.map_some, Option.map_some, hst]
  · exact hI.stakes a'

end TallyAcc

/-- A rounded fraction of the tokens exceeds the exact one by at most half the tokens, in
units of `10^-18`. -/
theorem quo_mulInt_le {x S q : Dec} {T : ℤ} (hx : 0 ≤ x.i) (hS : 0 < S.i) (hT : 0 ≤ T)
    (h : x.quo S = .ok q) :
    ((q.mulInt T).i : ℚ) ≤ T * x.i * Dec.precisionReuse / S.i + T / 2 := by
  have h2 := Dec.quo_mul_le hx hS h
  have hS' : (0 : ℚ) < S.i := by exact_mod_cast hS
  have hq : (q.i : ℚ) ≤ x.i * Dec.precisionReuse / S.i + 1 / 2 := by
    rw [div_add_div _ _ hS'.ne' two_ne_zero, le_div_iff₀ (by positivity)]
    have h2' : ((2 * S.i * q.i : ℤ) : ℚ) ≤ ((2 * x.i * Dec.precisionReuse + S.i : ℤ) : ℚ) := by
      exact_mod_cast h2
    push_cast at h2'
    linarith
  calc ((q.mulInt T).i : ℚ) = T * q.i := by rw [Dec.mulInt_i, Int.cast_mul, mul_comm]
    _ ≤ T * (x.i * Dec.precisionReuse / S.i + 1 / 2) :=
      mul_le_mul_of_nonneg_left hq (by exact_mod_cast hT)
    _ = T * x.i * Dec.precisionReuse / S.i + T / 2 := by ring

/-- What a step of the loops over the votes does: the invariant holds after it, the
potential grows by at most `w`, and the deductions at each `a` by at most `u a`. -/
structure StepBound (cv₀ : SortedMap ValAddress validatorGovInfo) (acc acc' : TallyAcc) (w : ℚ)
    (u : ValAddress → ℤ) : Prop where
  inv : acc'.Inv cv₀
  excess : acc'.excess ≤ acc.excess + w
  deductions : ∀ a, acc'.deductions a ≤ acc.deductions a + u a

/-- The potential rule for the loops over the votes: steps that keep the bounds with their
weights keep them over the loop with the total weights. -/
theorem StepBound.foldlM {cv₀ : SortedMap ValAddress validatorGovInfo} {acc acc' : TallyAcc}
    {α : Type} {f : TallyAcc → α → Except Panic TallyAcc} {w : α → ℚ} {u : α → ValAddress → ℤ}
    {l : List α} (hstep : ∀ b x b', x ∈ l → b.Inv cv₀ → f b x = .ok b' → StepBound cv₀ b b' (w x) (u x))
    (hI : acc.Inv cv₀) (h : l.foldlM f acc = .ok acc') :
    StepBound cv₀ acc acc' (l.map w).sum (fun a => (l.map fun x => u x a).sum) := by
  obtain ⟨hI', hex⟩ := Except.foldlM_potential (TallyAcc.Inv cv₀) TallyAcc.excess w l
    (fun b x b' hx hb hst => ⟨(hstep b x b' hx hb hst).inv, (hstep b x b' hx hb hst).excess⟩)
    acc acc' hI h
  refine ⟨hI', hex, fun a => ?_⟩
  exact (Except.foldlM_potential (TallyAcc.Inv cv₀) (fun b => b.deductions a) (fun x => u x a) l
    (fun b x b' hx hb hst => ⟨(hstep b x b' hx hb hst).inv, (hstep b x b' hx hb hst).deductions a⟩)
    acc acc' hI h).2

/-! ### One delegation -/

section Delegation

variable {cv₀ : SortedMap ValAddress validatorGovInfo} {option : VoteOption} {acc acc' : TallyAcc}
  {d : Staking.Delegation}

theorem tallyDelegation_eq_ok (h : tallyDelegation option acc d = .ok acc') :
    (acc.currValidators.get? d.validatorAddress = none ∧ acc' = acc) ∨
    ∃ val q results, acc.currValidators.get? d.validatorAddress = some val ∧
      d.shares.quo val.delegatorShares = .ok q ∧
      acc.results.add option (q.mulInt val.bondedTokens) = .ok results ∧
      acc' = { acc with
        currValidators := acc.currValidators.insert d.validatorAddress
          { val with delegatorDeductions := val.delegatorDeductions + d.shares }
        results := results
        totalVotingPower := acc.totalVotingPower + q.mulInt val.bondedTokens } := by
  unfold tallyDelegation at h
  split at h
  · next hv =>
    simp only [Except.pure_eq_ok, Except.ok_inj] at h
    exact .inl ⟨hv, h.symm⟩
  · next val hv =>
    obtain ⟨q, hq, h⟩ := Except.bind_eq_ok.mp h
    obtain ⟨results, hr, h⟩ := Except.bind_eq_ok.mp h
    simp only [Except.pure_eq_ok, Except.ok_inj] at h
    exact .inr ⟨val, q, results, hv, hq, hr, h.symm⟩

/-- One delegation: the invariant holds after it, the roundings add at most half the tokens
of its validator, and the deductions grow by its shares at its validator only. -/
theorem tallyDelegation_step (hnn : StakesNonneg cv₀) (hI : acc.Inv cv₀) (hsh : 0 ≤ d.shares.i)
    (h : tallyDelegation option acc d = .ok acc') :
    StepBound cv₀ acc acc' ((tokensAt cv₀ d.validatorAddress : ℚ) / 2)
      (fun a => if d.validatorAddress = a then d.shares.i else 0) := by
  have hT₀ : (0 : ℚ) ≤ (tokensAt cv₀ d.validatorAddress : ℚ) / 2 := by
    have := hnn.tokensAt d.validatorAddress
    positivity
  rcases tallyDelegation_eq_ok h with ⟨-, rfl⟩ | ⟨val, q, results, hval, hq, hres, rfl⟩
  · -- a delegation to a validator outside the map counts nothing
    refine ⟨hI, by linarith, fun a => ?_⟩
    split_ifs
    · linarith
    · exact le_of_eq (add_zero _).symm
  obtain ⟨val₀, hval₀, hst⟩ := hI.get hval
  obtain ⟨hT, hS⟩ := hnn _ _ hval₀
  simp only [validatorGovInfo.stake, Prod.mk.injEq] at hst
  have hS0 : val.delegatorShares.i ≠ 0 := fun h0 => by simp [Dec.quo, h0] at hq
  have hSpos : 0 < val.delegatorShares.i := lt_of_le_of_ne (hst.2 ▸ hS) (Ne.symm hS0)
  refine ⟨⟨hI.insert hval rfl, ?_⟩, ?_, fun a => ?_⟩
  · rw [Results.add_total hres, hI.total]
  · -- the new deduction adds its exact share to the sum, the rounding at most half the tokens
    have hround := quo_mulInt_le hsh hSpos (hst.1 ▸ hT) hq
    have hded : deductedTokens { val with delegatorDeductions := val.delegatorDeductions + d.shares } =
        deductedTokens val + val.bondedTokens * d.shares.i * Dec.precisionReuse / val.delegatorShares.i := by
      simp only [deductedTokens, Dec.add_i]
      push_cast
      ring
    have htok : tokensAt cv₀ d.validatorAddress = val.bondedTokens := by
      simp [Gov.tokensAt, hval₀, hst.1]
    simp only [TallyAcc.excess, SortedMap.sum_insert_eq, hval, Option.elim_some, hded, Dec.add_i, htok]
    push_cast
    linarith
  · simp only [TallyAcc.deductions, SortedMap.get?_insert]
    split_ifs with h₁ h₂ h₂
    · subst h₂
      simp [hval]
    · exact absurd h₁.symm h₂
    · exact absurd h₂.symm h₁
    · simp

end Delegation

/-! ### One vote, and the loop over the votes -/

/-- The delegations a vote counts through: none for a validator of the map, whose vote is
recorded on its entry, and those of the voter otherwise. -/
def voterDels (sk : Staking.State) (cv : SortedMap ValAddress validatorGovInfo) (vote : Vote) :
    List Staking.Delegation :=
  match cv.get? vote.voter with
  | some _ => []
  | none => sk.IterateDelegations vote.voter

/-- The delegations the loop over the votes goes through. -/
def voterDelegations (sk : Staking.State) (cv : SortedMap ValAddress validatorGovInfo)
    (votes : List Vote) : List Staking.Delegation :=
  votes.flatMap (voterDels sk cv)

theorem sum_map_flatMap {α β M : Type*} [AddCommMonoid M] (l : List α) (f : α → List β)
    (g : β → M) : ((l.flatMap f).map g).sum = (l.map fun a => ((f a).map g).sum).sum := by
  induction l with
  | nil => rfl
  | cons a l ih => simp [List.flatMap_cons, ih]

/-- Summing over distinct keys the terms filed under each key counts every term at most once. -/
theorem sum_map_sum_filter_le {ι α M : Type*} [DecidableEq ι] [AddCommMonoid M] [PartialOrder M]
    [IsOrderedAddMonoid M] (key : α → ι) (F : α → M) :
    ∀ (xs : List ι) (ys : List α), xs.Nodup → (∀ y ∈ ys, 0 ≤ F y) →
      (xs.map fun x => ((ys.filter fun y => key y = x).map F).sum).sum ≤ (ys.map F).sum
  | [], ys, _, hF => by
    simpa using List.sum_nonneg (by simpa using hF)
  | x :: xs, ys, hxs, hF => by
    obtain ⟨hx, hxs⟩ := List.nodup_cons.mp hxs
    -- the other keys see only the terms not filed under `x`
    have hrest : (xs.map fun x' => ((ys.filter fun y => key y = x').map F).sum) =
        xs.map fun x' => (((ys.filter fun y => ¬key y = x).filter fun y => key y = x').map F).sum := by
      refine List.map_congr_left fun x' hx' => ?_
      have hne : x' ≠ x := fun he => hx (he ▸ hx')
      rw [List.filter_filter]
      congr 3
      funext y
      by_cases hy : key y = x' <;> simp [hy, hne]
    have ih := sum_map_sum_filter_le key F xs (ys.filter fun y => ¬key y = x) hxs
      (fun y hy => hF y (List.mem_of_mem_filter hy))
    calc (List.map (fun x => ((ys.filter fun y => key y = x).map F).sum) (x :: xs)).sum
        = ((ys.filter fun y => key y = x).map F).sum +
          (xs.map fun x' => (((ys.filter fun y => ¬key y = x).filter fun y => key y = x').map F).sum).sum := by
          rw [List.map_cons, List.sum_cons, hrest]
      _ ≤ ((ys.filter fun y => key y = x).map F).sum + ((ys.filter fun y => ¬key y = x).map F).sum :=
          add_le_add_right ih _
      _ = (ys.map F).sum := List.sum_map_filter_add_sum_map_filter_not _ _ _


section Vote

variable {sk : Staking.State} {cv₀ : SortedMap ValAddress validatorGovInfo} {acc acc' : TallyAcc}

/-- One vote: the potential grows by at most half the tokens of each delegation it counts
through, and the deductions by their shares. -/
theorem tallyVote_step (hnn : StakesNonneg cv₀) (hI : acc.Inv cv₀) {vote : Vote}
    (hsh : ∀ d ∈ voterDels sk cv₀ vote, 0 ≤ d.shares.i) (h : tallyVote sk acc vote = .ok acc') :
    StepBound cv₀ acc acc'
      ((voterDels sk cv₀ vote).map fun d => (tokensAt cv₀ d.validatorAddress : ℚ) / 2).sum
      (fun a => ((voterDels sk cv₀ vote).map fun d =>
        if d.validatorAddress = a then d.shares.i else 0).sum) := by
  unfold tallyVote at h
  obtain ⟨acc₁, h₁, h⟩ := Except.bind_eq_ok.mp h
  simp only [Except.pure_eq_ok, Except.ok_inj] at h
  subst h
  -- deleting the vote changes nothing the invariant or the potential reads
  suffices H : StepBound cv₀ acc acc₁
      ((voterDels sk cv₀ vote).map fun d => (tokensAt cv₀ d.validatorAddress : ℚ) / 2).sum
      (fun a => ((voterDels sk cv₀ vote).map fun d =>
        if d.validatorAddress = a then d.shares.i else 0).sum) from
    ⟨⟨H.inv.stakes, H.inv.total⟩, H.excess, H.deductions⟩
  split at h₁
  · next val hval =>
    -- a validator's vote is recorded on its entry, and counts through no delegation
    simp only [Except.pure_eq_ok, Except.ok_inj] at h₁
    subst h₁
    obtain ⟨val₀, hval₀, -⟩ := hI.get hval
    have hdels : voterDels sk cv₀ vote = [] := by simp [voterDels, hval₀]
    rw [hdels]
    refine ⟨⟨hI.insert hval rfl, hI.total⟩, ?_, fun a => ?_⟩
    · simp only [TallyAcc.excess, SortedMap.sum_insert_eq, hval, Option.elim_some]
      simp [deductedTokens]
    · simp only [TallyAcc.deductions, SortedMap.get?_insert]
      split_ifs with ha
      · simp [ha, hval]
      · simp
  · next hval =>
    have hdels : voterDels sk cv₀ vote = sk.IterateDelegations vote.voter := by
      simp [voterDels, hI.get_none hval]
    rw [hdels] at hsh ⊢
    exact StepBound.foldlM (fun b d b' hd hb hst => tallyDelegation_step hnn hb (hsh d hd) hst) hI h₁

/-- The loop over the votes: the potential grows by at most half the tokens of each
delegation counted, and the deductions by their shares. -/
theorem voteLoop (hnn : StakesNonneg cv₀) {votes : List Vote} (hI : acc.Inv cv₀)
    (hsh : ∀ d ∈ voterDelegations sk cv₀ votes, 0 ≤ d.shares.i)
    (h : votes.foldlM (tallyVote sk) acc = .ok acc') :
    StepBound cv₀ acc acc'
      ((voterDelegations sk cv₀ votes).map fun d => (tokensAt cv₀ d.validatorAddress : ℚ) / 2).sum
      (fun a => ((voterDelegations sk cv₀ votes).map fun d =>
        if d.validatorAddress = a then d.shares.i else 0).sum) := by
  have hsh' : ∀ vote ∈ votes, ∀ d ∈ voterDels sk cv₀ vote, 0 ≤ d.shares.i :=
    fun vote hv d hd => hsh d (List.mem_flatMap.mpr ⟨vote, hv, hd⟩)
  have H := StepBound.foldlM
    (fun b vote b' hv hb hst => tallyVote_step hnn hb (hsh' vote hv) hst) hI h
  simp only [voterDelegations, sum_map_flatMap]
  exact H

/-- The loop over the votes deletes the vote under the key of each, and nothing else. -/
theorem voteLoop_votes {votes : List Vote} (h : votes.foldlM (tallyVote sk) acc = .ok acc')
    (k : PairKey) :
    acc'.s.votes.get? k =
      if k ∈ votes.map (fun vote => toLex (vote.proposalID, vote.voter)) then none
      else acc.s.votes.get? k := by
  set keys := votes.map fun vote => toLex (vote.proposalID, vote.voter) with hkeys
  -- the keys not of a vote keep their entry; those of a vote already read have none
  have hrun := Except.foldlM_invariant_rest (fun rest (b : TallyAcc) => rest ⊆ votes ∧
      (∀ k ∉ keys, b.s.votes.get? k = acc.s.votes.get? k) ∧
      ∀ k ∈ keys, k ∉ rest.map (fun vote => toLex (vote.proposalID, vote.voter)) →
        b.s.votes.get? k = none)
    (fun vote rest b b' hb hstep => ?_) votes acc acc'
    ⟨List.Subset.refl _, fun _ _ => rfl, fun k hk hnot => absurd hk hnot⟩ h
  · split_ifs with hk
    · exact hrun.2.2 k hk (by simp)
    · exact hrun.2.1 k hk
  · obtain ⟨hsub, hout, hread⟩ := hb
    have hv : toLex (vote.proposalID, vote.voter) ∈ keys :=
      List.mem_map_of_mem (hsub List.mem_cons_self)
    rw [tallyVote_s hstep]
    refine ⟨fun x hx => hsub (List.mem_cons_of_mem vote hx), fun k hk => ?_, fun k hk hrest => ?_⟩
    · have hne : k ≠ toLex (vote.proposalID, vote.voter) := fun he => hk (he ▸ hv)
      simp [State.deleteVote, hne, hout k hk]
    · by_cases hne : k = toLex (vote.proposalID, vote.voter)
      · simp [State.deleteVote, hne]
      · simp only [State.deleteVote, SortedMap.get?_erase, hne, if_false]
        exact hread k hk (by simp [hne, hrest])

end Vote

/-! ### Each delegation is counted once -/

section Ledger

variable {sk : Staking.State} {cv : SortedMap ValAddress validatorGovInfo} {votes : List Vote}

/-- The delegations a vote counts through are stored ones. -/
theorem voterDels_stored {vote : Vote} {d : Delegation} (hd : d ∈ voterDels sk cv vote) :
    ∃ k, sk.delegations.get? k = some d := by
  unfold voterDels at hd
  split at hd
  · simp at hd
  · obtain ⟨e, he, rfl⟩ := List.mem_map.mp hd
    exact ⟨e.1, (SortedMap.mem_entries_iff _).1 (List.mem_of_mem_filter he)⟩

theorem voterDelegations_shares_nonneg (hsk : sk.ledger.Inv) :
    ∀ d ∈ voterDelegations sk cv votes, 0 ≤ d.shares.i := by
  intro d hd
  obtain ⟨vote, -, hd⟩ := List.mem_flatMap.mp hd
  obtain ⟨k, hk⟩ := voterDels_stored hd
  exact (hsk.shares_pos k d hk).le

/-- The shares the loop over the votes deducts from a validator: each stored delegation to
it at most once, as no voter votes twice. -/
theorem voterDelegations_deductions_le (hsk : sk.ledger.Inv) (hvot : (votes.map Vote.voter).Nodup)
    (a : ValAddress) :
    ((voterDelegations sk cv votes).map fun d => if d.validatorAddress = a then d.shares.i else 0).sum ≤
      Staking.delegatedShares sk.delegations a := by
  set u : Delegation → ℤ := fun d => if d.validatorAddress = a then d.shares.i else 0 with hu_def
  have hu : ∀ e ∈ sk.delegations.entries, 0 ≤ (u ∘ Prod.snd) e := by
    intro e he
    have hpos := hsk.shares_pos e.1 e.2 ((SortedMap.mem_entries_iff _).1 he)
    simp only [Function.comp, hu_def]
    split_ifs
    · exact hpos.le
    · exact le_rfl
  -- a vote counts through the delegations filed under its voter, or through none
  have hvote : ∀ vote, ((voterDels sk cv vote).map u).sum ≤
      ((sk.delegations.entries.filter fun e => (ofLex e.1).1 = vote.voter).map (u ∘ Prod.snd)).sum := by
    intro vote
    unfold voterDels
    split
    · exact List.sum_nonneg fun x hx => by
        obtain ⟨e, he, rfl⟩ := List.mem_map.mp hx
        exact hu e (List.mem_of_mem_filter he)
    · simp [Staking.State.IterateDelegations, List.map_map]
  calc ((voterDelegations sk cv votes).map u).sum
      = (votes.map fun vote => ((voterDels sk cv vote).map u).sum).sum := sum_map_flatMap _ _ _
    _ ≤ (votes.map fun vote => ((sk.delegations.entries.filter fun e => (ofLex e.1).1 = vote.voter).map
          (u ∘ Prod.snd)).sum).sum := List.sum_le_sum fun vote _ => hvote vote
    _ = ((votes.map Vote.voter).map fun x => ((sk.delegations.entries.filter fun e => (ofLex e.1).1 = x).map
          (u ∘ Prod.snd)).sum).sum := by rw [List.map_map]; rfl
    _ ≤ (sk.delegations.entries.map (u ∘ Prod.snd)).sum :=
          sum_map_sum_filter_le (fun e => (ofLex e.1).1) _ _ _ hvot hu
    _ = Staking.delegatedShares sk.delegations a := rfl

end Ledger

/-! ### The loop over the validators -/

/-- What the last loop adds for a validator that voted, in units of `10^-18`: the exact part
of its tokens its delegators' deductions left, and half its tokens of rounding. -/
def ownShare (val : validatorGovInfo) : ℚ :=
  if val.vote = .OptionEmpty then 0
  else val.bondedTokens * Dec.precisionReuse - deductedTokens val + val.bondedTokens / 2

/-- One validator: the sums keep adding up to the total, which grows by at most its own
share. -/
theorem tallyValidator_step {r r' : Results × Dec} {val : validatorGovInfo} (ht : r.1.total = r.2)
    (hT : 0 ≤ val.bondedTokens) (hS : 0 ≤ val.delegatorShares.i)
    (hD : val.delegatorDeductions.i ≤ val.delegatorShares.i) (h : tallyValidator r val = .ok r') :
    r'.1.total = r'.2 ∧ (r'.2.i : ℚ) ≤ r.2.i + ownShare val := by
  unfold tallyValidator at h
  split_ifs at h with hv
  · simp only [Except.pure_eq_ok, Except.ok_inj] at h
    subst h
    simp [ht, ownShare, hv]
  obtain ⟨q, hq, h⟩ := Except.bind_eq_ok.mp h
  obtain ⟨results, hres, h⟩ := Except.bind_eq_ok.mp h
  simp only [Except.pure_eq_ok, Except.ok_inj] at h
  subst h
  have hS0 : val.delegatorShares.i ≠ 0 := fun h0 => by simp [Dec.quo, h0] at hq
  have hSpos : 0 < val.delegatorShares.i := lt_of_le_of_ne hS (Ne.symm hS0)
  have hx : 0 ≤ (val.delegatorShares - val.delegatorDeductions).i := by
    rw [Dec.sub_i]
    linarith
  have hround := quo_mulInt_le hx hSpos hT hq
  -- the fraction left is the whole less the deducted part
  have hsplit : (val.bondedTokens : ℚ) * (val.delegatorShares - val.delegatorDeductions).i *
      Dec.precisionReuse / val.delegatorShares.i =
      val.bondedTokens * Dec.precisionReuse - deductedTokens val := by
    have hS' : (val.delegatorShares.i : ℚ) ≠ 0 := by exact_mod_cast hS0
    rw [Dec.sub_i, deductedTokens]
    push_cast
    field_simp
  refine ⟨by rw [Results.add_total hres, ht], ?_⟩
  simp only [ownShare, hv, if_false, Dec.add_i]
  push_cast
  linarith

/-- The loop over the validators of the map. -/
theorem validatorLoop {l : List (ValAddress × validatorGovInfo)} {r₀ r : Results × Dec}
    (ht : r₀.1.total = r₀.2)
    (hl : ∀ e ∈ l, 0 ≤ e.2.bondedTokens ∧ 0 ≤ e.2.delegatorShares.i ∧
      e.2.delegatorDeductions.i ≤ e.2.delegatorShares.i)
    (h : l.foldlM (fun r e => tallyValidator r e.2) r₀ = .ok r) :
    r.1.total = r.2 ∧ (r.2.i : ℚ) ≤ r₀.2.i + (l.map fun e => ownShare e.2).sum := by
  -- the step function is given, or its unification with the loop of `h` does not finish
  have hrun := Except.foldlM_potential (ε := Panic) (M := ℚ) (fun r : Results × Dec => r.1.total = r.2)
    (fun r => (r.2.i : ℚ)) (fun e : ValAddress × validatorGovInfo => ownShare e.2) l
    (f := fun r e => tallyValidator r e.2)
  refine hrun (fun b e b' he hb hst => ?_) r₀ r ht h
  obtain ⟨hT, hS, hD⟩ := hl e he
  exact tallyValidator_step hb hT hS hD hst

/-! ### The stored votes -/

/-- Each stored vote sits under the key of its proposal and voter, as `setVote` files it. -/
def State.VotesKeyed (s : State) : Prop :=
  ∀ e ∈ s.votes.entries, e.1 = toLex (e.2.proposalID, e.2.voter)

instance : DecidablePred State.VotesKeyed := fun s => by
  unfold State.VotesKeyed
  infer_instance

/-- The votes of a proposal, on a state whose votes are filed under their own keys: one per
voter, each of the proposal and filed under it. -/
theorem State.VotesKeyed.getVotes {s : State} (hv : s.VotesKeyed) (id : ℕ) :
    ((s.GetVotes id).map Vote.voter).Nodup ∧
      ∀ vote ∈ s.GetVotes id, vote.proposalID = id ∧ s.votes.get? (toLex (id, vote.voter)) = some vote := by
  set L := s.votes.entries.filter fun e => (ofLex e.1).1 = id with hL
  have hmem : ∀ e ∈ L, e.2.proposalID = id ∧ e.1 = toLex (id, e.2.voter) := by
    intro e he
    obtain ⟨he, hid⟩ := List.mem_filter.mp he
    have hk := hv e he
    rw [hk] at hid
    simp only [ofLex_toLex] at hid
    have hid := of_decide_eq_true hid
    exact ⟨hid, hid ▸ hk⟩
  refine ⟨?_, fun vote hvote => ?_⟩
  · -- the keys of the votes are distinct, and each is the proposal's key of its voter
    have hkeys : L.map Prod.fst = (L.map (Vote.voter ∘ Prod.snd)).map fun x => toLex (id, x) := by
      rw [List.map_map]
      exact List.map_congr_left fun e he => (hmem e he).2
    have hnd := s.votes.nodup_filter_keys fun e => (ofLex e.1).1 = id
    rw [← hL, hkeys] at hnd
    simpa [State.GetVotes, ← hL, List.map_map] using hnd.of_map _
  · obtain ⟨e, he, rfl⟩ := List.mem_map.mp hvote
    obtain ⟨hid, hk⟩ := hmem e he
    refine ⟨hid, ?_⟩
    rw [← hk]
    exact (SortedMap.mem_entries_iff _).1 (List.mem_of_mem_filter he)


/-! ### The total voting power -/

theorem tallyVotingPower_eq_ok {s s' : State} {sk : Staking.State} {proposal : Proposal}
    {results : Results} {total : Dec} (h : tallyVotingPower s sk proposal = .ok (results, total, s')) :
    ∃ validators acc, sk.IterateBondedValidatorsByPower = .ok validators ∧
      (s.GetVotes proposal.proposalID).foldlM (tallyVote sk)
        ⟨s, currValidatorsOf validators, Results.zero, 0⟩ = .ok acc ∧
      acc.currValidators.entries.foldlM (fun r e => tallyValidator r e.2)
        (acc.results, acc.totalVotingPower) = .ok (results, total) ∧ s' = acc.s := by
  unfold tallyVotingPower at h
  obtain ⟨validators, hval, h⟩ := Except.bind_eq_ok.mp h
  obtain ⟨acc, hacc, h⟩ := Except.bind_eq_ok.mp h
  obtain ⟨⟨results', total'⟩, hloop, h⟩ := Except.bind_eq_ok.mp h
  simp only [Except.pure_eq_ok, Except.ok_inj, Prod.mk.injEq] at h
  obtain ⟨rfl, rfl, rfl⟩ := h
  exact ⟨validators, acc, hval, hacc, hloop, rfl⟩

/-- A validator's exact deducted part and what the last loop adds for it come to its tokens,
and half its tokens of rounding, as long as the deductions stay within its shares. -/
theorem deductedTokens_add_ownShare_le {val : validatorGovInfo} (hT : 0 ≤ val.bondedTokens)
    (hS : 0 ≤ val.delegatorShares.i) (hD : val.delegatorDeductions.i ≤ val.delegatorShares.i) :
    deductedTokens val + ownShare val ≤
      val.bondedTokens * Dec.precisionReuse + val.bondedTokens / 2 := by
  have hT' : (0 : ℚ) ≤ val.bondedTokens := by exact_mod_cast hT
  have hP : (0 : ℚ) ≤ Dec.precisionReuse := by exact_mod_cast Dec.precisionReuse_pos.le
  unfold ownShare
  split_ifs with hv
  · -- a validator that did not vote: its delegators took at most its tokens
    have hded : deductedTokens val ≤ val.bondedTokens * Dec.precisionReuse := by
      unfold deductedTokens
      rcases hS.eq_or_lt with h0 | hpos
      · rw [← h0, Int.cast_zero, div_zero]
        positivity
      · have hS' : (0 : ℚ) < val.delegatorShares.i := by exact_mod_cast hpos
        have hD' : (val.delegatorDeductions.i : ℚ) ≤ val.delegatorShares.i := by exact_mod_cast hD
        rw [div_le_iff₀ hS']
        nlinarith [mul_le_mul_of_nonneg_left hD' (mul_nonneg hT' hP)]
    linarith
  · apply le_of_eq
    ring


section Bound

variable {s : State} {sk : Staking.State} {validators : List Validator} {votes : List Vote}
  {acc : TallyAcc} {results : Results} {total : Dec}

theorem currValidatorsOf_fresh {a : ValAddress} {val : validatorGovInfo}
    (h : (currValidatorsOf validators).get? a = some val) :
    val.delegatorDeductions = 0 ∧ val.vote = .OptionEmpty := by
  obtain ⟨v, -, -, rfl⟩ := currValidatorsOf_get h
  exact ⟨rfl, rfl⟩

theorem currValidatorsOf_stakesNonneg (hsk : sk.ledger.Inv)
    (hval : sk.IterateBondedValidatorsByPower = .ok validators) :
    StakesNonneg (currValidatorsOf validators) := by
  intro a val h
  obtain ⟨hT, hS⟩ := currValidators_ledger hsk hval h
  refine ⟨hT, ?_⟩
  rw [hS]
  exact hsk.delegatedShares_nonneg a

/-- The loop over the votes starts with nothing deducted and nothing counted. -/
theorem start_excess : (⟨s, currValidatorsOf validators, Results.zero, 0⟩ : TallyAcc).excess = 0 := by
  have hzero : (currValidatorsOf validators).sum (fun _ val => deductedTokens val) =
      (currValidatorsOf validators).sum fun _ _ => (0 : ℚ) :=
    SortedMap.sum_congr fun a val h => by simp [deductedTokens, (currValidatorsOf_fresh h).1]
  simp only [TallyAcc.excess, Dec.zero_i, Int.cast_zero, hzero]
  simp [SortedMap.sum]

theorem start_deductions (a : ValAddress) :
    (⟨s, currValidatorsOf validators, Results.zero, 0⟩ : TallyAcc).deductions a = 0 := by
  unfold TallyAcc.deductions
  cases h : (currValidatorsOf validators).get? a with
  | none => rfl
  | some val => simp [(currValidatorsOf_fresh h).1]

/-- The loops of `tally`, on a ledger with its invariant and over votes of distinct voters:
the sums add up to the total, and twice the total is at most the tokens of the bonded
validators, `2 * 10^18 + 1` times each, plus the tokens of the validator of each counted
delegation. -/
theorem tallyLoops_bound (hsk : sk.ledger.Inv)
    (hval : sk.IterateBondedValidatorsByPower = .ok validators) (hvot : (votes.map Vote.voter).Nodup)
    (hacc : votes.foldlM (tallyVote sk) ⟨s, currValidatorsOf validators, Results.zero, 0⟩ = .ok acc)
    (hloop : acc.currValidators.entries.foldlM (fun r e => tallyValidator r e.2)
        (acc.results, acc.totalVotingPower) = .ok (results, total)) :
    results.total = total ∧
      2 * total.i ≤ (currValidatorsOf validators).sum
          (fun _ val => (2 * Dec.precisionReuse + 1) * val.bondedTokens) +
        ((voterDelegations sk (currValidatorsOf validators) votes).map fun d =>
          tokensAt (currValidatorsOf validators) d.validatorAddress).sum := by
  set cv₀ := currValidatorsOf validators with hcv₀
  have hnn : StakesNonneg cv₀ := currValidatorsOf_stakesNonneg hsk hval
  have hI₀ : TallyAcc.Inv cv₀ ⟨s, cv₀, Results.zero, 0⟩ := ⟨fun _ => rfl, rfl⟩
  have hB := voteLoop hnn hI₀ (voterDelegations_shares_nonneg hsk) hacc
  -- each validator keeps its tokens and shares, and its deductions stay within its shares
  have hentry : ∀ a val, acc.currValidators.get? a = some val → 0 ≤ val.bondedTokens ∧
      0 ≤ val.delegatorShares.i ∧ val.delegatorDeductions.i ≤ val.delegatorShares.i := by
    intro a val h
    obtain ⟨val₀, h₀, hst⟩ := hB.inv.get h
    simp only [validatorGovInfo.stake, Prod.mk.injEq] at hst
    obtain ⟨hT, hS⟩ := hnn a val₀ h₀
    have hded := hB.deductions a
    have hle : ((voterDelegations sk cv₀ votes).map fun d =>
        if d.validatorAddress = a then d.shares.i else 0).sum ≤ Staking.delegatedShares sk.delegations a :=
      voterDelegations_deductions_le hsk hvot a
    rw [start_deductions, zero_add] at hded
    simp only [TallyAcc.deductions, h, Option.elim_some] at hded
    rw [← (currValidators_ledger hsk hval h₀).2] at hle
    rw [← hst.1, ← hst.2]
    exact ⟨hT, hS, hded.trans hle⟩
  obtain ⟨htot, hfin⟩ := validatorLoop hB.inv.total
    (fun e he => hentry e.1 e.2 ((SortedMap.mem_entries_iff _).1 he)) hloop
  refine ⟨htot, ?_⟩
  -- per validator: its deducted part and its own vote come to its tokens and half a rounding
  have hsum : acc.currValidators.sum (fun _ val => deductedTokens val + ownShare val) ≤
      cv₀.sum fun _ val => (val.bondedTokens : ℚ) * Dec.precisionReuse + val.bondedTokens / 2 :=
    calc _ ≤ acc.currValidators.sum
          (fun _ val => (val.bondedTokens : ℚ) * Dec.precisionReuse + val.bondedTokens / 2) :=
          SortedMap.sum_le_sum fun a val h => by
            obtain ⟨hT, hS, hD⟩ := hentry a val h
            exact deductedTokens_add_ownShare_le hT hS hD
      _ = _ := SortedMap.sum_comp_eq validatorGovInfo.stake
          (fun _ st => (st.1 : ℚ) * Dec.precisionReuse + st.1 / 2) hB.inv.stakes
  have hex := hB.excess
  rw [start_excess, zero_add] at hex
  simp only [TallyAcc.excess] at hex
  have hsplit := SortedMap.sum_add acc.currValidators (fun _ val => deductedTokens val)
    (fun _ val => ownShare val)
  have hfin' : (total.i : ℚ) ≤
      acc.totalVotingPower.i + acc.currValidators.sum fun _ val => ownShare val := hfin
  -- the bound in units of `10^-18`, as twice the rational one
  have hA : ((cv₀.sum fun _ val => (2 * Dec.precisionReuse + 1) * val.bondedTokens : ℤ) : ℚ) =
      2 * cv₀.sum fun _ val => (val.bondedTokens : ℚ) * Dec.precisionReuse + val.bondedTokens / 2 := by
    simp only [SortedMap.sum, Int.cast_list_sum, List.map_map, ← List.sum_map_mul_left]
    congr 1
    refine List.map_congr_left fun e _ => ?_
    simp only [Function.comp_apply]
    push_cast
    ring
  have hW : ((((voterDelegations sk cv₀ votes).map fun d => tokensAt cv₀ d.validatorAddress).sum : ℤ) : ℚ) =
      2 * ((voterDelegations sk cv₀ votes).map fun d => (tokensAt cv₀ d.validatorAddress : ℚ) / 2).sum := by
    simp only [Int.cast_list_sum, List.map_map, ← List.sum_map_mul_left]
    congr 1
    refine List.map_congr_left fun d _ => ?_
    simp only [Function.comp_apply]
    ring
  have hq : ((2 * total.i : ℤ) : ℚ) ≤
      ((cv₀.sum fun _ val => (2 * Dec.precisionReuse + 1) * val.bondedTokens : ℤ) : ℚ) +
        ((((voterDelegations sk cv₀ votes).map fun d => tokensAt cv₀ d.validatorAddress).sum : ℤ) : ℚ) := by
    rw [hA, hW]
    push_cast
    linarith
  exact_mod_cast hq

end Bound


/-! ### What the tally does -/

section Tally

variable {s s' : State} {sk : Staking.State} {tp : TallyParams} {proposal : Proposal}
  {passes burnDeposits : Bool} {tallyResults : TallyResult}

/-- What the tally leaves of the votes: none of those it read, every other one as it was. -/
theorem tally_votes (h : tally s sk tp proposal = .ok (passes, burnDeposits, tallyResults, s'))
    (k : PairKey) :
    s'.votes.get? k =
      if k ∈ (s.GetVotes proposal.proposalID).map (fun vote => toLex (vote.proposalID, vote.voter))
      then none else s.votes.get? k := by
  obtain ⟨results, total, h₁, -, -⟩ := tally_eq_ok h
  obtain ⟨validators, acc, -, hacc, -, rfl⟩ := tallyVotingPower_eq_ok h₁
  exact voteLoop_votes hacc k

/-- The tally on a ledger with its invariant and votes filed under their own keys: the sums
of the options add up to the total voting power, the tally result is their truncation, and
twice the total is at most `2 * 10^18 + 1` times the tokens of each bonded validator plus
the tokens of the validator of each delegation counted; the proposal's votes are deleted
and nothing else is written. -/
theorem tally_counts_once (hsk : sk.ledger.Inv) (hv : s.VotesKeyed)
    (h : tally s sk tp proposal = .ok (passes, burnDeposits, tallyResults, s')) :
    ∃ validators results total,
      sk.IterateBondedValidatorsByPower = .ok validators ∧
      tallyOutcome tp sk.pool.bondedTokens results total = .ok (passes, burnDeposits) ∧
      tallyResults = NewTallyResultFromMap results ∧
      results.total = total ∧
      2 * total.i ≤ (currValidatorsOf validators).sum
          (fun _ val => (2 * Dec.precisionReuse + 1) * val.bondedTokens) +
        ((voterDelegations sk (currValidatorsOf validators) (s.GetVotes proposal.proposalID)).map
          fun d => tokensAt (currValidatorsOf validators) d.validatorAddress).sum ∧
      s'.GetVotes proposal.proposalID = [] ∧
      (∀ k, (ofLex k).1 ≠ proposal.proposalID → s'.votes.get? k = s.votes.get? k) ∧
      s' = { s with votes := s'.votes } := by
  obtain ⟨results, total, h₁, hout, htr⟩ := tally_eq_ok h
  obtain ⟨validators, acc, hval, hacc, hloop, -⟩ := tallyVotingPower_eq_ok h₁
  obtain ⟨hnd, hvotes⟩ := hv.getVotes proposal.proposalID
  obtain ⟨htot, hbound⟩ := tallyLoops_bound hsk hval hnd hacc hloop
  have hdel := tally_votes h
  refine ⟨validators, results, total, hval, hout, htr, htot, hbound, ?_, fun k hk => ?_,
    tallyVotingPower_s h₁⟩
  · -- a vote left under the proposal's prefix would have been read, and deleted
    simp only [State.GetVotes, List.map_eq_nil_iff, List.filter_eq_nil_iff, decide_eq_true_eq]
    intro e he hid
    have hget := (SortedMap.mem_entries_iff _).1 he
    rw [hdel] at hget
    split_ifs at hget with hk
    refine hk (List.mem_map.mpr ⟨e.2, ?_, ?_⟩)
    · exact List.mem_map.mpr ⟨e, List.mem_filter.mpr ⟨(SortedMap.mem_entries_iff _).2 hget,
        decide_eq_true hid⟩, rfl⟩
    · exact (hv e ((SortedMap.mem_entries_iff _).2 hget)).symm
  · -- the votes read are all of the proposal
    rw [hdel, if_neg]
    intro hmem
    obtain ⟨vote, hvote, rfl⟩ := List.mem_map.mp hmem
    simp only [ofLex_toLex] at hk
    exact hk (hvotes vote hvote).1

end Tally

theorem tally_counts_once_one_vote :
    let sk := Staking.fundedGenesis ⟨0, 1, 7, "stake"⟩ ∅
    let s := (genesis ⟨∅, 0⟩ 1).setVote 1 [1] (NewVote 1 [1] .OptionYes)
    let proposal := NewProposal ⟨"", "", "", "", ""⟩ 1 0 0
    sk.ledger.Inv ∧ s.VotesKeyed ∧
      tally s sk ⟨0, 0, 0⟩ proposal = .ok (false, false, EmptyTallyResult, s.deleteVote 1 [1]) ∧
      ∃ validators results total,
        sk.IterateBondedValidatorsByPower = .ok validators ∧
        tallyOutcome ⟨0, 0, 0⟩ sk.pool.bondedTokens results total = .ok (false, false) ∧
        EmptyTallyResult = NewTallyResultFromMap results ∧
        results.total = total ∧
        2 * total.i ≤ (currValidatorsOf validators).sum
            (fun _ val => (2 * Dec.precisionReuse + 1) * val.bondedTokens) +
          ((voterDelegations sk (currValidatorsOf validators) (s.GetVotes proposal.proposalID)).map
            fun d => tokensAt (currValidatorsOf validators) d.validatorAddress).sum ∧
        (s.deleteVote 1 [1]).GetVotes proposal.proposalID = [] ∧
        (∀ k, (ofLex k).1 ≠ proposal.proposalID → (s.deleteVote 1 [1]).votes.get? k = s.votes.get? k) ∧
        s.deleteVote 1 [1] = { s with votes := (s.deleteVote 1 [1]).votes } := by
  intro sk s proposal
  have hsk : sk.ledger.Inv := Staking.fundedGenesis_inv _ _
  have hv : s.VotesKeyed := by decide
  have ht : tally s sk ⟨0, 0, 0⟩ proposal = .ok (false, false, EmptyTallyResult, s.deleteVote 1 [1]) := rfl
  exact ⟨hsk, hv, ht, tally_counts_once hsk hv ht⟩

/-- The rounding is not one unit per counted delegation.  A validator `V` holds 3000000
tokens of its own and 1000000 from each of three delegators, and all four vote: each
delegator's sixth of the shares is rounded up by a third of a unit, and the rounding is
multiplied by the 6000000 tokens, so the total voting power is 6000000 tokens and 6000000
units of `10^-18`, not at most 6000000 tokens and three units. -/
theorem tally_rounding_scales_with_tokens :
    let V : AccAddress := List.replicate Staking.AddrLen 1
    let A₁ : AccAddress := List.replicate Staking.AddrLen 2
    let A₂ : AccAddress := List.replicate Staking.AddrLen 3
    let A₃ : AccAddress := List.replicate Staking.AddrLen 4
    let start := Staking.fundedGenesis ⟨1000000, 10, 7, "stake"⟩
      ((((∅ : SortedMap AccAddress ℤ).insert V 100000000).insert A₁ 100000000).insert A₂ 100000000
        |>.insert A₃ 100000000)
    let s : State := ((((genesis ⟨∅, 0⟩ 1).setVote 1 V (NewVote 1 V .OptionYes)).setVote 1 A₁
      (NewVote 1 A₁ .OptionYes)).setVote 1 A₂ (NewVote 1 A₂ .OptionYes)).setVote 1 A₃
        (NewVote 1 A₃ .OptionYes)
    s.VotesKeyed ∧ ∃ sk, Relation.ReflTransGen Staking.Step start sk ∧ sk.ledger.Inv ∧
      sk.IterateBondedValidatorsByPower.toOption.map (fun validators =>
        (validators.map Validator.bondedTokens,
          (voterDelegations sk (currValidatorsOf validators) (s.GetVotes 1)).length)) =
        some ([6000000], 3) ∧
      ∃ results s', tallyVotingPower s sk (NewProposal ⟨"", "", "", "", ""⟩ 1 0 0) =
          .ok (results, ⟨6000000 * Dec.precisionReuse + 6000000⟩, s') ∧
        6000000 * Dec.precisionReuse + 3 < 6000000 * Dec.precisionReuse + 6000000 := by
  intro V A₁ A₂ A₃ start s
  refine ⟨by decide +revert, ?_⟩
  -- the staking run and the loops of the tally, evaluated by the kernel
  have key : (Staking.runActions start
      [(⟨1, 0⟩, .createValidator ⟨V, V, ⟨[1], [2]⟩, ⟨"stake", 3000000⟩, 1⟩),
       (⟨1, 0⟩, .delegate ⟨A₁, V, ⟨"stake", 1000000⟩⟩),
       (⟨1, 0⟩, .delegate ⟨A₂, V, ⟨"stake", 1000000⟩⟩),
       (⟨1, 0⟩, .delegate ⟨A₃, V, ⟨"stake", 1000000⟩⟩),
       (⟨1, 0⟩, .applyAndReturnValidatorSetUpdates)]).toOption.map (fun sk =>
      (sk.IterateBondedValidatorsByPower.toOption.map (fun validators =>
        (validators.map Validator.bondedTokens,
          (voterDelegations sk (currValidatorsOf validators) (s.GetVotes 1)).length)),
       (tallyVotingPower s sk (NewProposal ⟨"", "", "", "", ""⟩ 1 0 0)).toOption.map
        fun r => r.2.1)) =
      some (some ([6000000], 3), some ⟨6000000 * Dec.precisionReuse + 6000000⟩) := by
    decide +kernel +revert
  obtain ⟨sk, hrun, hsk⟩ := Except.exists_of_toOption_map key
  simp only [Prod.mk.injEq] at hsk
  obtain ⟨hval, htot⟩ := hsk
  obtain ⟨⟨results, total, s'⟩, ht, rfl⟩ := Except.exists_of_toOption_map htot
  have hrun' := Staking.run_of_runActions _ (by
    simp only [List.forall_mem_cons, List.not_mem_nil, IsEmpty.forall_iff, implies_true, and_true]
    exact ⟨⟨rfl, by decide⟩, ⟨rfl, by decide⟩, ⟨rfl, by decide⟩, ⟨rfl, by decide⟩, trivial⟩) hrun
  refine ⟨sk, hrun', Staking.inv_of_run (Staking.fundedGenesis_inv _ _) hrun', hval, results, s', ht,
    by decide⟩


/-! ### The votes are filed under their own keys along every run -/

namespace State

variable {s s' : State} {hdr : Header} {params : Params}

theorem VotesKeyed.of_subset (hv : s.VotesKeyed) (h : ∀ e ∈ s'.votes.entries, e ∈ s.votes.entries) :
    s'.VotesKeyed :=
  fun e he => hv e (h e he)

theorem VotesKeyed.setVote (hv : s.VotesKeyed) (proposalID : ℕ) (voterAddr : AccAddress)
    (option : VoteOption) : (s.setVote proposalID voterAddr (NewVote proposalID voterAddr option)).VotesKeyed := by
  rintro ⟨k, v⟩ he
  have hget := (SortedMap.mem_entries_iff _).1 he
  simp only [State.setVote, SortedMap.get?_insert] at hget
  split_ifs at hget with hk
  · cases hget
    simpa [NewVote] using hk
  · exact hv _ ((SortedMap.mem_entries_iff _).2 hget)

theorem releaseDeposits_votes {recipient : Deposit → AccAddress} {proposalID : ℕ}
    (h : s.releaseDeposits hdr recipient proposalID = .ok s') : s'.votes = s.votes := by
  rw [releaseDeposits_frame h]

theorem AddDeposit_votes {proposalID : ℕ} {depositorAddr : AccAddress} {depositAmount : Coins}
    {activated : Bool} (h : s.AddDeposit hdr params proposalID depositorAddr depositAmount = .ok (s', activated)) :
    s'.votes = s.votes := by
  obtain ⟨proposal, bank, -, -, -, -, rfl⟩ := AddDeposit_eq_ok h
  split_ifs <;> simp [addDepositRecord, activateVotingPeriod, setDeposit]

theorem handleMsgSubmitProposal_votes {router : Router} {msg : MsgSubmitProposal}
    (h : s.handleMsgSubmitProposal hdr params router msg = .ok s') : s'.votes = s.votes := by
  unfold handleMsgSubmitProposal at h
  obtain ⟨⟨proposal, s₁⟩, h₁, h⟩ := Except.bind_eq_ok.mp h
  obtain ⟨⟨s₂, activated⟩, h₂, h⟩ := Except.bind_eq_ok.mp h
  simp only [Except.pure_eq_ok, Except.ok_inj] at h
  subst h
  obtain ⟨proposalID, -, -, -, rfl⟩ := SubmitProposal_eq_ok h₁
  rw [AddDeposit_votes h₂]
  rfl

end State

/-- The end blocker deletes votes and files none. -/
theorem EndBlocker_votes {s s' : State} {hdr : Header} {params : Params} {router : Router}
    {sk : Staking.State} {tags : List ResultTag} (h : EndBlocker s hdr params router sk = .ok (s', tags)) :
    ∀ e ∈ s'.votes.entries, e ∈ s.votes.entries := by
  unfold EndBlocker at h
  obtain ⟨acc, h₁, h₂⟩ := Except.bind_eq_ok.mp h
  -- dropping a proposal leaves the votes as they are
  have hdrop : ∀ e ∈ acc.1.votes.entries, e ∈ s.votes.entries := by
    refine Except.foldlM_invariant (fun b : State × List ResultTag => ∀ e ∈ b.1.votes.entries,
      e ∈ s.votes.entries) _ (fun b key b' _ hb hstep => ?_) (s, []) acc (fun _ he => he) h₁
    obtain ⟨proposal, s₁, -, hdel, hdep, -⟩ := dropInactive_eq_ok hstep
    obtain ⟨_, -, rfl⟩ := State.DeleteProposal_eq_ok hdel
    rw [State.releaseDeposits_votes hdep]
    exact hb
  -- tallying a proposal deletes votes
  refine Except.foldlM_invariant (fun b : State × List ResultTag => ∀ e ∈ b.1.votes.entries,
    e ∈ s.votes.entries) _ (fun b key b' _ hb hstep => ?_) acc (s', tags) hdrop h₂
  obtain ⟨proposal, passes, burnDeposits, tallyResults, s₁, s₂, status, tagValue, -, ht, hdep, -, -,
    hb', -⟩ := tallyActive_eq_ok hstep
  have hv₂ : s₂.votes = s₁.votes := by
    split_ifs at hdep
    · exact State.releaseDeposits_votes hdep
    · exact State.releaseDeposits_votes hdep
  intro e he
  rw [hb', State.RemoveFromActiveProposalQueue_votes, State.SetProposal_votes, hv₂] at he
  have hget := (SortedMap.mem_entries_iff _).1 he
  rw [tally_votes ht] at hget
  split_ifs at hget
  exact hb e ((SortedMap.mem_entries_iff _).2 hget)

/-- One step of the governance state machine keeps the votes filed under their own keys. -/
theorem State.VotesKeyed.step {router : Router} {s s' : State} {tags : List ResultTag}
    (hv : s.VotesKeyed) (h : Step router s tags s') : s'.VotesKeyed := by
  obtain ⟨hdr, params, a, -, h⟩ := h
  cases a with
  | submitProposal msg =>
    obtain ⟨s₁, h₁, he⟩ := Except.map_eq_ok.mp h
    obtain ⟨rfl, -⟩ := Prod.mk.inj he
    exact hv.of_subset (by rw [State.handleMsgSubmitProposal_votes h₁]; exact fun _ he => he)
  | deposit msg =>
    obtain ⟨s₁, h₁, he⟩ := Except.map_eq_ok.mp h
    obtain ⟨rfl, -⟩ := Prod.mk.inj he
    obtain ⟨⟨s₂, activated⟩, h₂, h₃⟩ := Except.bind_eq_ok.mp h₁
    simp only [Except.pure_eq_ok, Except.ok_inj] at h₃
    subst h₃
    exact hv.of_subset (by rw [State.AddDeposit_votes h₂]; exact fun _ he => he)
  | vote msg =>
    obtain ⟨s₁, h₁, he⟩ := Except.map_eq_ok.mp h
    obtain ⟨rfl, -⟩ := Prod.mk.inj he
    unfold State.handleMsgVote at h₁
    split at h₁
    · next s₂ hadd =>
      simp only [Except.pure_eq_ok, Except.ok_inj] at h₁
      subst h₁
      obtain ⟨_, -, -, -, rfl⟩ := State.AddVote_eq_ok hadd
      exact hv.setVote _ _ _
    · simp at h₁
  | send fromAddress toAddress amount =>
    obtain ⟨bank, -, h₁⟩ := Except.bind_eq_ok.mp h
    simp only [Except.pure_eq_ok, Except.ok_inj, Prod.mk.injEq] at h₁
    obtain ⟨rfl, -⟩ := h₁
    exact hv
  | endBlock sk => exact hv.of_subset (EndBlocker_votes (Abort.lift_eq_ok.mp h))

/-- Along every run from the genesis, the votes are filed under their own keys. -/
theorem votesKeyed_of_trace {router : Router} {bank : Auth.State} {startingProposalID : ℕ}
    {tags : List ResultTag} {s : State}
    (hrun : Transition.Trace (Step router) (genesis bank startingProposalID) tags s) : s.VotesKeyed :=
  Transition.Trace.invariant (fun _ s => State.VotesKeyed s) (fun _ _ _ _ hs hstep => hs.step hstep)
    hrun (fun _ he => absurd he List.not_mem_nil)

end CosmosSdk.Gov
