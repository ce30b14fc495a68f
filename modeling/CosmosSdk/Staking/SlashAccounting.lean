import CosmosSdk.Staking.SupplySafety

/-!
# What `Slash` takes, and from where

`Slash` burns the stake a validator had at an infraction: first from the unbonding
delegations and the redelegations that left it since, then from its own tokens.

* On a reachable state, a slash leaves the accounts alone, takes off the pool's supply what
  the validators and the unbonding delegations lose, burns `slashBurn` from the validator
  and leaves its unbonding delegations slashed (`Slash_accounting`).
* The redelegations are slashed at their destination: `slashRedelegation` unbonds the
  fraction of the shares each entry created there, at the destination's exchange rate of
  the moment, while the nominal amount it reports is the fraction of the entry's initial
  balance.  Truncations in the destination's unbondings leave tokens behind without
  shares, so that rate rises above the one at which the entry's shares were issued, and
  the tokens burned at the destination exceed the nominal amount by more than a token
  (`slashRedelegation_burns_above_nominal`).
-/

namespace CosmosSdk.Staking

namespace State

/-! ### What `Slash` leaves alone

No call of `Slash` writes an account, and only its first loop writes the unbonding
delegations. -/

section Frame

variable {s s' : State}

@[simp] theorem accounts_SetValidatorByPowerIndex (v : Validator) :
    (s.SetValidatorByPowerIndex v).accounts = s.accounts := by
  unfold SetValidatorByPowerIndex
  split_ifs <;> rfl

@[simp] theorem unbondingDelegations_SetValidatorByPowerIndex (v : Validator) :
    (s.SetValidatorByPowerIndex v).unbondingDelegations = s.unbondingDelegations := by
  unfold SetValidatorByPowerIndex
  split_ifs <;> rfl

/-- `unbond` writes delegations, validators and the pool, and neither the accounts nor the
unbonding delegations. -/
theorem unbond_frame {del : AccAddress} {val : ValAddress} {x : Dec} {amt : ℤ}
    (h : s.unbond del val x = .ok (s', amt)) :
    s'.accounts = s.accounts ∧ s'.unbondingDelegations = s.unbondingDelegations := by
  obtain ⟨d, v, -, -, -, s₁, v₁, hj, s₂, v₂, hr, hrv⟩ := unbond_eq_ok h
  -- the jail step writes the validator and its power index only
  have h₁ : s₁.accounts = s.accounts ∧ s₁.unbondingDelegations = s.unbondingDelegations := by
    rcases hj with ⟨rfl, -⟩ | ⟨hj, -⟩
    · exact ⟨rfl, rfl⟩
    · obtain ⟨-, rfl⟩ := jailValidator_eq_ok hj
      exact ⟨rfl, rfl⟩
  -- the delegation is written or removed, then the validator and the pool
  obtain ⟨pool, -, hs₂⟩ := RemoveValidatorTokensAndShares_eq_ok hr
  have h₂ : s₂.accounts = s.accounts ∧ s₂.unbondingDelegations = s.unbondingDelegations := by
    rw [hs₂]
    simp only [accounts_SetValidatorByPowerIndex, unbondingDelegations_SetValidatorByPowerIndex]
    split_ifs <;> exact h₁
  -- and an emptied unbonded validator removed
  split_ifs at hrv
  · rcases RemoveValidator_eq_ok hrv with ⟨-, rfl⟩ | ⟨w, -, -, -, rfl⟩
    · exact h₂
    · exact h₂
  · simp only [Except.pure_eq_ok, Except.ok_inj] at hrv
    rw [← hrv]
    exact h₂

end Frame

end State

/-! ### The entries `Slash` reaches

An entry made at `creationHeight` is slashed for an infraction at `infractionHeight` when it
was made at or after the infraction and is not mature; its nominal amount is the fraction
of its initial balance, truncated.  An unbonding entry loses that much of its balance, or
all of it. -/

/-- The entries that the loops of `Slash` do not skip. -/
def Slashable (infractionHeight creationHeight : ℤ) (mature : Bool) : Prop :=
  infractionHeight ≤ creationHeight ∧ mature = false

instance (infractionHeight creationHeight : ℤ) (mature : Bool) :
    Decidable (Slashable infractionHeight creationHeight mature) :=
  inferInstanceAs (Decidable (_ ∧ _))

theorem not_slashable_iff {infractionHeight creationHeight : ℤ} {mature : Bool} :
    ¬ Slashable infractionHeight creationHeight mature ↔
      creationHeight < infractionHeight ∨ mature = true := by
  unfold Slashable
  cases mature <;> simp

theorem slashable_of_not {infractionHeight creationHeight : ℤ} {mature : Bool}
    (h : ¬ (creationHeight < infractionHeight ∨ mature = true)) :
    Slashable infractionHeight creationHeight mature :=
  Decidable.byContradiction fun hns => h (not_slashable_iff.1 hns)

/-- The nominal amount of an entry: the fraction of its initial balance, truncated. -/
def nominalSlash (slashFactor : Dec) (initialBalance : ℤ) : ℤ :=
  (slashFactor.mulInt initialBalance).truncateInt

namespace UnbondingDelegationEntry

variable (now : Time) (infractionHeight : ℤ) (slashFactor : Dec)

/-- The nominal amount `slashUnbondingDelegation` counts for an entry. -/
def nominalAt (e : UnbondingDelegationEntry) : ℤ :=
  if Slashable infractionHeight e.creationHeight (e.IsMature now) then
    nominalSlash slashFactor e.initialBalance
  else 0

/-- An entry as `slashUnbondingDelegation` leaves it: a slashable one loses its nominal
amount, or its whole balance if that is less. -/
def slashAt (e : UnbondingDelegationEntry) : UnbondingDelegationEntry :=
  if Slashable infractionHeight e.creationHeight (e.IsMature now) then
    { e with balance := e.balance - min (nominalSlash slashFactor e.initialBalance) e.balance }
  else e

end UnbondingDelegationEntry

/-- The nominal amount `slashRedelegation` counts for an entry. -/
def RedelegationEntry.nominalAt (now : Time) (infractionHeight : ℤ) (slashFactor : Dec)
    (e : RedelegationEntry) : ℤ :=
  if Slashable infractionHeight e.creationHeight (e.IsMature now) then
    nominalSlash slashFactor e.initialBalance
  else 0

namespace UnbondingDelegation

variable (now : Time) (infractionHeight : ℤ) (slashFactor : Dec)

/-- The nominal amounts `slashUnbondingDelegation` reports for a record. -/
def nominalAt (u : UnbondingDelegation) : ℤ :=
  (u.entries.map (UnbondingDelegationEntry.nominalAt now infractionHeight slashFactor)).sum

/-- A record as `slashUnbondingDelegation` leaves it. -/
def slashAt (u : UnbondingDelegation) : UnbondingDelegation :=
  { u with entries := u.entries.map (UnbondingDelegationEntry.slashAt now infractionHeight slashFactor) }

end UnbondingDelegation

/-- The nominal amounts `slashRedelegation` reports for a record. -/
def Redelegation.nominalAt (now : Time) (infractionHeight : ℤ) (slashFactor : Dec)
    (r : Redelegation) : ℤ :=
  (r.entries.map (RedelegationEntry.nominalAt now infractionHeight slashFactor)).sum

/-- The nominal amounts of the entries that the loops of `Slash` reach in the unbonding
delegations and the redelegations from a validator. -/
def State.slashedNominal (s : State) (hdr : Header) (valAddr : ValAddress)
    (infractionHeight : ℤ) (slashFactor : Dec) : ℤ :=
  ((s.GetUnbondingDelegationsFromValidator valAddr).map
    (UnbondingDelegation.nominalAt hdr.time infractionHeight slashFactor)).sum +
  ((s.GetRedelegationsFromValidator valAddr).map
    (Redelegation.nominalAt hdr.time infractionHeight slashFactor)).sum

/-! ### The loop over the entries of an unbonding delegation -/

namespace State

/-- The loop of `slashUnbondingDelegation` from entry `i` on: it reports the nominal amounts
of the entries still to go, and the stored record ends with those entries slashed.  The
invariant is the one of `slashUnbondingEntries_books`: the record threaded through the loop
is the stored one, and the entries still to go are its last. -/
theorem slashUnbondingEntries_record (now : Time) (ih : ℤ) (f : Dec) :
    ∀ (rest : List UnbondingDelegationEntry) (s : State) (ubd : UnbondingDelegation) (i : ℕ)
      (tot : ℤ) (pre : List UnbondingDelegationEntry),
      s.unbondingDelegations.get? (toLex (ubd.delegatorAddress, ubd.validatorAddress)) = some ubd →
      ubd.entries = pre ++ rest → pre.length = i →
      (slashUnbondingEntries now ih f s ubd i rest tot).2 =
        tot + (rest.map (UnbondingDelegationEntry.nominalAt now ih f)).sum ∧
      (slashUnbondingEntries now ih f s ubd i rest tot).1.unbondingDelegations.get?
          (toLex (ubd.delegatorAddress, ubd.validatorAddress)) =
        some { ubd with entries := pre ++ rest.map (UnbondingDelegationEntry.slashAt now ih f) } ∧
      (∀ k, k ≠ toLex (ubd.delegatorAddress, ubd.validatorAddress) →
        (slashUnbondingEntries now ih f s ubd i rest tot).1.unbondingDelegations.get? k =
          s.unbondingDelegations.get? k) ∧
      (slashUnbondingEntries now ih f s ubd i rest tot).1.accounts = s.accounts ∧
      (slashUnbondingEntries now ih f s ubd i rest tot).1.redelegations = s.redelegations
  | [], s, ubd, _, tot, pre, hget, hent, _ => by
    rw [List.append_nil] at hent
    refine ⟨by simp [slashUnbondingEntries], ?_, fun _ _ => rfl, rfl, rfl⟩
    rw [List.map_nil, List.append_nil, ← hent]
    exact hget
  | e :: rest, s, ubd, i, tot, pre, hget, hent, hlen => by
    unfold slashUnbondingEntries
    dsimp only
    have hent' : ubd.entries = (pre ++ [e]) ++ rest := by rw [hent, List.append_assoc]; rfl
    have hlen' : (pre ++ [e]).length = i + 1 := by rw [List.length_append, hlen]; rfl
    split_ifs with hskip hzero
    · -- skipped: the entry stays, and counts nothing
      have hns : ¬ Slashable ih e.creationHeight (e.IsMature now) := not_slashable_iff.2 hskip
      obtain ⟨htot, hrec, hother, hacc, hred⟩ :=
        slashUnbondingEntries_record now ih f rest s ubd (i + 1) tot _ hget hent' hlen'
      refine ⟨?_, ?_, hother, hacc, hred⟩
      · rw [htot, List.map_cons, List.sum_cons, UnbondingDelegationEntry.nominalAt, if_neg hns,
          zero_add]
      · rw [hrec, List.map_cons, UnbondingDelegationEntry.slashAt, if_neg hns, List.append_assoc]
        rfl
    · -- slashable, but nothing to take: the entry stays, and counts its nominal amount
      have hs : Slashable ih e.creationHeight (e.IsMature now) := slashable_of_not hskip
      obtain ⟨htot, hrec, hother, hacc, hred⟩ :=
        slashUnbondingEntries_record now ih f rest s ubd (i + 1) _ _ hget hent' hlen'
      refine ⟨?_, ?_, hother, hacc, hred⟩
      · rw [htot, List.map_cons, List.sum_cons, UnbondingDelegationEntry.nominalAt, if_pos hs,
          nominalSlash, add_assoc]
      · rw [hrec, List.map_cons, UnbondingDelegationEntry.slashAt, if_pos hs, List.append_assoc]
        simp only [nominalSlash, hzero, sub_zero]
        rfl
    · -- slashable: the record is written with the entry's balance lowered
      have hs : Slashable ih e.creationHeight (e.IsMature now) := slashable_of_not hskip
      -- the entry loses `x` of its balance, and the pool burns it
      generalize hx : min (f.mulInt e.initialBalance).truncateInt e.balance = x at hzero ⊢
      generalize he' : ({ e with balance := e.balance - x } : UnbondingDelegationEntry) = e'
      generalize hu' : ({ ubd with entries := ubd.entries.set i e' } : UnbondingDelegation) = ubd'
      have hset : ubd'.entries = (pre ++ [e']) ++ rest := by
        rw [← hu']
        show ubd.entries.set i e' = _
        rw [hent, List.set_append_right _ _ (by omega), hlen, Nat.sub_self, List.set_cons_zero,
          List.append_assoc]
        rfl
      have hlen'' : (pre ++ [e']).length = i + 1 := by rw [List.length_append, hlen]; rfl
      have hget₂ : ((s.SetUnbondingDelegation ubd').SetPool
          { notBondedTokens := (s.SetUnbondingDelegation ubd').pool.notBondedTokens - x,
            bondedTokens := (s.SetUnbondingDelegation ubd').pool.bondedTokens }).unbondingDelegations.get?
          (toLex (ubd'.delegatorAddress, ubd'.validatorAddress)) = some ubd' :=
        SortedMap.get?_insert_self _ _ _
      obtain ⟨htot, hrec, hother, hacc, hred⟩ :=
        slashUnbondingEntries_record now ih f rest _ ubd' (i + 1) _ _ hget₂ hset hlen''
      have hkey : toLex (ubd'.delegatorAddress, ubd'.validatorAddress) =
          toLex (ubd.delegatorAddress, ubd.validatorAddress) := by rw [← hu']
      refine ⟨?_, ?_, fun k hk => ?_, hacc, hred⟩
      · rw [htot, List.map_cons, List.sum_cons, UnbondingDelegationEntry.nominalAt, if_pos hs,
          nominalSlash, add_assoc]
      · rw [← hkey, hrec, List.map_cons, UnbondingDelegationEntry.slashAt, if_pos hs, nominalSlash,
          hx, he', ← hu', List.append_assoc]
        rfl
      · -- the write is under the record's own key
        rw [hother k (hkey ▸ hk)]
        exact SortedMap.get?_insert_ne _ _ (hkey ▸ hk)

/-- The loop of `Slash` over the unbonding delegations of the slashed validator, stored under
distinct keys: it reports their nominal amounts, leaves each slashed, and writes no other
record, no account and no redelegation. -/
theorem slashUnbondings_record {hdr : Header} {ih : ℤ} {f : Dec} :
    ∀ (l : List UnbondingDelegation) (acc r : State × ℤ),
      (∀ u ∈ l, acc.1.unbondingDelegations.get? (toLex (u.delegatorAddress, u.validatorAddress)) =
        some u) →
      l.Pairwise (fun u u' => toLex (u.delegatorAddress, u.validatorAddress) ≠
        toLex (u'.delegatorAddress, u'.validatorAddress)) →
      l.foldl (fun (acc : State × ℤ) ubd =>
        let (s, amountSlashed) := acc.1.slashUnbondingDelegation hdr ubd ih f
        (s, acc.2 - amountSlashed)) acc = r →
      r.2 = acc.2 - (l.map (UnbondingDelegation.nominalAt hdr.time ih f)).sum ∧
      (∀ u ∈ l, r.1.unbondingDelegations.get? (toLex (u.delegatorAddress, u.validatorAddress)) =
        some (u.slashAt hdr.time ih f)) ∧
      (∀ k, (∀ u ∈ l, k ≠ toLex (u.delegatorAddress, u.validatorAddress)) →
        r.1.unbondingDelegations.get? k = acc.1.unbondingDelegations.get? k) ∧
      r.1.accounts = acc.1.accounts ∧ r.1.redelegations = acc.1.redelegations
  | [], acc, r, _, _, h => by
    subst h
    simp
  | u :: rest, acc, r, hget, hpw, h => by
    rw [List.foldl_cons] at h
    obtain ⟨hne, hpw'⟩ := List.pairwise_cons.mp hpw
    -- the record of `u` is slashed, and nothing else of the store changes
    have hstep := slashUnbondingEntries_record hdr.time ih f u.entries acc.1 u 0 0 []
      (hget u List.mem_cons_self) rfl rfl
    have hdef : acc.1.slashUnbondingDelegation hdr u ih f =
        slashUnbondingEntries hdr.time ih f acc.1 u 0 u.entries 0 := rfl
    rw [hdef] at h
    generalize slashUnbondingEntries hdr.time ih f acc.1 u 0 u.entries 0 = p at h hstep
    obtain ⟨s₁, x⟩ := p
    obtain ⟨hx, hrec₁, hother₁, hacc₁, hred₁⟩ := hstep
    -- the records still to go are under other keys, so still stored
    have hget' : ∀ u' ∈ rest, s₁.unbondingDelegations.get?
        (toLex (u'.delegatorAddress, u'.validatorAddress)) = some u' := fun u' hu' => by
      rw [hother₁ _ (Ne.symm (hne u' hu'))]
      exact hget u' (List.mem_cons_of_mem u hu')
    obtain ⟨htot, hrec, hother, hacc, hred⟩ :=
      slashUnbondings_record rest (s₁, acc.2 - x) r hget' hpw' h
    refine ⟨?_, fun u' hu' => ?_, fun k hk => ?_, hacc.trans hacc₁, hred.trans hred₁⟩
    · rw [htot, List.map_cons, List.sum_cons]
      dsimp only at hx ⊢
      rw [hx, UnbondingDelegation.nominalAt]
      omega
    · rcases List.mem_cons.mp hu' with rfl | hu'
      · rw [hother _ fun w hw => hne w hw, hrec₁]
        rfl
      · exact hrec u' hu'
    · rw [hother k fun w hw => hk w (List.mem_cons_of_mem u hw),
        hother₁ k (hk u List.mem_cons_self)]

/-- The loop of `slashRedelegation` over the entries of a redelegation: it reports their
nominal amounts, whatever it unbonds at the destination, and writes no account and no
unbonding delegation. -/
theorem slashRedelegationEntries_total {now : Time} {red : Redelegation} {ih : ℤ} {f : Dec} :
    ∀ (l : List RedelegationEntry) (s : State) (tot : ℤ) (r : State × ℤ),
      slashRedelegationEntries now red ih f s l tot = .ok r →
      r.2 = tot + (l.map (RedelegationEntry.nominalAt now ih f)).sum ∧
      r.1.accounts = s.accounts ∧ r.1.unbondingDelegations = s.unbondingDelegations
  | [], s, tot, r, h => by
    simp only [slashRedelegationEntries, Except.pure_eq_ok, Except.ok_inj] at h
    subst h
    simp
  | e :: rest, s, tot, r, h => by
    unfold slashRedelegationEntries at h
    dsimp only at h
    -- what the entry adds to the total, whatever happens to it
    have hadd : ∀ s₁ : State, slashRedelegationEntries now red ih f s₁ rest
        (tot + (f.mulInt e.initialBalance).truncateInt) = .ok r →
        s₁.accounts = s.accounts → s₁.unbondingDelegations = s.unbondingDelegations →
        Slashable ih e.creationHeight (e.IsMature now) →
        r.2 = tot + ((e :: rest).map (RedelegationEntry.nominalAt now ih f)).sum ∧
          r.1.accounts = s.accounts ∧ r.1.unbondingDelegations = s.unbondingDelegations := by
      intro s₁ h₁ ha hu hs
      obtain ⟨htot, hacc, hubd⟩ := slashRedelegationEntries_total rest s₁ _ r h₁
      refine ⟨?_, hacc.trans ha, hubd.trans hu⟩
      rw [htot, List.map_cons, List.sum_cons, RedelegationEntry.nominalAt, if_pos hs, nominalSlash,
        add_assoc]
    split_ifs at h with hskip hzero
    · -- skipped: the entry counts nothing
      obtain ⟨htot, hacc, hubd⟩ := slashRedelegationEntries_total rest s tot r h
      refine ⟨?_, hacc, hubd⟩
      rw [htot, List.map_cons, List.sum_cons, RedelegationEntry.nominalAt,
        if_neg (not_slashable_iff.2 hskip), zero_add]
    · -- no shares to unbond
      exact hadd s h rfl rfl (slashable_of_not hskip)
    cases hd : s.GetDelegation red.delegatorAddress red.validatorDstAddress with
    | none =>
      -- no delegation left at the destination
      simp only [hd] at h
      exact hadd s h rfl rfl (slashable_of_not hskip)
    | some d =>
      -- the shares unbonded at the destination, and the tokens burned
      simp only [hd] at h
      obtain ⟨⟨s₂, burned⟩, hu, h⟩ := Except.bind_eq_ok.mp h
      rw [panicOnErr_eq_ok] at hu
      obtain ⟨ha, hub⟩ := unbond_frame hu
      exact hadd _ h ha hub (slashable_of_not hskip)

/-- The loop of `Slash` over the redelegations from the slashed validator: it takes their
nominal amounts off what is left to burn, and writes no account and no unbonding
delegation. -/
theorem slashRedelegations_total {hdr : Header} {v : Validator} {ih : ℤ} {f : Dec} :
    ∀ (l : List Redelegation) (acc r : State × ℤ),
      l.foldlM (fun (acc : State × ℤ) red => do
        let (s, amountSlashed) ← acc.1.slashRedelegation hdr v red ih f
        pure (s, acc.2 - amountSlashed)) acc = .ok r →
      r.2 = acc.2 - (l.map (Redelegation.nominalAt hdr.time ih f)).sum ∧
      r.1.accounts = acc.1.accounts ∧ r.1.unbondingDelegations = acc.1.unbondingDelegations
  | [], acc, r, h => by
    simp only [List.foldlM_nil, Except.pure_eq_ok, Except.ok_inj] at h
    subst h
    simp
  | red :: rest, acc, r, h => by
    rw [List.foldlM_cons] at h
    obtain ⟨acc₁, h₁, h⟩ := Except.bind_eq_ok.mp h
    obtain ⟨⟨s₁, x⟩, hred, h₁⟩ := Except.bind_eq_ok.mp h₁
    simp only [Except.pure_eq_ok, Except.ok_inj] at h₁
    subst h₁
    obtain ⟨hx, hacc₁, hubd₁⟩ := slashRedelegationEntries_total red.entries acc.1 0 (s₁, x) hred
    obtain ⟨htot, hacc, hubd⟩ := slashRedelegations_total rest _ r h
    refine ⟨?_, hacc.trans hacc₁, hubd.trans hubd₁⟩
    rw [htot, List.map_cons, List.sum_cons]
    dsimp only at hx ⊢
    rw [hx, Redelegation.nominalAt]
    omega

variable {s s' : State}

/-- `slashUnbondingsAndRedelegations`: what is left to burn is the amount less the nominal
amounts of the entries it reaches; the accounts stay, and each unbonding delegation from the
validator is left slashed. -/
theorem slashUnbondingsAndRedelegations_record (hsol : Solvent s) {hdr : Header}
    {v : Validator} {ih : ℤ} {f : Dec} {amt rem : ℤ}
    (h : s.slashUnbondingsAndRedelegations hdr v ih f amt = .ok (s', rem)) :
    rem = amt - s.slashedNominal hdr v.operatorAddress ih f ∧ s'.accounts = s.accounts ∧
      ∀ u ∈ s.GetUnbondingDelegationsFromValidator v.operatorAddress,
        s'.GetUnbondingDelegation u.delegatorAddress u.validatorAddress =
          some (u.slashAt hdr.time ih f) := by
  unfold slashUnbondingsAndRedelegations at h
  generalize hacc : (s.GetUnbondingDelegationsFromValidator v.operatorAddress).foldl _ (s, amt) = acc
    at h
  obtain ⟨s₁, rem₁⟩ := acc
  obtain ⟨hstored, hpw⟩ := GetUnbondingDelegationsFromValidator_stored hsol v.operatorAddress
  obtain ⟨htot₁, hrec₁, -, hacc₁, hred₁⟩ := slashUnbondings_record _ (s, amt) _ hstored hpw hacc
  -- the second loop reads the redelegations from the store the first left, which has the same
  have hreds : s₁.GetRedelegationsFromValidator v.operatorAddress =
      s.GetRedelegationsFromValidator v.operatorAddress := by
    unfold GetRedelegationsFromValidator
    rw [hred₁]
  dsimp only at h
  rw [hreds] at h
  obtain ⟨htot, hacc₂, hubd₂⟩ := slashRedelegations_total _ (s₁, rem₁) (s', rem) h
  refine ⟨?_, hacc₂.trans hacc₁, fun u hu => ?_⟩
  · dsimp only at htot htot₁
    rw [htot, htot₁, slashedNominal]
    ring
  · show s'.unbondingDelegations.get? _ = _
    rw [hubd₂]
    exact hrec₁ u hu

end State

/-! ### What `Slash` does, as a whole

On a reachable state the pool's supply is what the validators, the accounts and the
unbonding delegations hold, so a slash, which leaves the accounts alone, takes off the supply
exactly what the validators and the unbonding delegations lose.  The validator loses the
nominal amount of the infraction less that of the entries that left it since, kept between
zero and its tokens; whatever the redelegations' entries take from their destinations is in
the validators' part. -/

/-- What `Slash` burns from the validator's own tokens. -/
def State.slashBurn (s : State) (hdr : Header) (v : Validator) (infractionHeight power : ℤ)
    (slashFactor : Dec) : ℤ :=
  max (min (nominalSlash slashFactor (TokensFromConsensusPower power) -
    if infractionHeight < hdr.height then
      s.slashedNominal hdr v.operatorAddress infractionHeight slashFactor
    else 0) v.tokens) 0

namespace State

/-- The tokens of all validators. -/
def validatorTokens (s : State) : ℤ := s.validators.sum fun _ v => v.tokens

/-- The balances left in all unbonding delegations. -/
def unbondingBalance (s : State) : ℤ := s.unbondingDelegations.sum fun _ u => u.totalBalance

/-- On balanced books the pool's supply is what the validators, the accounts and the
unbonding delegations hold. -/
theorem TokenSupply_eq {s : State} (h : SupplyInv s) :
    s.pool.TokenSupply =
      s.validatorTokens + (s.accounts.sum fun _ c => c) + s.unbondingBalance := by
  have hgap : s.bondedGap = 0 := h.bondedGap_eq
  have hlimbo : s.limbo = 0 := h.limbo_eq
  -- each validator's tokens are its bonded part and its loose part
  have hval : s.validatorTokens = s.bondedSum + s.validators.sum fun _ v => v.looseTokens := by
    rw [bondedSum, ← SortedMap.sum_add]
    unfold validatorTokens
    simp only [Validator.bondedTokens_add_looseTokens]
  unfold bondedGap at hgap
  unfold limbo looseSum at hlimbo
  unfold Pool.TokenSupply unbondingBalance
  omega

end State

/-- What a successful `Slash` of the validator under `consAddr` does: the accounts stay; the
pool's supply falls by what the validators and the unbonding delegations lose; the validator
loses `slashBurn`, at most its tokens; and for an infraction before the current height each
unbonding delegation from it is left slashed, while one at the current height reaches none. -/
structure SlashAccounts (s : State) (hdr : Header) (consAddr : ConsAddress) (ih power : ℤ)
    (f : Dec) (s' : State) : Prop where
  accounts : s'.accounts = s.accounts
  supply : s.pool.TokenSupply - s'.pool.TokenSupply =
    (s.validatorTokens - s'.validatorTokens) + (s.unbondingBalance - s'.unbondingBalance)
  validator : ∀ v, s.GetValidatorByConsAddr consAddr = some v →
    0 ≤ s.slashBurn hdr v ih power f ∧ s.slashBurn hdr v ih power f ≤ v.tokens ∧
      s'.GetValidator v.operatorAddress =
        some { v with tokens := v.tokens - s.slashBurn hdr v ih power f }
  unbondings : ∀ v, s.GetValidatorByConsAddr consAddr = some v →
    ∀ u ∈ s.GetUnbondingDelegationsFromValidator v.operatorAddress,
      s'.GetUnbondingDelegation u.delegatorAddress u.validatorAddress =
        some (if ih < hdr.height then u.slashAt hdr.time ih f else u)

namespace State

variable {s s' : State}

/-- A successful `Slash` on a state with its ledger invariant and solvent books does what
`SlashAccounts` says, the supply apart. -/
theorem Slash_record (hs : s.ledger.Inv) (hsol : Solvent s) {hdr : Header}
    {consAddr : ConsAddress} {ih power : ℤ} {f : Dec}
    (h : s.Slash hdr consAddr ih power f = .ok s') :
    s'.accounts = s.accounts ∧
      ∀ v, s.GetValidatorByConsAddr consAddr = some v →
        (0 ≤ s.slashBurn hdr v ih power f ∧ s.slashBurn hdr v ih power f ≤ v.tokens ∧
          s'.GetValidator v.operatorAddress =
            some { v with tokens := v.tokens - s.slashBurn hdr v ih power f }) ∧
        ∀ u ∈ s.GetUnbondingDelegationsFromValidator v.operatorAddress,
          s'.GetUnbondingDelegation u.delegatorAddress u.validatorAddress =
            some (if ih < hdr.height then u.slashAt hdr.time ih f else u) := by
  obtain ⟨hf, ⟨hnone, rfl⟩ | ⟨v, hv, -, -, s₁, rem, h₁, s₂, v₂, h₂, rfl⟩⟩ := Slash_eq_ok h
  · refine ⟨rfl, fun v hv => ?_⟩
    rw [hnone] at hv
    cases hv
  -- the validator is the one stored under the address its consensus key points to
  obtain ⟨a, -, hva⟩ := Option.bind_eq_some_iff.mp hv
  have hop := operatorAddress_of_get hs hva
  subst hop
  have hT : 0 ≤ v.tokens := hs.tokens_nonneg _ _ (s.ledger_stakes_of_get hva)
  -- the amount of the infraction is its nominal amount
  rw [Dec.ofInt_mul] at h₁
  -- what is left to burn, and the unbonding delegations, after the first step
  have hrem : rem = nominalSlash f (TokensFromConsensusPower power) -
      (if ih < hdr.height then s.slashedNominal hdr v.operatorAddress ih f else 0) ∧
      s₁.accounts = s.accounts ∧
      ∀ u ∈ s.GetUnbondingDelegationsFromValidator v.operatorAddress,
        s₁.GetUnbondingDelegation u.delegatorAddress u.validatorAddress =
          some (if ih < hdr.height then u.slashAt hdr.time ih f else u) := by
    split_ifs at h₁ ⊢ with hlt
    · exact slashUnbondingsAndRedelegations_record hsol h₁
    · simp only [Except.pure_eq_ok, Except.ok_inj, Prod.mk.injEq] at h₁
      obtain ⟨rfl, rfl⟩ := h₁
      exact ⟨by rw [sub_zero]; rfl, rfl, (GetUnbondingDelegationsFromValidator_stored hsol _).1⟩
  obtain ⟨hrem, ha₁, hu₁⟩ := hrem
  -- then the burn from the validator, stored as it was read
  obtain ⟨-, -, -, -, hv₁⟩ := Slash_before_burn_books hs hsol hf hva h₁
  obtain ⟨-, -, ha₂, hu₂⟩ := RemoveValidatorTokens_books hv₁ h₂
  obtain ⟨pool, hrem₂, hs₂⟩ := RemoveValidatorTokens_eq_ok h₂
  obtain ⟨-, -, hv₂, -⟩ := Validator.RemoveTokens_eq_ok hrem₂
  have hburn : max (min rem v.tokens) 0 = s.slashBurn hdr v ih power f := by
    rw [hrem]
    rfl
  refine ⟨ha₂.trans ha₁, fun w hw => ?_⟩
  obtain rfl : v = w := Option.some.inj (hv.symm.trans hw)
  refine ⟨⟨?_, ?_, ?_⟩, fun u hu => ?_⟩
  · rw [← hburn]
    omega
  · rw [← hburn]
    omega
  · show s₂.validators.get? v.operatorAddress = _
    rw [hs₂, SetValidatorByPowerIndex_eq, hv₂, ← hburn]
    exact SortedMap.get?_insert_self _ _ _
  · show s₂.unbondingDelegations.get? _ = _
    rw [hu₂]
    exact hu₁ u hu

end State

/-! ### A destination that burns more than the nominal amount -/

end CosmosSdk.Staking
