import CosmosSdk.Staking.Slash

/-!
# The validator-set update

`keeper/val_state_change.go`, `ApplyAndReturnValidatorSetUpdates`: walk the power index from
the highest rank down, bond each of the first `MaxValidators` validators with positive
power, record the power of those whose power changed or that are new, then begin the
unbonding of every validator of the last set that was not reached, and return the updates
for tendermint.

* The walk reads the power index as it was when the walk began.  The only writes the walk
  makes to the index are those of `bondValidator`, which deletes and sets again the key of
  the validator being visited; the key does not depend on the status, so the live
  iterator of the source yields the same entries.
* The map `last` of the source is keyed by the address copied into an `[AddrLen]byte`
  array (`copyAddr`), and holds the amino encoding of each power.  The encoding of an
  `int64` is injective, so the model keeps the power itself and compares powers.
-/

namespace CosmosSdk.Staking

/-- A byte string copied into an `[AddrLen]byte` array: cut, or padded with zeros. -/
def copyAddr (addr : Bytes) : Bytes := addr.take AddrLen ++ List.replicate (AddrLen - addr.length) 0

namespace State

/-- `getLastValidatorsByAddr`: the last validator set, from the address array to the power. -/
def getLastValidatorsByAddr (s : State) : SortedMap Bytes ℤ :=
  s.lastValidatorPower.entries.foldl (fun last e => last.insert (copyAddr e.1) e.2) ∅

/-- The accumulator of the walk over the power index: the state, the part of the last set
not reached yet, the updates so far, the count of validators reached, and their power. -/
structure ApplyAcc where
  s : State
  last : SortedMap Bytes ℤ
  updates : List ValidatorUpdate
  count : ℕ
  totalPower : ℤ

/-- One validator of the walk: bond it if need be, record its power if it changed, and take
it out of `last`.  `none` is the `break` on a validator with no power. -/
def applyValidator (acc : ApplyAcc) (valAddr : ValAddress) :
    Except Fault (Option ApplyAcc) := do
  let validator ← acc.s.mustGetValidator valAddr
  if validator.jailed then throw (.panic "should never retrieve a jailed validator from the power store")
  if validator.PotentialConsensusPower = 0 then return none
  let (s, validator) ←
    (match validator.status with
     | .unbonded => acc.s.unbondedToBonded validator
     | .unbonding => acc.s.unbondingToBonded validator
     | .bonded => pure (acc.s, validator))
  let valAddrBytes := copyAddr valAddr
  let oldPowerBytes := acc.last.get? valAddrBytes
  let newPower := validator.ConsensusPower
  let (s, updates) :=
    if oldPowerBytes ≠ some newPower then
      (s.SetLastValidatorPower valAddr newPower, acc.updates ++ [validator.ABCIValidatorUpdate])
    else (s, acc.updates)
  pure (some ⟨s, acc.last.erase valAddrBytes, updates, acc.count + 1, acc.totalPower + newPower⟩)

/-- The walk over the power index, highest rank first, while fewer than `maxValidators`
validators have been reached. -/
def applyPowerIndex (maxValidators : ℕ) :
    ApplyAcc → List (Bytes × ValAddress) → Except Fault ApplyAcc
  | acc, [] => pure acc
  | acc, (_, valAddr) :: rest => do
    if maxValidators ≤ acc.count then return acc
    match ← applyValidator acc valAddr with
    | none => pure acc
    | some acc => applyPowerIndex maxValidators acc rest

/-- One validator that is no longer bonded: begin its unbonding, drop it from the last set,
and report power zero. -/
def unbondNoLongerBonded (hdr : Header) (acc : State × List ValidatorUpdate)
    (valAddrBytes : Bytes) : Except Fault (State × List ValidatorUpdate) := do
  let validator ← acc.1.mustGetValidator valAddrBytes
  let (s, _) ← acc.1.bondedToUnbonding hdr validator
  let s := s.DeleteLastValidatorPower valAddrBytes
  pure (s, acc.2 ++ [validator.ABCIValidatorUpdateZero])

/-- `ApplyAndReturnValidatorSetUpdates`.  The validators no longer bonded are taken in the
order of their addresses (`sortNoLongerBonded`), the order of the keys of `last`. -/
def ApplyAndReturnValidatorSetUpdates (s : State) (hdr : Header) :
    Except Fault (State × List ValidatorUpdate) := do
  let maxValidators := s.params.maxValidators
  let last := s.getLastValidatorsByAddr
  let acc ← applyPowerIndex maxValidators ⟨s, last, [], 0, 0⟩ s.validatorsByPower.entries.reverse
  let noLongerBonded := acc.last.entries.map Prod.fst
  let (s, updates) ← noLongerBonded.foldlM (unbondNoLongerBonded hdr) (acc.s, acc.updates)
  let s := if updates.isEmpty then s else s.SetLastTotalPower acc.totalPower
  pure (s, updates)

/-! ### What each step does -/

section Spec

variable {acc : ApplyAcc} {valAddr : ValAddress} {r : Option ApplyAcc}

/-- One validator of the walk: it is stored and not jailed; with no power the walk stops,
otherwise it is bonded unless it was, and its power is recorded if it changed. -/
theorem applyValidator_eq_ok (h : applyValidator acc valAddr = .ok r) :
    ∃ v, acc.s.GetValidator valAddr = some v ∧ v.jailed = false ∧
      (v.PotentialConsensusPower = 0 ∧ r = none ∨
       v.PotentialConsensusPower ≠ 0 ∧ ∃ s₁ v₁,
        (v.status = .bonded ∧ s₁ = acc.s ∧ v₁ = v ∨
          v.status ≠ .bonded ∧ acc.s.bondValidator v = .ok (s₁, v₁)) ∧
        r = some (if acc.last.get? (copyAddr valAddr) ≠ some v₁.ConsensusPower then
            ⟨s₁.SetLastValidatorPower valAddr v₁.ConsensusPower, acc.last.erase (copyAddr valAddr),
              acc.updates ++ [v₁.ABCIValidatorUpdate], acc.count + 1,
              acc.totalPower + v₁.ConsensusPower⟩
          else ⟨s₁, acc.last.erase (copyAddr valAddr), acc.updates, acc.count + 1,
              acc.totalPower + v₁.ConsensusPower⟩)) := by
  unfold applyValidator at h
  obtain ⟨v, hv, h⟩ := Except.bind_eq_ok.mp h
  rw [mustGetValidator_eq_ok] at hv
  simp only [Except.throw_eq_error, Except.error_bind, Except.ite_error_eq_ok,
    Bool.not_eq_true] at h
  obtain ⟨hj, h⟩ := h
  refine ⟨v, hv, hj, ?_⟩
  by_cases hp : v.PotentialConsensusPower = 0
  · simp only [hp, if_true, Except.pure_eq_ok, Except.ok_inj] at h
    exact Or.inl ⟨hp, h.symm⟩
  simp only [hp, if_false] at h
  obtain ⟨⟨s₁, v₁⟩, hb, h⟩ := Except.bind_eq_ok.mp h
  refine Or.inr ⟨hp, s₁, v₁, ?_, ?_⟩
  · -- the three statuses: the two transitions to bonded, or nothing to do
    cases hs : v.status with
    | unbonded =>
      simp only [hs] at hb
      exact Or.inr ⟨by simp, unbondedToBonded_eq_ok hb⟩
    | unbonding =>
      simp only [hs] at hb
      exact Or.inr ⟨by simp, unbondingToBonded_eq_ok hb⟩
    | bonded =>
      simp only [hs, Except.pure_eq_ok, Except.ok_inj, Prod.mk.injEq] at hb
      exact Or.inl ⟨rfl, hb.1.symm, hb.2.symm⟩
  · split_ifs at h ⊢ with hc <;>
      simp only [Except.pure_eq_ok, Except.ok_inj] at h <;> exact h.symm

theorem unbondNoLongerBonded_eq_ok {hdr : Header} {acc acc' : State × List ValidatorUpdate}
    {a : Bytes} (h : unbondNoLongerBonded hdr acc a = .ok acc') :
    ∃ v s₁ v₁, acc.1.GetValidator a = some v ∧ acc.1.bondedToUnbonding hdr v = .ok (s₁, v₁) ∧
      acc' = (s₁.DeleteLastValidatorPower a, acc.2 ++ [v.ABCIValidatorUpdateZero]) := by
  unfold unbondNoLongerBonded at h
  obtain ⟨v, hv, h⟩ := Except.bind_eq_ok.mp h
  obtain ⟨⟨s₁, v₁⟩, hb, h⟩ := Except.bind_eq_ok.mp h
  simp only [Except.pure_eq_ok, Except.ok_inj] at h
  exact ⟨v, s₁, v₁, (mustGetValidator_eq_ok _).mp hv, hb, h.symm⟩

theorem ApplyAndReturnValidatorSetUpdates_eq_ok {s s' : State} {hdr : Header}
    {updates : List ValidatorUpdate}
    (h : s.ApplyAndReturnValidatorSetUpdates hdr = .ok (s', updates)) :
    ∃ acc s₁, applyPowerIndex s.params.maxValidators ⟨s, s.getLastValidatorsByAddr, [], 0, 0⟩
        s.validatorsByPower.entries.reverse = .ok acc ∧
      (acc.last.entries.map Prod.fst).foldlM (unbondNoLongerBonded hdr) (acc.s, acc.updates) =
        .ok (s₁, updates) ∧
      s' = if updates.isEmpty then s₁ else s₁.SetLastTotalPower acc.totalPower := by
  unfold ApplyAndReturnValidatorSetUpdates at h
  obtain ⟨acc, ha, h⟩ := Except.bind_eq_ok.mp h
  obtain ⟨⟨s₁, u⟩, hu, h⟩ := Except.bind_eq_ok.mp h
  simp only [Except.pure_eq_ok, Except.ok_inj, Prod.mk.injEq] at h
  obtain ⟨rfl, rfl⟩ := h
  exact ⟨acc, s₁, ha, hu, rfl⟩

end Spec

end State

end CosmosSdk.Staking
