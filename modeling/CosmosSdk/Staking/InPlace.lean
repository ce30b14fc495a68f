import CosmosSdk.Staking.SupplySafety

/-!
# Keeper calls on a store written in place

The keeper writes into the context's store as it goes, so a call that returns an error
leaves behind the writes it made before the error: the transaction's cache drops them when
the message fails, but the keeper's own caller reads them.  The model's calls return a state
only when they succeed; `InPlace` adds the store a returned error leaves.

* `unbond` returns its errors before its first write (`unbond_eq_err`), and so does
  `Delegate` when the coins do not leave an account (`Delegate_eq_err`): run in place, such a
  call leaves the store as it was when it returns an error (`inPlace`).
* `UndelegateInPlace` and `BeginRedelegationInPlace` are `Undelegate` and
  `BeginRedelegation` with the store written in place; they return what the model's calls
  return, and on success the same store (`UndelegateInPlace_returned`,
  `BeginRedelegationInPlace_returned`).
* `Undelegate` checks the number of unbonding entries after `unbond` has written: an
  `Undelegate` refused for it leaves a smaller delegation, and fewer tokens on the
  validator, than before the call (`Undelegate_keeps_unbond_writes`).
-/

namespace CosmosSdk.Staking

/-- An error the call returns, as opposed to a panic. -/
def Fault.IsErr : Fault → Prop
  | .err _ => True
  | _ => False

@[simp] theorem Fault.isErr_err (e : Err) : (Fault.err e).IsErr := trivial

@[simp] theorem Fault.not_isErr_panic (msg : String) : ¬ (Fault.panic msg).IsErr := id

@[simp] theorem Fault.not_isErr_panicErr (e : Err) : ¬ (Fault.panicErr e).IsErr := id

/-- How a keeper call ends on a store written in place: the error it returns, or its value,
with the store as the call leaves it; a panic unwinds and leaves no store to read. -/
abbrev InPlace (α : Type) := Except Fault (Except Err α × State)

/-- A call of the model that returns its errors before its first write, run in place on `s`. -/
def inPlace {α : Type} (s : State) : Except Fault (State × α) → InPlace α
  | .ok (s', a) => .ok (.ok a, s')
  | .error (.err e) => .ok (.error e, s)
  | .error f => .error f

/-- What a call of the model returns, with the store left out: its value or its error. -/
def returned {α : Type} : Except Fault (State × α) → Except Fault (Except Err α)
  | .ok (_, a) => .ok (.ok a)
  | .error (.err e) => .ok (.error e)
  | .error f => .error f

@[simp] theorem returned_ok {α : Type} (s : State) (a : α) :
    returned (.ok (s, a) : Except Fault (State × α)) = .ok (.ok a) := rfl

@[simp] theorem returned_err {α : Type} (e : Err) :
    returned (.error (.err e) : Except Fault (State × α)) = .ok (.error e) := rfl

/-- Run in place, a call returns what it returns in the model. -/
@[simp] theorem inPlace_returned {α : Type} (s : State) (x : Except Fault (State × α)) :
    (inPlace s x).map Prod.fst = returned x := by
  rcases x with f | ⟨s', a⟩
  · cases f <;> rfl
  · rfl

/-! ### Errors before writes

Every call `unbond` makes after its three reads panics rather than returns an error. -/

section Avoids

open Except

theorem avoids_liftPanic {α : Type} (x : Except Panic α) : Avoids Fault.IsErr (liftPanic x) := by
  cases x <;> simp [liftPanic, Except.mapError]

theorem Validator.avoids_TokensFromShares (v : Validator) (shares : Dec) :
    Avoids Fault.IsErr (v.TokensFromShares shares) :=
  avoids_liftPanic _

theorem Pool.avoids_bondedTokensToNotBonded (p : Pool) (x : ℤ) :
    Avoids Fault.IsErr (p.bondedTokensToNotBonded x) := by
  unfold Pool.bondedTokensToNotBonded
  dsimp only
  split_ifs <;> simp

theorem Validator.avoids_RemoveDelShares (v : Validator) (pool : Pool) (delShares : Dec) :
    Avoids Fault.IsErr (v.RemoveDelShares pool delShares) := by
  unfold Validator.RemoveDelShares
  refine avoids_bind.2 ⟨?_, fun issued _ => avoids_bind.2 ⟨?_, fun _ _ => avoids_pure _⟩⟩
  · -- the tokens the shares are worth
    split_ifs
    · exact avoids_pure _
    · refine avoids_bind.2 ⟨v.avoids_TokensFromShares delShares, fun _ _ => ?_⟩
      dsimp only
      split_ifs <;> simp
  · -- the pool
    split_ifs
    · exact Pool.avoids_bondedTokensToNotBonded _ _
    · exact avoids_pure _

variable (s : State)

theorem State.avoids_RemoveValidatorTokensAndShares (v : Validator) (shares : Dec) :
    Avoids Fault.IsErr (s.RemoveValidatorTokensAndShares v shares) := by
  unfold State.RemoveValidatorTokensAndShares
  exact avoids_bind.2 ⟨Validator.avoids_RemoveDelShares _ _ _, fun _ _ => avoids_pure _⟩

theorem State.avoids_jailValidator (v : Validator) : Avoids Fault.IsErr (s.jailValidator v) := by
  unfold State.jailValidator
  split_ifs <;> simp

theorem State.avoids_mustGetValidator (a : ValAddress) :
    Avoids Fault.IsErr (s.mustGetValidator a) := by
  unfold State.mustGetValidator
  split <;> simp

theorem State.avoids_RemoveValidator (a : ValAddress) :
    Avoids Fault.IsErr (s.RemoveValidator a) := by
  unfold State.RemoveValidator
  split
  · exact avoids_pure _
  · split_ifs <;> simp

theorem avoids_mustOk {α : Type} (x : Except Fault α) : Avoids Fault.IsErr (mustOk x) := by
  rcases x with (_ | _ | _) | _ <;> simp [mustOk, Except.tryCatch]

theorem Pool.avoids_notBondedTokensToBonded (p : Pool) (x : ℤ) :
    Avoids Fault.IsErr (p.notBondedTokensToBonded x) := by
  unfold Pool.notBondedTokensToBonded
  dsimp only
  split_ifs <;> simp

theorem Validator.avoids_AddTokensFromDel (v : Validator) (pool : Pool) (amount : ℤ) :
    Avoids Fault.IsErr (v.AddTokensFromDel pool amount) := by
  unfold Validator.AddTokensFromDel
  simp [avoids_bind, avoids_ite, avoids_mustOk, Pool.avoids_notBondedTokensToBonded]

theorem State.avoids_AddValidatorTokensAndShares (s : State) (v : Validator) (amount : ℤ) :
    Avoids Fault.IsErr (s.AddValidatorTokensAndShares v amount) := by
  unfold State.AddValidatorTokensAndShares
  exact avoids_bind.2 ⟨Validator.avoids_AddTokensFromDel _ _ _, fun _ _ => avoids_pure _⟩

end Avoids

namespace State

variable {s : State} {del : AccAddress} {val : ValAddress} {x : Dec} {e : Err}

/-- `unbond` returns an error only from its three reads: no delegation, too few shares, no
validator.  Every write comes after them. -/
theorem unbond_eq_err (h : s.unbond del val x = .error (.err e)) :
    (s.GetDelegation del val = none ∧ e = .noDelegatorForAddress) ∨
      (∃ d, s.GetDelegation del val = some d ∧ d.shares < x ∧ e = .notEnoughDelegationShares) ∨
      (∃ d, s.GetDelegation del val = some d ∧ ¬ d.shares < x ∧ s.GetValidator val = none ∧
        e = .noValidatorFound) := by
  cases hd : s.GetDelegation del val with
  | none =>
    simp only [unbond, hd] at h
    exact Or.inl ⟨rfl, by cases h; rfl⟩
  | some d =>
    by_cases hx : d.shares < x
    · simp only [unbond, hd, hx, if_true] at h
      exact Or.inr (Or.inl ⟨d, rfl, hx, by cases h; rfl⟩)
    · cases hv : s.GetValidator val with
      | none =>
        simp only [unbond, hd, hx, hv, if_false] at h
        exact Or.inr (Or.inr ⟨d, rfl, hx, rfl, by cases h; rfl⟩)
      | some v =>
        -- past the reads, every call panics rather than returns an error
        have htail : Except.Avoids Fault.IsErr (s.unbond del val x) := by
          unfold unbond
          simp only [hd, hx, hv, if_false]
          simp [Except.avoids_bind, Except.avoids_ite, State.avoids_jailValidator,
            State.avoids_mustGetValidator, Validator.avoids_TokensFromShares,
            State.avoids_RemoveValidatorTokensAndShares, State.avoids_RemoveValidator]
        exact absurd trivial (htail _ h)

/-- `Delegate` of coins that do not leave an account returns an error only from its first
check, an invalid exchange rate, before any write. -/
theorem Delegate_eq_err {amt : ℤ} {v : Validator}
    (h : s.Delegate del amt v false = .error (.err e)) :
    v.InvalidExRate = true ∧ e = .delegatorShareExRateInvalid := by
  by_cases hv : v.InvalidExRate = true
  · simp only [Delegate, hv, if_true] at h
    exact ⟨hv, by cases h; rfl⟩
  · -- past the check, every call panics rather than returns an error
    have htail : Except.Avoids Fault.IsErr (s.Delegate del amt v false) := by
      simp only [Delegate, hv, Bool.false_eq_true, if_false]
      simp [Except.avoids_bind, State.avoids_AddValidatorTokensAndShares]
    exact absurd trivial (htail _ h)

/-! ### `Undelegate` and `BeginRedelegation` in place -/

/-- `Undelegate` on the store in place: `unbond` writes before the entry check. -/
def UndelegateInPlace (s : State) (hdr : Header) (delAddr : AccAddress) (valAddr : ValAddress)
    (sharesAmount : Dec) : InPlace Time :=
  match inPlace s (s.unbond delAddr valAddr sharesAmount) with
  | .error f => .error f
  | .ok (.error e, s) => .ok (.error e, s)
  | .ok (.ok returnAmount, s) =>
    if s.HasMaxUnbondingDelegationEntries delAddr valAddr then
      .ok (.error .maxUnbondingDelegationEntries, s)
    else
      let completionTime := hdr.time + s.params.unbondingTime
      let (s, _) :=
        s.SetUnbondingDelegationEntry delAddr valAddr hdr.height completionTime returnAmount
      .ok (.ok completionTime, s)

/-- `BeginRedelegation` on the store in place: `unbond` writes before the amount and the
destination are checked, and `Delegate` writes after. -/
def BeginRedelegationInPlace (s : State) (hdr : Header) (delAddr : AccAddress)
    (valSrcAddr valDstAddr : ValAddress) (sharesAmount : Dec) : InPlace Time :=
  if valSrcAddr = valDstAddr then .ok (.error .selfRedelegation, s)
  else if s.HasReceivingRedelegation delAddr valSrcAddr then
    .ok (.error .transitiveRedelegation, s)
  else if s.HasMaxRedelegationEntries delAddr valSrcAddr valDstAddr then
    .ok (.error .maxRedelegationEntries, s)
  else
    match inPlace s (s.unbond delAddr valSrcAddr sharesAmount) with
    | .error f => .error f
    | .ok (.error e, s) => .ok (.error e, s)
    | .ok (.ok returnAmount, s) =>
      if returnAmount = 0 then .ok (.error .verySmallRedelegation, s)
      else
        match s.GetValidator valDstAddr with
        | none => .ok (.error .badRedelegationDst, s)
        | some dstValidator =>
          match inPlace s (s.Delegate delAddr returnAmount dstValidator false) with
          | .error f => .error f
          | .ok (.error e, s) => .ok (.error e, s)
          | .ok (.ok sharesCreated, s) =>
            let (completionTime, height, completeNow) := s.getBeginInfo hdr valSrcAddr
            if completeNow then .ok (.ok completionTime, s)
            else
              let (s, _) :=
                s.SetRedelegationEntry delAddr valSrcAddr valDstAddr height completionTime
                  returnAmount sharesAmount sharesCreated
              .ok (.ok completionTime, s)

variable {hdr : Header} {s' : State} {t : Time}

/-- In place, `Undelegate` returns what the model's `Undelegate` returns. -/
theorem UndelegateInPlace_returned (s : State) (hdr : Header) (del : AccAddress)
    (val : ValAddress) (x : Dec) :
    (s.UndelegateInPlace hdr del val x).map Prod.fst = returned (s.Undelegate hdr del val x) := by
  unfold UndelegateInPlace Undelegate
  rcases hu : s.unbond del val x with f | ⟨s₁, amt⟩
  · cases f <;> rfl
  · simp only [inPlace, Except.ok_bind]
    split_ifs <;> rfl

/-- In place, an `Undelegate` that succeeds leaves the model's store. -/
theorem UndelegateInPlace_of_eq_ok (h : s.Undelegate hdr del val x = .ok (s', t)) :
    s.UndelegateInPlace hdr del val x = .ok (.ok t, s') := by
  unfold Undelegate at h
  unfold UndelegateInPlace
  rcases hu : s.unbond del val x with f | ⟨s₁, amt⟩
  · simp [hu] at h
  · simp only [hu, Except.ok_bind] at h
    simp only [inPlace]
    split_ifs at h ⊢ with hmax
    · cases h
    · simp only [Except.pure_eq_ok, Except.ok_inj, Prod.mk.injEq] at h
      obtain ⟨rfl, rfl⟩ := h
      rfl

/-- In place, `BeginRedelegation` returns what the model's `BeginRedelegation` returns. -/
theorem BeginRedelegationInPlace_returned (s : State) (hdr : Header) (del : AccAddress)
    (src dst : ValAddress) (x : Dec) :
    (s.BeginRedelegationInPlace hdr del src dst x).map Prod.fst =
      returned (s.BeginRedelegation hdr del src dst x) := by
  unfold BeginRedelegationInPlace BeginRedelegation
  split_ifs
  all_goals try rfl
  rcases hu : s.unbond del src x with f | ⟨s₁, amt⟩
  · cases f <;> rfl
  · simp only [inPlace, Except.ok_bind]
    split_ifs
    · rfl
    · cases hdst : s₁.GetValidator dst with
      | none => rfl
      | some v =>
        dsimp only
        rcases hdel : s₁.Delegate del amt v false with f | ⟨s₂, sh⟩
        · cases f <;> rfl
        · simp only [Except.ok_bind]
          split_ifs <;> rfl

end State

/-- From a genesis that funds `A` with 100 and allows one unbonding entry a pair, `A` creates
a validator with a self-bond of 10 and undelegates 1.  `Undelegate` of one more share then
returns the error for too many entries, and in place leaves the delegation at 8 shares and
the validator at 8 tokens, where the call found 9 and 9. -/
theorem Undelegate_keeps_unbond_writes :
    let A : AccAddress := List.replicate AddrLen 4
    let genesis := fundedGenesis ⟨0, 1, 1, "stake"⟩ ((∅ : SortedMap AccAddress ℤ).insert A 100)
    ∃ s, Relation.ReflTransGen Step genesis s ∧
      s.Undelegate ⟨0, 0⟩ A A (Dec.ofInt 1) = .error (.err .maxUnbondingDelegationEntries) ∧
      ∃ s', s.UndelegateInPlace ⟨0, 0⟩ A A (Dec.ofInt 1) =
          .ok (.error .maxUnbondingDelegationEntries, s') ∧
        (s.GetDelegation A A).map Delegation.shares = some (Dec.ofInt 9) ∧
        (s'.GetDelegation A A).map Delegation.shares = some (Dec.ofInt 8) ∧
        (s.GetValidator A).map Validator.tokens = some 9 ∧
        (s'.GetValidator A).map Validator.tokens = some 8 := by
  intro A genesis
  refine ⟨_, .tail (.single
    ⟨⟨0, 0⟩, .createValidator ⟨A, A, ⟨[7], [8]⟩, ⟨"stake", 10⟩, 1⟩, ⟨rfl, by decide⟩, rfl⟩)
    ⟨⟨0, 0⟩, .undelegate ⟨A, A, ⟨"stake", 1⟩⟩, ⟨rfl, by decide⟩, rfl⟩, ?_⟩
  exact ⟨rfl, _, rfl, rfl, rfl, rfl, rfl⟩

end CosmosSdk.Staking
