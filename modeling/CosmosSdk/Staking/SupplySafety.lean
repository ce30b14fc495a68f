import CosmosSdk.Staking.SupplySteps

/-!
# The pool's sanity checks are unreachable

`notBondedTokensToBonded` and `bondedTokensToNotBonded` (`types/pool.go`) panic when a
transfer would leave one of the pool's numbers negative.  On balanced books neither panic
can happen: every transfer moves tokens that the books place in the number it takes them
from.

* A bonded validator's tokens are part of the bonded tokens, and the others' part of the
  not-bonded tokens, with the tokens in transit (`tokens_le_bondedTokens`,
  `tokens_le_notBondedTokens`, `transit_le_notBondedTokens`).
* Each operation avoids the two panics (`Except.Avoids`) under the bound it needs: the
  operations of a validator need that bound of its record, and the keeper's operations
  get it from the books, whose gaps the earlier steps of the same operation have left
  nonnegative (`SupplySteps`).
* Every admitted action avoids them from a state with both invariants (`run_avoids`).
-/

namespace CosmosSdk.Staking

/-- The panics of the sanity checks of the pool's two transfers. -/
def Fault.PoolSanity : Fault → Prop
  | .panic msg => msg = "sanity check: not-bonded tokens negative, pool: %v" ∨
      msg = "sanity check: bonded tokens negative, pool: %v"
  | _ => False

instance : DecidablePred Fault.PoolSanity := fun f => by
  cases f <;> unfold Fault.PoolSanity <;> infer_instance

@[simp] theorem Fault.not_poolSanity_err (e : Err) : ¬ (Fault.err e).PoolSanity := id

@[simp] theorem Fault.not_poolSanity_panicErr (e : Err) : ¬ (Fault.panicErr e).PoolSanity := id

@[simp] theorem Fault.poolSanity_panic (msg : String) :
    (Fault.panic msg).PoolSanity ↔ msg = "sanity check: not-bonded tokens negative, pool: %v" ∨
      msg = "sanity check: bonded tokens negative, pool: %v" := Iff.rfl

/-! ### The transfers, the exchange rate and the wrappers of errors -/

namespace Pool

theorem notBondedTokensToBonded_avoids {p : Pool} {x : ℤ} (h : x ≤ p.notBondedTokens) :
    Except.Avoids Fault.PoolSanity (p.notBondedTokensToBonded x) :=
  Except.Avoids.of_eq_ok (notBondedTokensToBonded_eq_ok.mpr ⟨h, rfl⟩)

theorem bondedTokensToNotBonded_avoids {p : Pool} {x : ℤ} (h : x ≤ p.bondedTokens) :
    Except.Avoids Fault.PoolSanity (p.bondedTokensToNotBonded x) :=
  Except.Avoids.of_eq_ok (bondedTokensToNotBonded_eq_ok.mpr ⟨h, rfl⟩)

end Pool

/-- `mustOk` turns errors into panics of another kind. -/
theorem mustOk_avoids {α : Type} {x : Except Fault α} (h : Except.Avoids Fault.PoolSanity x) :
    Except.Avoids Fault.PoolSanity (mustOk x) := by
  rcases x with (msg | e | e) | a
  · simpa [mustOk, Except.tryCatch] using h
  · simp [mustOk, Except.tryCatch]
  · simp [mustOk, Except.tryCatch]
  · simp [mustOk, Except.tryCatch]

/-- `panicOnErr` turns errors into a panic with its own message. -/
theorem State.panicOnErr_avoids {α : Type} {msg : String} {x : Except Fault α}
    (hmsg : ¬ (Fault.panic msg).PoolSanity) (h : Except.Avoids Fault.PoolSanity x) :
    Except.Avoids Fault.PoolSanity (State.panicOnErr msg x) := by
  rcases x with (m | e | e) | a
  · simpa [State.panicOnErr, Except.tryCatch] using h
  · simp [State.panicOnErr, Except.tryCatch]
  · simpa [State.panicOnErr, Except.tryCatch] using hmsg
  · simp [State.panicOnErr, Except.tryCatch]

theorem NewCoin_avoids (amt : ℤ) : Except.Avoids Fault.PoolSanity (NewCoin amt) := by
  unfold NewCoin
  split_ifs <;> simp

namespace Validator

/-- The quotients of the exchange rate panic only on a zero divisor. -/
theorem TokensFromShares_avoids (v : Validator) (x : Dec) :
    Except.Avoids Fault.PoolSanity (v.TokensFromShares x) := by
  unfold TokensFromShares liftPanic Dec.quo
  split_ifs <;> simp [Except.mapError]

theorem SharesFromTokens_avoids (v : Validator) (amt : ℤ) :
    Except.Avoids Fault.PoolSanity (v.SharesFromTokens amt) := by
  unfold SharesFromTokens liftPanic Dec.quoInt
  split_ifs <;> simp [Except.mapError]

theorem SharesFromTokensTruncated_avoids (v : Validator) (amt : ℤ) :
    Except.Avoids Fault.PoolSanity (v.SharesFromTokensTruncated amt) := by
  unfold SharesFromTokensTruncated liftPanic Dec.quoTruncate
  split_ifs <;> simp [Except.mapError]

/-! ### The validator's own operations, under the bound each needs -/

/-- The operations move tokens between the pool's numbers only for a bonded validator. -/
theorem avoids_if_IsBonded {v : Validator} {pool : Pool} {move : Except Fault Pool}
    (h : v.status = .bonded → Except.Avoids Fault.PoolSanity move) :
    Except.Avoids Fault.PoolSanity (if v.IsBonded then move else pure pool) := by
  split_ifs with hb
  · exact h (IsBonded_eq_true.mp hb)
  · exact Except.avoids_pure _

/-- Delegated tokens join the bonded tokens of a bonded validator from the not-bonded
ones. -/
theorem AddTokensFromDel_avoids {v : Validator} {pool : Pool} {amt : ℤ}
    (h : v.status = .bonded → amt ≤ pool.notBondedTokens) :
    Except.Avoids Fault.PoolSanity (v.AddTokensFromDel pool amt) := by
  unfold AddTokensFromDel
  rw [Except.avoids_bind]
  refine ⟨?_, fun issued _ => ?_⟩
  · split
    · exact Except.avoids_pure _
    · exact mustOk_avoids (SharesFromTokens_avoids v amt)
  rw [Except.avoids_bind]
  exact ⟨avoids_if_IsBonded fun hb => Pool.notBondedTokensToBonded_avoids (h hb),
    fun _ _ => Except.avoids_pure _⟩

/-- The tokens `RemoveDelShares` issues are at most the validator's: all of them for its
last shares, and otherwise their worth, which it checks. -/
theorem RemoveDelShares_avoids {v : Validator} {pool : Pool} {x : Dec}
    (h : v.status = .bonded → v.tokens ≤ pool.bondedTokens) :
    Except.Avoids Fault.PoolSanity (v.RemoveDelShares pool x) := by
  unfold RemoveDelShares
  rw [Except.avoids_bind]
  refine ⟨?_, fun issued hissued => ?_⟩
  · split
    · exact Except.avoids_pure _
    rw [Except.avoids_bind]
    refine ⟨TokensFromShares_avoids v x, fun d _ => ?_⟩
    dsimp only
    split_ifs <;> simp
  -- the tokens issued are at most the validator's
  have hle : issued ≤ v.tokens := by
    split at hissued
    · simp only [Except.pure_eq_ok, Except.ok_inj] at hissued
      omega
    · obtain ⟨d, -, hd⟩ := Except.bind_eq_ok.mp hissued
      dsimp only at hd
      split_ifs at hd with hneg
      · simp at hd
      · simp only [Except.pure_eq_ok, Except.ok_inj] at hd
        omega
  dsimp only
  rw [Except.avoids_bind]
  exact ⟨avoids_if_IsBonded fun hb => Pool.bondedTokensToNotBonded_avoids (le_trans hle (h hb)),
    fun _ _ => Except.avoids_pure _⟩

theorem RemoveTokens_avoids {v : Validator} {pool : Pool} {t : ℤ}
    (h : v.status = .bonded → v.tokens ≤ pool.bondedTokens) :
    Except.Avoids Fault.PoolSanity (v.RemoveTokens pool t) := by
  unfold RemoveTokens
  dsimp only
  by_cases h1 : t < 0
  · simp [h1]
  by_cases h2 : v.tokens < t
  · simp [h1, h2]
  simp only [h1, h2, if_false]
  rw [Except.avoids_bind]
  exact ⟨avoids_if_IsBonded fun hb =>
    Pool.bondedTokensToNotBonded_avoids (le_trans (not_lt.mp h2) (h hb)), fun _ _ => Except.avoids_pure _⟩

/-- A status change moves the validator's tokens out of the number of the pool its old
status counts them in. -/
theorem UpdateStatus_avoids {v : Validator} {pool : Pool} {st : BondStatus}
    (hin : v.status ≠ .bonded → st = .bonded → v.tokens ≤ pool.notBondedTokens)
    (hout : v.status = .bonded → st ≠ .bonded → v.tokens ≤ pool.bondedTokens) :
    Except.Avoids Fault.PoolSanity (v.UpdateStatus pool st) := by
  cases hs : v.status <;> cases st <;> simp only [UpdateStatus, hs, Except.avoids_pure]
  case unbonded.bonded =>
    rw [Except.avoids_bind]
    exact ⟨Pool.notBondedTokensToBonded_avoids (hin (by simp [hs]) rfl),
      fun _ _ => Except.avoids_pure _⟩
  case unbonding.bonded =>
    rw [Except.avoids_bind]
    exact ⟨Pool.notBondedTokensToBonded_avoids (hin (by simp [hs]) rfl),
      fun _ _ => Except.avoids_pure _⟩
  case bonded.unbonded =>
    rw [Except.avoids_bind]
    exact ⟨Pool.bondedTokensToNotBonded_avoids (hout hs (by simp)),
      fun _ _ => Except.avoids_pure _⟩
  case bonded.unbonding =>
    rw [Except.avoids_bind]
    exact ⟨Pool.bondedTokensToNotBonded_avoids (hout hs (by simp)),
      fun _ _ => Except.avoids_pure _⟩

end Validator

namespace State

variable {s s' : State}

/-! ### What the books cover -/

/-- A stored bonded validator's tokens are in the bonded tokens, when these are at least the
bonded validators'. -/
theorem tokens_le_bondedTokens (hs : s.ledger.Inv) (hgap : 0 ≤ s.bondedGap) {a : ValAddress}
    {v : Validator} (hv : s.GetValidator a = some v) (hb : v.status = .bonded) :
    v.tokens ≤ s.pool.bondedTokens := by
  have hle := bondedTokens_le_bondedSum hs hv
  have hbt : v.bondedTokens = v.tokens := if_pos hb
  unfold bondedGap at hgap
  omega

/-- A stored validator that is not bonded has its tokens in the not-bonded tokens, when
these are at least the loose tokens. -/
theorem tokens_le_notBondedTokens (hs : s.ledger.Inv) (hsol : Solvent s) (hlimbo : 0 ≤ s.limbo)
    {a : ValAddress} {v : Validator} (hv : s.GetValidator a = some v) (hb : v.status ≠ .bonded) :
    v.tokens ≤ s.pool.notBondedTokens := by
  have hle := looseTokens_le_looseSum hs hsol hv
  have hlt : v.looseTokens = v.tokens := if_neg hb
  unfold limbo at hlimbo
  omega

/-- Tokens in transit are in the not-bonded tokens. -/
theorem transit_le_notBondedTokens (hs : s.ledger.Inv) (hsol : Solvent s) {amt : ℤ}
    (h : amt ≤ s.limbo) : amt ≤ s.pool.notBondedTokens := by
  have hloose := looseSum_nonneg hs hsol
  unfold limbo at h
  omega

/-! ### The keeper's operations on a validator -/

theorem mustGetValidator_avoids (a : ValAddress) :
    Except.Avoids Fault.PoolSanity (s.mustGetValidator a) := by
  unfold mustGetValidator
  split <;> simp

theorem mustGetValidatorByConsAddr_avoids (c : ConsAddress) :
    Except.Avoids Fault.PoolSanity (s.mustGetValidatorByConsAddr c) := by
  unfold mustGetValidatorByConsAddr
  split <;> simp

theorem DelegateCoins_avoids (a : AccAddress) (amt : ℤ) :
    Except.Avoids Fault.PoolSanity (s.DelegateCoins a amt) := by
  unfold DelegateCoins
  split_ifs
  · simp
  split
  · simp
  · split_ifs <;> simp

theorem UndelegateCoins_avoids (a : AccAddress) (amt : ℤ) :
    Except.Avoids Fault.PoolSanity (s.UndelegateCoins a amt) := by
  unfold UndelegateCoins
  split_ifs
  · simp
  split <;> simp

theorem AddValidatorTokensAndShares_avoids {v : Validator} {amt : ℤ}
    (h : v.status = .bonded → amt ≤ s.pool.notBondedTokens) :
    Except.Avoids Fault.PoolSanity (s.AddValidatorTokensAndShares v amt) := by
  unfold AddValidatorTokensAndShares
  rw [Except.avoids_bind]
  exact ⟨Validator.AddTokensFromDel_avoids h, fun ⟨_, _, _⟩ _ => Except.avoids_pure _⟩

theorem RemoveValidatorTokensAndShares_avoids {v : Validator} {x : Dec}
    (h : v.status = .bonded → v.tokens ≤ s.pool.bondedTokens) :
    Except.Avoids Fault.PoolSanity (s.RemoveValidatorTokensAndShares v x) := by
  unfold RemoveValidatorTokensAndShares
  rw [Except.avoids_bind]
  exact ⟨Validator.RemoveDelShares_avoids h, fun ⟨_, _, _⟩ _ => Except.avoids_pure _⟩

theorem RemoveValidatorTokens_avoids {v : Validator} {t : ℤ}
    (h : v.status = .bonded → v.tokens ≤ s.pool.bondedTokens) :
    Except.Avoids Fault.PoolSanity (s.RemoveValidatorTokens v t) := by
  unfold RemoveValidatorTokens
  rw [Except.avoids_bind]
  exact ⟨Validator.RemoveTokens_avoids h, fun ⟨_, _⟩ _ => Except.avoids_pure _⟩

theorem RemoveValidator_avoids (a : ValAddress) :
    Except.Avoids Fault.PoolSanity (s.RemoveValidator a) := by
  unfold RemoveValidator
  split
  · exact Except.avoids_pure _
  · split_ifs <;> simp

theorem jailValidator_avoids (v : Validator) :
    Except.Avoids Fault.PoolSanity (s.jailValidator v) := by
  unfold jailValidator
  split_ifs <;> simp

theorem unjailValidator_avoids (v : Validator) :
    Except.Avoids Fault.PoolSanity (s.unjailValidator v) := by
  unfold unjailValidator
  split_ifs <;> simp

theorem bondValidator_avoids {v : Validator}
    (h : v.status ≠ .bonded → v.tokens ≤ s.pool.notBondedTokens) :
    Except.Avoids Fault.PoolSanity (s.bondValidator v) := by
  unfold bondValidator
  rw [Except.avoids_bind]
  exact ⟨Validator.UpdateStatus_avoids (fun hb _ => h hb) (fun _ hne => absurd rfl hne),
    fun ⟨_, _⟩ _ => Except.avoids_pure _⟩

theorem beginUnbondingValidator_avoids {hdr : Header} {v : Validator}
    (h : v.status = .bonded → v.tokens ≤ s.pool.bondedTokens) :
    Except.Avoids Fault.PoolSanity (s.beginUnbondingValidator hdr v) := by
  unfold beginUnbondingValidator
  dsimp only
  split_ifs
  · simp
  rw [Except.avoids_bind]
  exact ⟨Validator.UpdateStatus_avoids (fun _ hst => by cases hst) (fun hb _ => h hb),
    fun ⟨_, _⟩ _ => Except.avoids_pure _⟩

theorem completeUnbondingValidator_avoids {v : Validator}
    (h : v.status = .bonded → v.tokens ≤ s.pool.bondedTokens) :
    Except.Avoids Fault.PoolSanity (s.completeUnbondingValidator v) := by
  unfold completeUnbondingValidator
  rw [Except.avoids_bind]
  exact ⟨Validator.UpdateStatus_avoids (fun _ hst => by cases hst) (fun hb _ => h hb),
    fun ⟨_, _⟩ _ => Except.avoids_pure _⟩

/-- A stored validator is bonded without running the not-bonded tokens dry. -/
theorem bondValidator_avoids_stored (hs : s.ledger.Inv) (hsol : Solvent s) (hlimbo : 0 ≤ s.limbo)
    {a : ValAddress} {v : Validator} (hv : s.GetValidator a = some v) :
    Except.Avoids Fault.PoolSanity (s.bondValidator v) :=
  bondValidator_avoids fun hb => tokens_le_notBondedTokens hs hsol hlimbo hv hb

/-- A stored validator begins unbonding without running the bonded tokens dry. -/
theorem beginUnbondingValidator_avoids_stored (hs : s.ledger.Inv) (hgap : 0 ≤ s.bondedGap)
    {hdr : Header} {a : ValAddress} {v : Validator} (hv : s.GetValidator a = some v) :
    Except.Avoids Fault.PoolSanity (s.beginUnbondingValidator hdr v) :=
  beginUnbondingValidator_avoids fun hb => tokens_le_bondedTokens hs hgap hv hb


/-! ### Delegating and unbonding -/

/-- Delegated tokens reach a bonded validator from the not-bonded tokens, where they are in
transit: taken from the account just before, or unbonded (`sub = false`) and left in transit
by the caller. -/
theorem Delegate_avoids (hs : s.ledger.Inv) (hsol : Solvent s) {del : AccAddress} {amt : ℤ}
    {v : Validator} {sub : Bool} (hamt : (if sub then 0 else amt) ≤ s.limbo) :
    Except.Avoids Fault.PoolSanity (s.Delegate del amt v sub) := by
  unfold Delegate
  simp only [Except.throw_eq_error, Except.error_bind, Except.pure_eq_ok]
  by_cases hex : v.InvalidExRate = true
  · simp [hex]
  rw [if_neg hex, Except.avoids_bind]
  refine ⟨?_, fun s₁ h₁ => ?_⟩
  · cases sub
    · exact Except.avoids_ok _
    · rw [if_pos rfl, Except.avoids_bind]
      exact ⟨NewCoin_avoids amt, fun c _ => DelegateCoins_avoids _ c⟩
  -- the delegated tokens are in transit when they reach the validator
  obtain ⟨hl₁, -, hlimbo₁, hsol₁, -⟩ := Delegate_bank_books hsol h₁
  have hcov : amt ≤ s₁.pool.notBondedTokens := by
    refine transit_le_notBondedTokens (hl₁ ▸ hs) hsol₁ ?_
    rw [hlimbo₁]
    split_ifs at hamt ⊢ <;> omega
  rw [Except.avoids_bind]
  exact ⟨AddValidatorTokensAndShares_avoids fun _ => hcov, fun ⟨_, _, _⟩ _ => Except.avoids_ok _⟩

/-- `unbond` takes from the bonded tokens at most the tokens of the validator it reads,
which are in them when the bonded gap is not negative. -/
theorem unbond_avoids (hs : s.ledger.Inv) (hgap : 0 ≤ s.bondedGap) {del : AccAddress}
    {val : ValAddress} {x : Dec} : Except.Avoids Fault.PoolSanity (s.unbond del val x) := by
  unfold unbond
  simp only [Except.throw_eq_error, Except.error_bind, Except.pure_eq_ok]
  split
  case h_2 => simp
  rename_i d hd
  by_cases hx : d.shares < x
  · simp [hx]
  rw [if_neg hx]
  split
  case h_2 => simp
  rename_i v hv
  rw [Except.avoids_bind]
  refine ⟨?_, fun ⟨s₁, v₁⟩ hp => ?_⟩
  · -- the jail step: the exchange rate, the jail and the lookup
    split_ifs
    · rw [Except.avoids_bind]
      refine ⟨Validator.TokensFromShares_avoids v _, fun t _ => ?_⟩
      split_ifs
      · rw [Except.avoids_bind]
        refine ⟨jailValidator_avoids v, fun s₁ _ => ?_⟩
        rw [Except.avoids_bind]
        exact ⟨mustGetValidator_avoids _, fun _ _ => Except.avoids_ok _⟩
      · exact Except.avoids_ok _
    · exact Except.avoids_ok _
  -- the record the jail step continues with is stored, on books it leaves as they were
  have hj := unbond_jail_eq_ok { d with shares := d.shares - x } hp
  obtain ⟨hl₁, -⟩ := unbond_jail_step hs hv hj
  obtain ⟨hgap₁, -, -, -, hv₁, -⟩ := unbond_jail_books hs hv hj
  have hcov : v₁.status = .bonded → v₁.tokens ≤ s₁.pool.bondedTokens :=
    tokens_le_bondedTokens (hl₁ ▸ hs) (hgap₁ ▸ hgap) hv₁
  rw [Except.avoids_bind]
  refine ⟨?_, fun q _ => ?_⟩
  · split_ifs
    · exact RemoveValidatorTokensAndShares_avoids hcov
    · exact RemoveValidatorTokensAndShares_avoids hcov
  · rw [Except.avoids_bind]
    refine ⟨?_, fun _ _ => Except.avoids_ok _⟩
    split_ifs
    · exact RemoveValidator_avoids _
    · exact Except.avoids_ok _

theorem Undelegate_avoids (hs : s.ledger.Inv) (hgap : 0 ≤ s.bondedGap) {hdr : Header}
    {del : AccAddress} {val : ValAddress} {x : Dec} :
    Except.Avoids Fault.PoolSanity (s.Undelegate hdr del val x) := by
  unfold Undelegate
  simp only [Except.throw_eq_error, Except.error_bind, Except.pure_eq_ok]
  rw [Except.avoids_bind]
  refine ⟨unbond_avoids hs hgap, fun _ _ => ?_⟩
  split_ifs <;> simp

theorem ValidateUnbondAmount_avoids {del : AccAddress} {val : ValAddress} {amt : ℤ} :
    Except.Avoids Fault.PoolSanity (s.ValidateUnbondAmount del val amt) := by
  unfold ValidateUnbondAmount
  simp only [Except.throw_eq_error, Except.error_bind, Except.pure_eq_ok]
  split
  case h_2 => simp
  split
  case h_2 => simp
  rw [Except.avoids_bind]
  refine ⟨Validator.SharesFromTokens_avoids _ amt, fun _ _ => ?_⟩
  rw [Except.avoids_bind]
  refine ⟨Validator.SharesFromTokensTruncated_avoids _ amt, fun _ _ => ?_⟩
  split_ifs <;> simp

/-- The tokens a redelegation unbonds are in transit when it delegates them. -/
theorem BeginRedelegation_avoids (hs : s.ledger.Inv) (hsol : Solvent s) (hgap : 0 ≤ s.bondedGap)
    (hlimbo : 0 ≤ s.limbo) {hdr : Header} {del : AccAddress} {src dst : ValAddress} {x : Dec}
    (hx : 0 ≤ x.i) : Except.Avoids Fault.PoolSanity (s.BeginRedelegation hdr del src dst x) := by
  unfold BeginRedelegation
  simp only [Except.throw_eq_error, Except.error_bind, Except.pure_eq_ok]
  split_ifs
  · simp
  · simp
  · simp
  rw [Except.avoids_bind]
  refine ⟨unbond_avoids hs hgap, fun ⟨s₁, amt⟩ hu => ?_⟩
  obtain ⟨hs₁, -, -⟩ := unbond_inv hs hx hu
  obtain ⟨-, hlimbo₁, ha₁, hu₁, -⟩ := unbond_books hs hx hu
  dsimp only
  split_ifs
  · simp
  split
  case h_2 => simp
  rw [Except.avoids_bind]
  refine ⟨Delegate_avoids hs₁ (hsol.of_eq ha₁ hu₁) ?_, fun _ _ => ?_⟩
  · simp only [Bool.false_eq_true, if_false, hlimbo₁]
    omega
  · split_ifs <;> simp


/-! ### Completing unbondings and redelegations, jailing -/

/-- The payouts of mature entries only credit accounts. -/
theorem completeUnbondingEntries_avoids (t : Time) (a : AccAddress) :
    ∀ (l : List UnbondingDelegationEntry) (s : State),
      Except.Avoids Fault.PoolSanity (completeUnbondingEntries t a s l)
  | [], _ => Except.avoids_pure _
  | e :: rest, s => by
    unfold completeUnbondingEntries
    split_ifs
    · rw [Except.avoids_bind]
      refine ⟨?_, fun s₁ _ => completeUnbondingEntries_avoids t a rest s₁⟩
      rw [Except.avoids_bind]
      exact ⟨NewCoin_avoids _, fun c _ => UndelegateCoins_avoids a c⟩
    · exact completeUnbondingEntries_avoids t a rest s
    · rw [Except.avoids_bind]
      refine ⟨completeUnbondingEntries_avoids t a rest s, fun p _ => ?_⟩
      cases p
      exact Except.avoids_pure _

theorem CompleteUnbonding_avoids {hdr : Header} {del : AccAddress} {val : ValAddress} :
    Except.Avoids Fault.PoolSanity (s.CompleteUnbonding hdr del val) := by
  unfold CompleteUnbonding
  split
  · rw [Except.avoids_bind]
    exact ⟨completeUnbondingEntries_avoids _ _ _ _, fun ⟨_, _⟩ _ => Except.avoids_pure _⟩
  · simp

theorem CompleteRedelegation_avoids {hdr : Header} {del : AccAddress} {src dst : ValAddress} :
    Except.Avoids Fault.PoolSanity (s.CompleteRedelegation hdr del src dst) := by
  unfold CompleteRedelegation
  split <;> simp

theorem Jail_avoids (c : ConsAddress) : Except.Avoids Fault.PoolSanity (s.Jail c) := by
  unfold Jail
  rw [Except.avoids_bind]
  exact ⟨mustGetValidatorByConsAddr_avoids c, fun v _ => jailValidator_avoids v⟩

theorem Unjail_avoids (c : ConsAddress) : Except.Avoids Fault.PoolSanity (s.Unjail c) := by
  unfold Unjail
  rw [Except.avoids_bind]
  exact ⟨mustGetValidatorByConsAddr_avoids c, fun v _ => unjailValidator_avoids v⟩

/-! ### Slashing -/

/-- The loop of `slashRedelegation`: each entry it slashes unbonds at the destination, on
books that the burn leaves as they were. -/
theorem slashRedelegationEntries_avoids {now : Time} {red : Redelegation} {ih : ℤ} {f : Dec}
    (hf : 0 ≤ f.i) :
    ∀ (l : List RedelegationEntry) (s : State) (tot : ℤ), s.ledger.Inv → Solvent s →
      0 ≤ s.bondedGap → (∀ e ∈ l, 0 ≤ e.sharesDst.i) →
      Except.Avoids Fault.PoolSanity (slashRedelegationEntries now red ih f s l tot)
  | [], _, _, _, _, _, _ => Except.avoids_pure _
  | e :: rest, s, tot, hs, hsol, hgap, hsd => by
    have hsd' : ∀ e' ∈ rest, 0 ≤ e'.sharesDst.i := fun e' he' => hsd e' (List.mem_cons_of_mem e he')
    unfold slashRedelegationEntries
    split_ifs with hskip
    · exact slashRedelegationEntries_avoids hf rest s tot hs hsol hgap hsd'
    dsimp only
    split_ifs with hzero
    · exact slashRedelegationEntries_avoids hf rest s _ hs hsol hgap hsd'
    split
    case h_2 => exact slashRedelegationEntries_avoids hf rest s _ hs hsol hgap hsd'
    rename_i d hd
    rw [Except.avoids_bind]
    refine ⟨panicOnErr_avoids (by simp) (unbond_avoids hs hgap), fun ⟨s₂, burned⟩ hu => ?_⟩
    rw [panicOnErr_eq_ok] at hu
    have hx := slashRedelegation_shares_nonneg hs hd hf (hsd e List.mem_cons_self)
    obtain ⟨hs₃, hgap₃, -, hsol₃, -⟩ := slashRedelegation_burn_books hs hsol hx hu
    exact slashRedelegationEntries_avoids hf rest _ _ hs₃ hsol₃ (hgap₃ ▸ hgap) hsd'

/-- The slashing of what left a validator after the infraction: the unbonding delegations
only move their balances, and each redelegation's loop runs on balanced books. -/
theorem slashUnbondingsAndRedelegations_avoids (hs : s.ledger.Inv) (hsol : Solvent s)
    (hgap : 0 ≤ s.bondedGap) {hdr : Header} {v : Validator} {ih : ℤ} {f : Dec} {amt : ℤ}
    (hf : 0 ≤ f.i) :
    Except.Avoids Fault.PoolSanity (s.slashUnbondingsAndRedelegations hdr v ih f amt) := by
  unfold slashUnbondingsAndRedelegations
  generalize hacc : (s.GetUnbondingDelegationsFromValidator v.operatorAddress).foldl _ (s, amt) = acc
  obtain ⟨s₁, rem₁⟩ := acc
  obtain ⟨hstored, hpw⟩ := GetUnbondingDelegationsFromValidator_stored hsol v.operatorAddress
  obtain ⟨hgap₁, -, hsol₁, -, -⟩ := slashUnbondings_books _ (s, amt) _ hstored hpw hsol hacc
  have hl₁ : s₁.ledger = s.ledger := by
    rw [← slashUnbondings_ledger hdr ih f _ (s, amt), hacc]
  -- the redelegations: the loop keeps the ledger's invariant, solvency and the bonded gap
  refine Except.avoids_foldlM
    (fun acc : State × ℤ => acc.1.ledger.Inv ∧ Solvent acc.1 ∧ acc.1.bondedGap = s.bondedGap)
    _ (fun acc red hred hP => ⟨?_, fun acc' hacc' => ?_⟩) (s₁, rem₁) ⟨hl₁ ▸ hs, hsol₁, hgap₁⟩
  · obtain ⟨-, -, hsd⟩ := mem_GetRedelegationsFromValidator (hl₁ ▸ hs) hred
    rw [Except.avoids_bind]
    exact ⟨slashRedelegationEntries_avoids hf red.entries acc.1 0 hP.1 hP.2.1 (hP.2.2 ▸ hgap) hsd,
      fun _ _ => Except.avoids_pure _⟩
  · obtain ⟨⟨s₂, x⟩, hr, hstep⟩ := Except.bind_eq_ok.mp hacc'
    simp only [Except.pure_eq_ok, Except.ok_inj] at hstep
    subst hstep
    obtain ⟨-, hdst, hsd⟩ := mem_GetRedelegationsFromValidator (hl₁ ▸ hs) hred
    obtain ⟨hinv, -⟩ := slashRedelegationEntries_inv hdst hf red.entries acc.1 0 (s₂, x) hP.1 hsd hr
    obtain ⟨hgap₂, -, hsol₂, -⟩ :=
      slashRedelegationEntries_books hdst hf red.entries acc.1 0 (s₂, x) hP.1 hP.2.1 hsd hr
    exact ⟨hinv, hsol₂, hgap₂.trans hP.2.2⟩

/-- `Slash` burns at most the tokens of the validator it slashes, which are in the bonded
tokens when it is bonded: the slashing before the burn leaves the books as they were. -/
theorem Slash_avoids (hs : s.ledger.Inv) (hsol : Solvent s) (hgap : 0 ≤ s.bondedGap)
    {hdr : Header} {consAddr : ConsAddress} {ih power : ℤ} {f : Dec} :
    Except.Avoids Fault.PoolSanity (s.Slash hdr consAddr ih power f) := by
  unfold Slash
  by_cases hneg : f < 0
  · simp [hneg]
  have hf : 0 ≤ f.i := by
    rw [Dec.lt_iff] at hneg
    exact Int.not_lt.mp hneg
  simp only [hneg, if_false]
  split
  case h_2 => exact Except.avoids_pure _
  rename_i v hv
  by_cases hu : v.IsUnbonded = true
  · simp [hu]
  by_cases hh : hdr.height < ih
  · simp [hu, hh]
  simp only [hu, hh, Bool.false_eq_true, if_false]
  -- the validator is the one stored under the address its consensus key points to
  obtain ⟨a, -, hva⟩ := Option.bind_eq_some_iff.mp hv
  have hop := operatorAddress_of_get hs hva
  subst hop
  rw [Except.avoids_bind]
  refine ⟨?_, fun ⟨s₁, rem⟩ h₁ => ?_⟩
  · split_ifs
    · exact slashUnbondingsAndRedelegations_avoids hs hsol hgap hf
    · exact Except.avoids_pure _
  obtain ⟨hs₁, hgap₁, -, -, hv₁⟩ := Slash_before_burn_books hs hsol hf hva h₁
  rw [Except.avoids_bind]
  exact ⟨RemoveValidatorTokens_avoids (tokens_le_bondedTokens hs₁ (hgap₁ ▸ hgap) hv₁),
    fun ⟨_, _⟩ _ => Except.avoids_pure _⟩

/-! ### Status transitions -/

theorem unbondedToBonded_avoids (hs : s.ledger.Inv) (hsol : Solvent s) (hlimbo : 0 ≤ s.limbo)
    {a : ValAddress} {v : Validator} (hv : s.GetValidator a = some v) :
    Except.Avoids Fault.PoolSanity (s.unbondedToBonded v) := by
  unfold unbondedToBonded
  split_ifs
  · simp
  · exact bondValidator_avoids_stored hs hsol hlimbo hv

theorem unbondingToBonded_avoids (hs : s.ledger.Inv) (hsol : Solvent s) (hlimbo : 0 ≤ s.limbo)
    {a : ValAddress} {v : Validator} (hv : s.GetValidator a = some v) :
    Except.Avoids Fault.PoolSanity (s.unbondingToBonded v) := by
  unfold unbondingToBonded
  split_ifs
  · simp
  · exact bondValidator_avoids_stored hs hsol hlimbo hv

theorem bondedToUnbonding_avoids (hs : s.ledger.Inv) (hgap : 0 ≤ s.bondedGap) {hdr : Header}
    {a : ValAddress} {v : Validator} (hv : s.GetValidator a = some v) :
    Except.Avoids Fault.PoolSanity (s.bondedToUnbonding hdr v) := by
  unfold bondedToUnbonding
  split_ifs
  · simp
  · exact beginUnbondingValidator_avoids_stored hs hgap hv

/-- Only an unbonding validator completes its unbonding, so no tokens leave the bonded
ones. -/
theorem unbondingToUnbonded_avoids {v : Validator} :
    Except.Avoids Fault.PoolSanity (s.unbondingToUnbonded v) := by
  unfold unbondingToUnbonded
  split_ifs with hu
  · simp
  · refine completeUnbondingValidator_avoids fun hb => ?_
    simp [Validator.IsUnbonding, hb] at hu

/-! ### The end blocker -/

/-- One validator of the walk over the power index is bonded from the not-bonded tokens, in
which the books place its tokens. -/
theorem applyValidator_avoids {acc : ApplyAcc} (hs : acc.s.ledger.Inv) (hsol : Solvent acc.s)
    (hlimbo : 0 ≤ acc.s.limbo) {valAddr : ValAddress} :
    Except.Avoids Fault.PoolSanity (applyValidator acc valAddr) := by
  unfold applyValidator
  simp only [Except.throw_eq_error, Except.error_bind, Except.pure_eq_ok]
  rw [Except.avoids_bind]
  refine ⟨mustGetValidator_avoids _, fun v hv => ?_⟩
  rw [mustGetValidator_eq_ok] at hv
  by_cases hj : v.jailed = true
  · simp [hj]
  by_cases hp : v.PotentialConsensusPower = 0
  · simp [hj, hp]
  simp only [hj, hp, Bool.false_eq_true, if_false]
  rw [Except.avoids_bind]
  refine ⟨?_, fun _ _ => Except.avoids_ok _⟩
  -- a validator that is not bonded yet is bonded from the not-bonded tokens
  split
  · exact unbondedToBonded_avoids hs hsol hlimbo hv
  · exact unbondingToBonded_avoids hs hsol hlimbo hv
  · exact Except.avoids_ok _

theorem applyPowerIndex_avoids (maxValidators : ℕ) :
    ∀ (l : List (Bytes × ValAddress)) (acc : ApplyAcc), acc.s.ledger.Inv → Solvent acc.s →
      0 ≤ acc.s.limbo → Except.Avoids Fault.PoolSanity (applyPowerIndex maxValidators acc l)
  | [], _, _, _, _ => Except.avoids_pure _
  | (_, valAddr) :: rest, acc, hs, hsol, hlimbo => by
    unfold applyPowerIndex
    split_ifs
    · exact Except.avoids_pure _
    rw [Except.avoids_bind]
    refine ⟨applyValidator_avoids hs hsol hlimbo, fun r hr => ?_⟩
    cases r with
    | none => exact Except.avoids_pure _
    | some acc₁ =>
      obtain ⟨-, hlimbo₁, ha₁, hu₁⟩ := applyValidator_books hs hr
      exact applyPowerIndex_avoids maxValidators rest acc₁ (applyValidator_ledger hs hr ▸ hs)
        (hsol.of_eq ha₁ hu₁) (hlimbo₁ ▸ hlimbo)

theorem unbondNoLongerBonded_avoids {hdr : Header} {acc : State × List ValidatorUpdate}
    (hs : acc.1.ledger.Inv) (hgap : 0 ≤ acc.1.bondedGap) {a : Bytes} :
    Except.Avoids Fault.PoolSanity (unbondNoLongerBonded hdr acc a) := by
  unfold unbondNoLongerBonded
  rw [Except.avoids_bind]
  refine ⟨mustGetValidator_avoids _, fun v hv => ?_⟩
  rw [mustGetValidator_eq_ok] at hv
  rw [Except.avoids_bind]
  exact ⟨bondedToUnbonding_avoids hs hgap hv, fun ⟨_, _⟩ _ => Except.avoids_pure _⟩

/-- The end blocker's validator-set update: the walk bonds from the not-bonded tokens, and
the validators no longer bonded unbond from the bonded ones, each on books the earlier
ones left as they were. -/
theorem ApplyAndReturnValidatorSetUpdates_avoids (hs : s.ledger.Inv)
    (hsol : Solvent s) (hgap : 0 ≤ s.bondedGap) (hlimbo : 0 ≤ s.limbo) {hdr : Header} :
    Except.Avoids Fault.PoolSanity (s.ApplyAndReturnValidatorSetUpdates hdr) := by
  unfold ApplyAndReturnValidatorSetUpdates
  rw [Except.avoids_bind]
  refine ⟨applyPowerIndex_avoids _ _ _ hs hsol hlimbo, fun acc ha => ?_⟩
  have hl := applyPowerIndex_ledger _ _ _ acc hs ha
  obtain ⟨hgap₁, -, -, -⟩ := applyPowerIndex_books _ _ _ acc hs ha
  rw [Except.avoids_bind]
  refine ⟨Except.avoids_foldlM
    (fun acc : State × List ValidatorUpdate => acc.1.ledger.Inv ∧ 0 ≤ acc.1.bondedGap) _
    (fun acc₁ _ _ hP => ⟨unbondNoLongerBonded_avoids hP.1 hP.2, fun acc₂ h₂ =>
      ⟨unbondNoLongerBonded_ledger hP.1 h₂ ▸ hP.1, (unbondNoLongerBonded_books hP.1 h₂).1 ▸ hP.2⟩⟩)
    _ ⟨hl ▸ hs, hgap₁ ▸ hgap⟩, fun ⟨_, _⟩ _ => Except.avoids_pure _⟩

theorem unbondMatureValidator_avoids {a : ValAddress} :
    Except.Avoids Fault.PoolSanity (s.unbondMatureValidator a) := by
  unfold unbondMatureValidator
  simp only [Except.throw_eq_error, Except.error_bind, Except.pure_eq_ok]
  split
  case h_2 => simp
  rename_i v _
  by_cases hu : (!v.IsUnbonding) = true
  · simp [hu]
  rw [if_neg hu, Except.avoids_bind]
  refine ⟨unbondingToUnbonded_avoids, fun ⟨_, _⟩ _ => ?_⟩
  split_ifs
  · exact RemoveValidator_avoids _
  · exact Except.avoids_ok _

/-- The end blocker's unbonding of mature validators only completes unbondings. -/
theorem UnbondAllMatureValidatorQueue_avoids {hdr : Header} :
    Except.Avoids Fault.PoolSanity (s.UnbondAllMatureValidatorQueue hdr) := by
  unfold UnbondAllMatureValidatorQueue
  refine Except.avoids_foldlM (fun _ => True) _ (fun s₁ slice _ _ => ⟨?_, fun _ _ => trivial⟩) _ trivial
  unfold unbondMatureTimeslice
  rw [Except.avoids_bind]
  exact ⟨Except.avoids_foldlM (fun _ => True) _
    (fun _ _ _ _ => ⟨unbondMatureValidator_avoids, fun _ _ => trivial⟩) _ trivial,
    fun _ _ => Except.avoids_pure _⟩

/-! ### Handlers -/

theorem handleMsgCreateValidator_avoids (hs : s.ledger.Inv) (hsol : Solvent s)
    (hlimbo : 0 ≤ s.limbo) {msg : MsgCreateValidator} :
    Except.Avoids Fault.PoolSanity (s.handleMsgCreateValidator msg) := by
  unfold handleMsgCreateValidator
  simp only [Except.throw_eq_error, Except.error_bind, Except.pure_eq_ok]
  by_cases h1 : (s.GetValidator msg.validatorAddress).isSome = true
  · simp [h1]
  by_cases h2 : (s.GetValidatorByConsAddr msg.pubKey.address).isSome = true
  · simp [h1, h2]
  by_cases h3 : msg.value.denom = s.params.bondDenom
  swap
  · simp [h1, h2, h3]
  simp only [h1, h2, h3, Bool.false_eq_true, if_false, ne_eq, not_true_eq_false]
  have hnone : s.GetValidator msg.validatorAddress = none := Option.not_isSome_iff_eq_none.mp h1
  -- the new validator has no tokens yet, so the books are those of `s`
  rw [Except.avoids_bind]
  refine ⟨Delegate_avoids (newValidator_inv hs hnone) (hsol.of_eq rfl rfl) ?_,
    fun _ _ => Except.avoids_ok _⟩
  rw [if_pos rfl]
  exact hlimbo.trans_eq (limbo_SetValidator_new (v := msg.newValidator) s hnone rfl).symm

/-- An edit fails only with an error result. -/
theorem handleMsgEditValidator_avoids {msg : MsgEditValidator} :
    Except.Avoids Fault.PoolSanity (s.handleMsgEditValidator msg) := by
  unfold handleMsgEditValidator
  split
  · -- the new minimum's checks end with error results
    simp only
    split
    · simp
    · split_ifs <;> simp
  · simp

theorem handleMsgDelegate_avoids (hs : s.ledger.Inv) (hsol : Solvent s) (hlimbo : 0 ≤ s.limbo)
    {msg : MsgDelegate} : Except.Avoids Fault.PoolSanity (s.handleMsgDelegate msg) := by
  unfold handleMsgDelegate
  simp only [Except.throw_eq_error, Except.error_bind, Except.pure_eq_ok]
  split
  case h_2 => simp
  split_ifs
  · simp
  rw [Except.avoids_bind]
  refine ⟨Delegate_avoids hs hsol ?_, fun _ _ => Except.avoids_ok _⟩
  rw [if_pos rfl]
  exact hlimbo

theorem handleMsgUndelegate_avoids (hs : s.ledger.Inv) (hgap : 0 ≤ s.bondedGap) {hdr : Header}
    {msg : MsgUndelegate} : Except.Avoids Fault.PoolSanity (s.handleMsgUndelegate hdr msg) := by
  unfold handleMsgUndelegate
  rw [Except.avoids_bind]
  exact ⟨ValidateUnbondAmount_avoids, fun _ _ => Undelegate_avoids hs hgap⟩

theorem handleMsgBeginRedelegate_avoids (hs : s.ledger.Inv) (hsol : Solvent s)
    (hgap : 0 ≤ s.bondedGap) (hlimbo : 0 ≤ s.limbo) {hdr : Header} {msg : MsgBeginRedelegate}
    (hamt : 0 < msg.amount.amount) :
    Except.Avoids Fault.PoolSanity (s.handleMsgBeginRedelegate hdr msg) := by
  unfold handleMsgBeginRedelegate
  rw [Except.avoids_bind]
  exact ⟨ValidateUnbondAmount_avoids, fun _ hx =>
    BeginRedelegation_avoids hs hsol hgap hlimbo (ValidateUnbondAmount_nonneg hs hamt hx)⟩

end State

/-! ### The state machine -/

/-- Every admitted action avoids the pool's sanity panics from a state whose share ledger
and books have their invariants. -/
theorem Action.run_avoids {s : State} (hs : s.ledger.Inv) (hsup : SupplyInv s) (hdr : Header)
    {a : Action} (ha : a.Admitted) : Except.Avoids Fault.PoolSanity (a.run s hdr) := by
  have hsol := hsup.toSolvent
  have hgap : 0 ≤ s.bondedGap := hsup.bondedGap_eq.ge
  have hlimbo : 0 ≤ s.limbo := hsup.limbo_eq.ge
  cases a with
  | createValidator msg => exact State.handleMsgCreateValidator_avoids hs hsol hlimbo
  | editValidator msg => exact State.handleMsgEditValidator_avoids
  | delegate msg => exact State.handleMsgDelegate_avoids hs hsol hlimbo
  | undelegate msg => exact Except.avoids_map.mpr (State.handleMsgUndelegate_avoids hs hgap)
  | beginRedelegate msg =>
    exact Except.avoids_map.mpr (State.handleMsgBeginRedelegate_avoids hs hsol hgap hlimbo
      (msg.ValidateBasic_eq_ok ha.1).2.2.2)
  | slash consAddr infractionHeight power slashFactor => exact State.Slash_avoids hs hsol hgap
  | jail consAddr => exact State.Jail_avoids consAddr
  | unjail consAddr => exact State.Unjail_avoids consAddr
  | completeUnbonding delAddr valAddr => exact State.CompleteUnbonding_avoids
  | completeRedelegation delAddr valSrcAddr valDstAddr => exact State.CompleteRedelegation_avoids
  | applyAndReturnValidatorSetUpdates =>
    exact Except.avoids_map.mpr (State.ApplyAndReturnValidatorSetUpdates_avoids hs hsol hgap hlimbo)
  | unbondAllMatureValidatorQueue => exact State.UnbondAllMatureValidatorQueue_avoids

/-! ### Reachable states -/

/-- A genesis state whose not-bonded tokens are the balances of its accounts: the chain's
tokens, none of them bonded yet. -/
def fundedGenesis (params : Params) (accounts : SortedMap AccAddress ℤ) : State :=
  { genesis params accounts with pool := ⟨accounts.sum fun _ c => c, 0⟩ }

theorem fundedGenesis_inv (params : Params) (accounts : SortedMap AccAddress ℤ) :
    (fundedGenesis params accounts).ledger.Inv :=
  Ledger.inv_empty

theorem fundedGenesis_supplyInv {params : Params} {accounts : SortedMap AccAddress ℤ}
    (hacc : ∀ a c, accounts.get? a = some c → 0 ≤ c) :
    SupplyInv (fundedGenesis params accounts) where
  accounts_nonneg := hacc
  ubd_key _ _ h := by cases h
  entries_nonneg _ _ h := by cases h
  bondedGap_eq := rfl
  limbo_eq := by
    show (accounts.sum fun _ c => c) - (0 + (accounts.sum fun _ c => c) + 0) = 0
    omega

/-- Along every run from a funded genesis state, the pool's bonded tokens are those of the
bonded validators, neither number of the pool is negative, and no admitted action can reach
the pool's sanity panics. -/
theorem poolAccounting_of_run {params : Params} {accounts : SortedMap AccAddress ℤ} {s : State}
    (hacc : ∀ a c, accounts.get? a = some c → 0 ≤ c)
    (hrun : Relation.ReflTransGen Step (fundedGenesis params accounts) s) :
    PoolAccounting s ∧
      ∀ (hdr : Header) (a : Action), a.Admitted → Except.Avoids Fault.PoolSanity (a.run s hdr) := by
  obtain ⟨hs, hsup⟩ :=
    supplyInv_of_run (fundedGenesis_inv params accounts) (fundedGenesis_supplyInv hacc) hrun
  exact ⟨hsup.poolAccounting hs, fun hdr _ ha => Action.run_avoids hs hsup hdr ha⟩

theorem poolAccounting_of_run_createValidator :
    ∃ s', Relation.ReflTransGen Step
      (fundedGenesis ⟨0, 1, 7, "stake"⟩ ((∅ : SortedMap AccAddress ℤ).insert (List.replicate AddrLen 4) 10))
      s' ∧ PoolAccounting s' ∧
      ∀ (hdr : Header) (a : Action), a.Admitted → Except.Avoids Fault.PoolSanity (a.run s' hdr) := by
  have hacc : ∀ a c, ((∅ : SortedMap AccAddress ℤ).insert (List.replicate AddrLen 4) 10).get? a =
      some c → 0 ≤ c := by
    intro a c h
    rw [SortedMap.get?_insert] at h
    split_ifs at h
    · cases h
      decide
    · cases h
  have hstep : Step
      (fundedGenesis ⟨0, 1, 7, "stake"⟩ ((∅ : SortedMap AccAddress ℤ).insert (List.replicate AddrLen 4) 10))
      _ :=
    ⟨⟨0, 0⟩, .createValidator ⟨List.replicate AddrLen 4, List.replicate AddrLen 4, ⟨[7], [8]⟩,
      ⟨"stake", 5⟩, 1⟩, ⟨rfl, by decide⟩, rfl⟩
  exact ⟨_, .single hstep, poolAccounting_of_run hacc (.single hstep)⟩

end CosmosSdk.Staking
