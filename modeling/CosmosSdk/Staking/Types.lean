import CosmosSdk.Types.Dec
import CosmosSdk.Lib.Outcome
import Mathlib.Data.Prod.Lex

/-!
# `x/staking/types`

The validator record with its token and share arithmetic (`validator.go`), the pool of
bonded and not-bonded tokens (`pool.go`), delegations, unbonding delegations and
redelegations (`delegation.go`), the parameters (`params.go`) and the power-rank key of
the validator index (`keys.go`).

A call that may not return is a function into `Except Fault`: a Go `panic` is
`Fault.panic` with the format string of its message, `panic(err)` on an error value is
`Fault.panicErr`, and an `sdk.Error` result is `Fault.err`.  An error result aborts the
call here; in the node the transaction's writes are then discarded by `BaseApp.runMsgs`,
so no caller sees the partial writes either way.

The description and commission of a validator are left out: no function modelled here
reads them.
-/

namespace CosmosSdk.Staking

/-- `sdk.BondStatus`. -/
inductive BondStatus
  | unbonded
  | unbonding
  | bonded
  deriving DecidableEq, Repr

/-- The errors of the staking keeper and of the bank calls it makes, by the name of their
constructor (`ErrNoValidatorFound` is `noValidatorFound`); `invalidInput` is an error a
`ValidateBasic` makes with `CodeInvalidInput` and a message of its own. -/
inductive Err
  | delegatorShareExRateInvalid
  | noDelegatorForAddress
  | notEnoughDelegationShares
  | noValidatorFound
  | maxUnbondingDelegationEntries
  | noUnbondingDelegation
  | selfRedelegation
  | transitiveRedelegation
  | maxRedelegationEntries
  | verySmallRedelegation
  | badRedelegationDst
  | noRedelegation
  | noDelegation
  | badSharesAmount
  | insufficientShares
  | validatorOwnerExists
  | validatorPubKeyExists
  | badDenom
  | nilDelegatorAddr
  | nilValidatorAddr
  | badValidatorAddr
  | badDelegationAmount
  | minSelfDelegationInvalid
  | minSelfDelegationDecreased
  | selfDelegationBelowMinimum
  | invalidInput
  | invalidCoins
  | unknownAddress
  | insufficientCoins
  | commissionNegative
  | commissionHuge
  | commissionGTMaxRate
  | commissionUpdateTime
  | commissionChangeRateNegative
  | commissionChangeRateGTMaxRate
  | commissionGTMaxChangeRate
  deriving DecidableEq, Repr

/-- How a call that does not return ends. -/
inductive Fault
  | panic (msg : String)
  | panicErr (e : Err)
  | err (e : Err)
  deriving DecidableEq, Repr

/-- A panic of the decimal arithmetic, as a fault of the keeper. -/
def liftPanic {α : Type} (x : Except Panic α) : Except Fault α :=
  x.mapError fun p => .panic p.msg

/-- `if err != nil { panic(err) }`. -/
def mustOk {α : Type} (x : Except Fault α) : Except Fault α :=
  x.tryCatch fun
    | .err e => throw (.panicErr e)
    | f => throw f

@[simp] theorem liftPanic_ok {α : Type} (a : α) : liftPanic (.ok a) = .ok a := rfl

@[simp] theorem liftPanic_eq_ok {α : Type} {x : Except Panic α} {a : α} :
    liftPanic x = .ok a ↔ x = .ok a :=
  Except.mapError_eq_ok

@[simp] theorem mustOk_eq_ok {α : Type} {x : Except Fault α} {a : α} :
    mustOk x = .ok a ↔ x = .ok a := by
  rcases x with (_ | _ | _) | _ <;> simp [mustOk, Except.tryCatch]

/-! ### The pool -/

/-- `Pool`: the tokens of the bond denomination, bonded to a validator or not. -/
structure Pool where
  notBondedTokens : ℤ
  bondedTokens : ℤ
  deriving DecidableEq, Repr

namespace Pool

/-- `TokenSupply`. -/
def TokenSupply (p : Pool) : ℤ := p.notBondedTokens + p.bondedTokens

/-- `BondedRatio`: the bonded fraction of the supply, zero when the supply is not positive. -/
def BondedRatio (p : Pool) : Except Panic Dec :=
  if 0 < p.TokenSupply then (Dec.ofInt p.bondedTokens).quoInt p.TokenSupply else pure 0

/-- The quotient is guarded by the positive supply, so `BondedRatio` never panics. -/
theorem BondedRatio_ok (p : Pool) : ∃ r, p.BondedRatio = .ok r := by
  unfold BondedRatio
  split_ifs with h
  · exact ⟨_, Dec.quoInt_of_ne h.ne'⟩
  · exact ⟨0, rfl⟩

/-- `notBondedTokensToBonded`. -/
def notBondedTokensToBonded (p : Pool) (bondedTokens : ℤ) : Except Fault Pool :=
  let p := { bondedTokens := p.bondedTokens + bondedTokens,
             notBondedTokens := p.notBondedTokens - bondedTokens }
  if p.notBondedTokens < 0 then throw (.panic "sanity check: not-bonded tokens negative, pool: %v")
  else pure p

/-- `bondedTokensToNotBonded`. -/
def bondedTokensToNotBonded (p : Pool) (bondedTokens : ℤ) : Except Fault Pool :=
  let p := { bondedTokens := p.bondedTokens - bondedTokens,
             notBondedTokens := p.notBondedTokens + bondedTokens }
  if p.bondedTokens < 0 then throw (.panic "sanity check: bonded tokens negative, pool: %v")
  else pure p

theorem notBondedTokensToBonded_eq_ok {p p' : Pool} {x : ℤ} :
    p.notBondedTokensToBonded x = .ok p' ↔
      x ≤ p.notBondedTokens ∧ p' = ⟨p.notBondedTokens - x, p.bondedTokens + x⟩ := by
  unfold notBondedTokensToBonded
  dsimp only
  split_ifs with h
  · simp only [false_iff]; omega
  · simp only [Except.pure_eq_ok, Except.ok_inj]; constructor
    · rintro rfl; exact ⟨by omega, rfl⟩
    · rintro ⟨-, rfl⟩; rfl

theorem bondedTokensToNotBonded_eq_ok {p p' : Pool} {x : ℤ} :
    p.bondedTokensToNotBonded x = .ok p' ↔
      x ≤ p.bondedTokens ∧ p' = ⟨p.notBondedTokens + x, p.bondedTokens - x⟩ := by
  unfold bondedTokensToNotBonded
  dsimp only
  split_ifs with h
  · simp only [false_iff]; omega
  · simp only [Except.pure_eq_ok, Except.ok_inj]; constructor
    · rintro rfl; exact ⟨by omega, rfl⟩
    · rintro ⟨-, rfl⟩; rfl

end Pool

/-! ### Consensus power -/

/-- `sdk.PowerReduction`: tokens per unit of consensus power. -/
def PowerReduction : ℤ := 10 ^ 6

/-- `sdk.TokensToConsensusPower`. -/
def TokensToConsensusPower (tokens : ℤ) : ℤ := tokens.tdiv PowerReduction

/-- `sdk.TokensFromConsensusPower`. -/
def TokensFromConsensusPower (power : ℤ) : ℤ := power * PowerReduction

/-! ### The validator -/

/-- `Validator`, without its description and commission. -/
structure Validator where
  operatorAddress : ValAddress
  consPubKey : PubKey
  jailed : Bool
  status : BondStatus
  tokens : ℤ
  delegatorShares : Dec
  unbondingHeight : ℤ
  unbondingCompletionTime : Time
  minSelfDelegation : ℤ
  deriving DecidableEq, Repr

/-- `NewValidator`: unbonded, with no tokens and no shares. -/
def NewValidator (operator : ValAddress) (pubKey : PubKey) : Validator where
  operatorAddress := operator
  consPubKey := pubKey
  jailed := false
  status := .unbonded
  tokens := 0
  delegatorShares := 0
  unbondingHeight := 0
  unbondingCompletionTime := 0
  minSelfDelegation := 1

/-- `abci.ValidatorUpdate`. -/
structure ValidatorUpdate where
  pubKey : PubKey
  power : ℤ
  deriving DecidableEq, Repr

namespace Validator

/-- `IsBonded`. -/
def IsBonded (v : Validator) : Bool := v.status == .bonded

/-- `IsUnbonded`. -/
def IsUnbonded (v : Validator) : Bool := v.status == .unbonded

/-- `IsUnbonding`. -/
def IsUnbonding (v : Validator) : Bool := v.status == .unbonding

/-- `GetConsAddr`. -/
def ConsAddress (v : Validator) : ConsAddress := v.consPubKey.address

/-- `PotentialConsensusPower`. -/
def PotentialConsensusPower (v : Validator) : ℤ := TokensToConsensusPower v.tokens

/-- `ConsensusPower`: the potential power of a bonded validator, zero otherwise. -/
def ConsensusPower (v : Validator) : ℤ := if v.IsBonded then v.PotentialConsensusPower else 0

/-- `ABCIValidatorUpdate`. -/
def ABCIValidatorUpdate (v : Validator) : ValidatorUpdate := ⟨v.consPubKey, v.ConsensusPower⟩

/-- `ABCIValidatorUpdateZero`. -/
def ABCIValidatorUpdateZero (v : Validator) : ValidatorUpdate := ⟨v.consPubKey, 0⟩

/-- `InvalidExRate`: no tokens left behind outstanding shares. -/
def InvalidExRate (v : Validator) : Bool := v.tokens == 0 && v.delegatorShares.isPositive

/-- `TokensFromShares`. -/
def TokensFromShares (v : Validator) (shares : Dec) : Except Fault Dec :=
  liftPanic ((shares.mulInt v.tokens).quo v.delegatorShares)

/-- `SharesFromTokens`. -/
def SharesFromTokens (v : Validator) (amt : ℤ) : Except Fault Dec :=
  if v.tokens = 0 then throw (.err .insufficientShares)
  else liftPanic ((v.delegatorShares.mulInt amt).quoInt v.tokens)

/-- `SharesFromTokensTruncated`. -/
def SharesFromTokensTruncated (v : Validator) (amt : ℤ) : Except Fault Dec :=
  if v.tokens = 0 then throw (.err .insufficientShares)
  else liftPanic ((v.delegatorShares.mulInt amt).quoTruncate (Dec.ofInt v.tokens))

/-- `UpdateStatus`: tokens follow the validator between the two halves of the pool. -/
def UpdateStatus (v : Validator) (pool : Pool) (NewStatus : BondStatus) :
    Except Fault (Validator × Pool) :=
  match v.status, NewStatus with
  | .unbonded, .unbonded | .unbonding, .unbonding | .bonded, .bonded => pure (v, pool)
  | .unbonded, .bonded | .unbonding, .bonded => do
    let pool ← pool.notBondedTokensToBonded v.tokens
    pure ({ v with status := NewStatus }, pool)
  | .bonded, _ => do
    let pool ← pool.bondedTokensToNotBonded v.tokens
    pure ({ v with status := NewStatus }, pool)
  | .unbonded, .unbonding | .unbonding, .unbonded => pure ({ v with status := NewStatus }, pool)

/-- `RemoveTokens`. -/
def RemoveTokens (v : Validator) (pool : Pool) (tokens : ℤ) : Except Fault (Validator × Pool) := do
  if tokens < 0 then throw (.panic "should not happen: trying to remove negative tokens %v")
  if v.tokens < tokens then
    throw (.panic "should not happen: only have %v tokens, trying to remove %v")
  let v := { v with tokens := v.tokens - tokens }
  let pool ← (if v.IsBonded then pool.bondedTokensToNotBonded tokens else pure pool)
  pure (v, pool)

/-- `AddTokensFromDel`: the first delegation sets the exchange rate to one. -/
def AddTokensFromDel (v : Validator) (pool : Pool) (amount : ℤ) :
    Except Fault (Validator × Pool × Dec) := do
  let issuedShares ←
    (if v.delegatorShares.isZero then pure (Dec.ofInt amount)
     else mustOk (v.SharesFromTokens amount))
  let pool ← (if v.IsBonded then pool.notBondedTokensToBonded amount else pure pool)
  pure ({ v with tokens := v.tokens + amount, delegatorShares := v.delegatorShares + issuedShares },
    pool, issuedShares)

/-- `RemoveDelShares`: the last shares take every token left (the source sets the tokens to
zero, which is `v.tokens - v.tokens`); otherwise the tokens are the shares' worth,
truncated. -/
def RemoveDelShares (v : Validator) (pool : Pool) (delShares : Dec) :
    Except Fault (Validator × Pool × ℤ) := do
  let remainingShares := v.delegatorShares - delShares
  let issuedTokens ←
    (if remainingShares.isZero then pure v.tokens
     else do
      let issuedTokens := (← v.TokensFromShares delShares).truncateInt
      if v.tokens - issuedTokens < 0 then
        throw (.panic "attempting to remove more tokens than available in validator")
      pure issuedTokens)
  let v := { v with tokens := v.tokens - issuedTokens, delegatorShares := remainingShares }
  let pool ← (if v.IsBonded then pool.bondedTokensToNotBonded issuedTokens else pure pool)
  pure (v, pool, issuedTokens)

/-! ### What each method returns -/

@[simp] theorem IsBonded_eq_true {v : Validator} : v.IsBonded = true ↔ v.status = .bonded := by
  simp [IsBonded]

theorem AddTokensFromDel_eq_ok {v v' : Validator} {pool pool' : Pool} {amount : ℤ} {sh : Dec}
    (h : v.AddTokensFromDel pool amount = .ok (v', pool', sh)) :
    v' = { v with tokens := v.tokens + amount, delegatorShares := v.delegatorShares + sh } ∧
    (v.delegatorShares.isZero → sh = Dec.ofInt amount) ∧
    (v.delegatorShares.isZero = false → v.SharesFromTokens amount = .ok sh) ∧
    (if v.IsBonded then pool.notBondedTokensToBonded amount = .ok pool' else pool' = pool) := by
  unfold AddTokensFromDel at h
  obtain ⟨issued, hi, h⟩ := Except.bind_eq_ok.mp h
  obtain ⟨p, hp, h⟩ := Except.bind_eq_ok.mp h
  simp only [Except.pure_eq_ok, Except.ok_inj, Prod.mk.injEq] at h
  obtain ⟨rfl, rfl, rfl⟩ := h
  refine ⟨rfl, fun hz => ?_, fun hz => ?_, ?_⟩
  · simpa [hz] using hi.symm
  · simpa [hz] using hi
  · simp only [IsBonded_eq_true] at hp ⊢
    split_ifs at hp ⊢ <;> simp_all

theorem RemoveDelShares_eq_ok {v v' : Validator} {pool pool' : Pool} {x : Dec} {amt : ℤ}
    (h : v.RemoveDelShares pool x = .ok (v', pool', amt)) :
    v' = { v with tokens := v.tokens - amt, delegatorShares := v.delegatorShares - x } ∧
    ((v.delegatorShares - x).isZero → amt = v.tokens) ∧
    ((v.delegatorShares - x).isZero = false →
      ∃ d, v.TokensFromShares x = .ok d ∧ amt = d.truncateInt ∧ 0 ≤ v.tokens - amt) ∧
    (if v.IsBonded then pool.bondedTokensToNotBonded amt = .ok pool' else pool' = pool) := by
  unfold RemoveDelShares at h
  obtain ⟨issued, hi, h⟩ := Except.bind_eq_ok.mp h
  obtain ⟨p, hp, h⟩ := Except.bind_eq_ok.mp h
  simp only [Except.pure_eq_ok, Except.ok_inj, Prod.mk.injEq] at h
  obtain ⟨rfl, rfl, rfl⟩ := h
  refine ⟨rfl, fun hz => ?_, fun hz => ?_, ?_⟩
  · simpa [hz] using hi.symm
  · rw [if_neg (by simp [hz])] at hi
    obtain ⟨d, hd, hi⟩ := Except.bind_eq_ok.mp hi
    refine ⟨d, hd, ?_⟩
    dsimp only at hi
    split_ifs at hi with hneg
    · simp at hi
    · simp only [Except.pure_eq_ok, Except.ok_inj] at hi
      subst hi
      exact ⟨rfl, by omega⟩
  · simp only [IsBonded_eq_true] at hp ⊢
    split_ifs at hp ⊢ <;> simp_all

theorem RemoveTokens_eq_ok {v v' : Validator} {pool pool' : Pool} {t : ℤ}
    (h : v.RemoveTokens pool t = .ok (v', pool')) :
    0 ≤ t ∧ t ≤ v.tokens ∧ v' = { v with tokens := v.tokens - t } ∧
    (if v.IsBonded then pool.bondedTokensToNotBonded t = .ok pool' else pool' = pool) := by
  unfold RemoveTokens at h
  dsimp only at h
  by_cases h1 : t < 0
  · simp [h1] at h
  by_cases h2 : v.tokens < t
  · simp [h1, h2] at h
  simp only [h1, h2, if_false] at h
  obtain ⟨p, hp, h⟩ := Except.bind_eq_ok.mp h
  simp only [Except.pure_eq_ok, Except.ok_inj, Prod.mk.injEq] at h
  obtain ⟨rfl, rfl⟩ := h
  refine ⟨by omega, by omega, rfl, ?_⟩
  simp only [IsBonded_eq_true] at hp ⊢
  split_ifs at hp ⊢ <;> simp_all

theorem UpdateStatus_eq_ok {v v' : Validator} {pool pool' : Pool} {st : BondStatus} :
    v.UpdateStatus pool st = .ok (v', pool') ↔
      v' = { v with status := st } ∧
      (if v.status ≠ .bonded ∧ st = .bonded then pool.notBondedTokensToBonded v.tokens = .ok pool'
       else if v.status = .bonded ∧ st ≠ .bonded then pool.bondedTokensToNotBonded v.tokens = .ok pool'
       else pool' = pool) := by
  rcases v with ⟨a, b, c, status, d, e, f, g, h⟩
  -- nine pairs of statuses, three of them no-ops
  cases status <;> cases st <;>
    simp only [UpdateStatus, Except.bind_eq_ok, Except.pure_eq_ok, Except.ok_inj, Prod.mk.injEq,
      ne_eq, reduceCtorEq, not_false_eq_true, and_true, and_false, if_true, if_false,
      not_true_eq_false] <;> aesop

end Validator

/-! ### Delegations -/

/-- `Delegation`. -/
structure Delegation where
  delegatorAddress : AccAddress
  validatorAddress : ValAddress
  shares : Dec
  deriving DecidableEq, Repr

/-- `UnbondingDelegationEntry`. -/
structure UnbondingDelegationEntry where
  creationHeight : ℤ
  completionTime : Time
  initialBalance : ℤ
  balance : ℤ
  deriving DecidableEq, Repr

/-- `NewUnbondingDelegationEntry`. -/
def NewUnbondingDelegationEntry (creationHeight : ℤ) (completionTime : Time) (balance : ℤ) :
    UnbondingDelegationEntry :=
  ⟨creationHeight, completionTime, balance, balance⟩

/-- `UnbondingDelegationEntry.IsMature`. -/
def UnbondingDelegationEntry.IsMature (e : UnbondingDelegationEntry) (currentTime : Time) : Bool :=
  !(currentTime < e.completionTime)

/-- `UnbondingDelegation`. -/
structure UnbondingDelegation where
  delegatorAddress : AccAddress
  validatorAddress : ValAddress
  entries : List UnbondingDelegationEntry
  deriving DecidableEq, Repr

/-- `RedelegationEntry`. -/
structure RedelegationEntry where
  creationHeight : ℤ
  completionTime : Time
  initialBalance : ℤ
  sharesDst : Dec
  deriving DecidableEq, Repr

/-- `RedelegationEntry.IsMature`. -/
def RedelegationEntry.IsMature (e : RedelegationEntry) (currentTime : Time) : Bool :=
  !(currentTime < e.completionTime)

/-- `Redelegation`. -/
structure Redelegation where
  delegatorAddress : AccAddress
  validatorSrcAddress : ValAddress
  validatorDstAddress : ValAddress
  entries : List RedelegationEntry
  deriving DecidableEq, Repr

/-! ### Parameters and keys -/

/-- `Params`. -/
structure Params where
  unbondingTime : Duration
  maxValidators : ℕ
  maxEntries : ℕ
  bondDenom : String
  deriving DecidableEq, Repr

/-- `sdk.AddrLen`. -/
def AddrLen : ℕ := 20

/-- `ValidatorsByPowerIndexKey`, the prefix of the power index. -/
def ValidatorsByPowerIndexKey : UInt8 := 0x23

/-- `getValidatorPowerRank`: the prefix, the consensus power as a big-endian `uint64`, and
the operator address with every bit flipped, copied into `AddrLen` bytes (cut or padded
with zeros), so that of two equal powers the smaller address ranks higher. -/
def getValidatorPowerRank (validator : Validator) : Bytes :=
  let consensusPower := TokensToConsensusPower validator.tokens
  let operAddrInvr := validator.operatorAddress.map (~~~ ·)
  ValidatorsByPowerIndexKey :: bigEndian 8 (consensusPower % 2 ^ 64).toNat ++
    (operAddrInvr.take AddrLen ++ List.replicate (AddrLen - operAddrInvr.length) 0)

/-- `GetValidatorsByPowerIndexKey`. -/
def GetValidatorsByPowerIndexKey (validator : Validator) : Bytes := getValidatorPowerRank validator

/-- `ParseValidatorPowerRankKey`: the operator address, its bits flipped back, from a key of
the length `getValidatorPowerRank` writes. -/
def ParseValidatorPowerRankKey (key : Bytes) : Except Panic ValAddress :=
  let powerBytesLen := 8
  if key.length ≠ 1 + powerBytesLen + AddrLen then throw ⟨"Invalid validator power rank key length"⟩
  else pure ((key.drop (powerBytesLen + 1)).map (~~~ ·))

end CosmosSdk.Staking
