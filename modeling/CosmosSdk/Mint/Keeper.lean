import CosmosSdk.Staking.Types
import CosmosSdk.Types.CoinsSpec

/-!
# `x/mint`

The minter and its parameters (`internal/types/minter.go`, `params.go`), the keeper's store
with what it reads of the staking and fee collection keepers (`internal/keeper/keeper.go`),
genesis (`genesis.go`) and the minting at the start of each block (`abci.go`).

Each block moves the inflation toward the bonded goal by
`(1 - bondedRatio / GoalBonded) · InflationRateChange / BlocksPerYear`, clamps it to
`[InflationMin, InflationMax]`, sets the annual provisions to inflation times supply, and
mints a `BlocksPerYear`-th of them into the collected fees and the pool's not-bonded tokens.
`BlocksPerYear` is a `uint64` that the code converts to `int64`: `int64` reads its bits in
two's complement.

`ValidateParams` bounds `GoalBonded` to `[0, 1]`, orders the inflation bounds and asks for a
denomination, which admits `GoalBonded = 0` and `BlocksPerYear = 0`, the two divisors of the
block's computation, and denominations `NewCoin` refuses: with any of them every block
panics (`BeginBlocker_of_zero_divisor`, `BeginBlocker_of_invalid_denom`).  `Params.MintOK`
adds what the computation needs, and under it

* `NextInflationRate_mem`: the new inflation lies in `[InflationMin, InflationMax]`;
* `BeginBlocker_ok`: a block returns, mints a nonnegative amount and keeps `MintInv`;
* `BeginBlocker_conserves`: the minted coins enter the supply and the collected fees alike;
* `runBlocks_ok`: every run of blocks returns, whatever the pools the staking transactions
  leave between them, as long as their tokens are nonnegative.

The 315-bit overflow checks of `sdk.Dec` are not modelled (see `Types.Dec`).
-/

namespace CosmosSdk.Mint

/-- `int64(u)` of a `uint64`: its bits read in two's complement, negative from `2^63` on. -/
def int64 (u : UInt64) : ℤ := u.toBitVec.toInt

theorem int64_of_lt {u : UInt64} (h : u.toNat < 2 ^ 63) : int64 u = u.toNat := by
  rw [int64, BitVec.toInt_eq_toNat_cond, if_pos (by simp only [UInt64.toNat_toBitVec]; omega)]
  rfl

@[simp] theorem int64_zero : int64 0 = 0 := rfl

/-- `Params`. -/
structure Params where
  MintDenom : String
  InflationRateChange : Dec
  InflationMax : Dec
  InflationMin : Dec
  GoalBonded : Dec
  BlocksPerYear : UInt64
  deriving DecidableEq, Repr

/-- `DefaultParams`: the inflation between 7% and 20%, changing by at most 13% a year, a
bonded goal of 67%, and a block every five seconds.  The denomination is
`sdk.DefaultBondDenom`. -/
def DefaultParams : Params where
  MintDenom := "stake"
  InflationRateChange := Dec.newDecWithPrec 13 2
  InflationMax := Dec.newDecWithPrec 20 2
  InflationMin := Dec.newDecWithPrec 7 2
  GoalBonded := Dec.newDecWithPrec 67 2
  BlocksPerYear := 60 * 60 * 8766 / 5

/-- `ValidateParams`. -/
def ValidateParams (params : Params) : Except String Unit := do
  if params.GoalBonded < 0 then
    throw ("mint parameter GoalBonded should be positive, is " ++ params.GoalBonded.toString ++ " ")
  if params.GoalBonded > Dec.one then
    throw ("mint parameter GoalBonded must be <= 1, is " ++ params.GoalBonded.toString)
  if params.InflationMax < params.InflationMin then
    throw "mint parameter Max inflation must be greater than or equal to min inflation"
  if params.MintDenom = "" then
    throw "mint parameter MintDenom can\x27t be an empty string"

theorem ValidateParams_eq_ok {params : Params} :
    ValidateParams params = .ok () ↔
      0 ≤ params.GoalBonded ∧ params.GoalBonded ≤ Dec.one ∧
        params.InflationMin ≤ params.InflationMax ∧ params.MintDenom ≠ "" := by
  unfold ValidateParams
  -- each guard that fires aborts the rest; the call returns when none fires
  simp only [Except.throw_eq_error, Except.error_bind, Except.ite_error_eq_ok, Except.pure_eq_ok,
    gt_iff_lt, not_lt, and_true]

/-- The parameters the block's computation needs: what `ValidateParams` checks, with a positive
`GoalBonded`, a `BlocksPerYear` that is positive as an `int64`, a nonnegative `InflationMin`
and a denomination `NewCoin` accepts. -/
structure Params.MintOK (params : Params) : Prop where
  goalBonded_pos : 0 < params.GoalBonded
  goalBonded_le : params.GoalBonded ≤ Dec.one
  blocksPerYear_pos : 0 < int64 params.BlocksPerYear
  inflation_le : params.InflationMin ≤ params.InflationMax
  inflationMin_nonneg : 0 ≤ params.InflationMin
  denom : Coins.validateDenom params.MintDenom = true

instance (params : Params) : Decidable params.MintOK :=
  decidable_of_iff (0 < params.GoalBonded ∧ params.GoalBonded ≤ Dec.one ∧
      0 < int64 params.BlocksPerYear ∧ params.InflationMin ≤ params.InflationMax ∧
      0 ≤ params.InflationMin ∧ Coins.validateDenom params.MintDenom = true)
    ⟨fun ⟨h₁, h₂, h₃, h₄, h₅, h₆⟩ => ⟨h₁, h₂, h₃, h₄, h₅, h₆⟩,
      fun ⟨h₁, h₂, h₃, h₄, h₅, h₆⟩ => ⟨h₁, h₂, h₃, h₄, h₅, h₆⟩⟩

/-- A valid denomination is not empty, so parameters fit for minting pass `ValidateParams`. -/
theorem Params.MintOK.validate {params : Params} (h : params.MintOK) :
    ValidateParams params = .ok () := by
  refine ValidateParams_eq_ok.2 ⟨h.goalBonded_pos.le, h.goalBonded_le, h.inflation_le, ?_⟩
  intro hempty
  have hd := h.denom
  rw [hempty] at hd
  exact absurd hd (by decide)

example : DefaultParams.MintOK := by decide

/-- `Minter`. -/
structure Minter where
  Inflation : Dec
  AnnualProvisions : Dec
  deriving DecidableEq, Repr

namespace Minter

/-- `InitialMinter`: no provisions yet. -/
def InitialMinter (inflation : Dec) : Minter := ⟨inflation, Dec.ofInt 0⟩

/-- `DefaultInitialMinter`: an inflation of 13%. -/
def DefaultInitialMinter : Minter := InitialMinter (Dec.newDecWithPrec 13 2)

/-- `ValidateMinter`. -/
def ValidateMinter (minter : Minter) : Except String Unit :=
  if minter.Inflation < 0 then
    throw ("mint parameter Inflation should be positive, is " ++ minter.Inflation.toString)
  else pure ()

/-- `NextInflationRate`. -/
def NextInflationRate (m : Minter) (params : Params) (bondedRatio : Dec) : Except Panic Dec := do
  let ratio ← bondedRatio.quo params.GoalBonded
  let inflationRateChangePerYear := (Dec.one - ratio).mul params.InflationRateChange
  let inflationRateChange ←
    inflationRateChangePerYear.quo (Dec.ofInt (int64 params.BlocksPerYear))
  -- the change may be negative
  let inflation := m.Inflation + inflationRateChange
  let inflation := if inflation > params.InflationMax then params.InflationMax else inflation
  let inflation := if inflation < params.InflationMin then params.InflationMin else inflation
  pure inflation

/-- `NextAnnualProvisions`. -/
def NextAnnualProvisions (m : Minter) (_params : Params) (totalSupply : ℤ) : Dec :=
  m.Inflation.mulInt totalSupply

/-- `BlockProvision`: `sdk.NewCoin` checks the denomination before the amount. -/
def BlockProvision (m : Minter) (params : Params) : Except Panic Coin := do
  let provisionAmt ← m.AnnualProvisions.quoInt (int64 params.BlocksPerYear)
  Coins.mustValidateDenom params.MintDenom
  Coin.NewCoin params.MintDenom provisionAmt.truncateInt

/-- The clamp of `NextInflationRate` lands in `[lo, hi]` when `lo ≤ hi`. -/
theorem clamp_mem {lo hi : Dec} (h : lo ≤ hi) (x : Dec) :
    let y := if x > hi then hi else x
    lo ≤ (if y < lo then lo else y) ∧ (if y < lo then lo else y) ≤ hi := by
  intro y
  have hy : y ≤ hi := by
    simp only [y]
    split_ifs with hx
    · exact le_rfl
    · exact not_lt.mp hx
  split_ifs with hlo
  · exact ⟨le_rfl, h⟩
  · exact ⟨not_lt.mp hlo, hy⟩

theorem ofInt_ne_zero {n : ℤ} (h : n ≠ 0) : (Dec.ofInt n).i ≠ 0 := by
  rw [Dec.ofInt_i]
  exact mul_ne_zero h Dec.precisionReuse_pos.ne'

/-- With both divisors nonzero the new inflation is the clamped one. -/
theorem NextInflationRate_mem {m : Minter} {params : Params} (bondedRatio : Dec)
    (hg : params.GoalBonded ≠ 0) (hb : int64 params.BlocksPerYear ≠ 0)
    (hle : params.InflationMin ≤ params.InflationMax) :
    ∃ inflation, m.NextInflationRate params bondedRatio = .ok inflation ∧
      params.InflationMin ≤ inflation ∧ inflation ≤ params.InflationMax := by
  have hgi : params.GoalBonded.i ≠ 0 := fun h0 => hg (Dec.i_injective h0)
  unfold NextInflationRate
  simp only [Dec.quo_of_ne hgi, Dec.quo_of_ne (ofInt_ne_zero hb), Except.pure_eq_ok,
    Except.ok_bind]
  exact ⟨_, rfl, clamp_mem hle _⟩

/-- A zero `GoalBonded` or `BlocksPerYear` makes one of the two quotients panic. -/
theorem NextInflationRate_of_zero_divisor {m : Minter} {params : Params} (bondedRatio : Dec)
    (h : params.GoalBonded = 0 ∨ params.BlocksPerYear = 0) :
    m.NextInflationRate params bondedRatio = .error ⟨"division by zero"⟩ := by
  unfold NextInflationRate
  by_cases hg : params.GoalBonded.i = 0
  · -- the bonded ratio is divided by zero
    simp only [Dec.quo, hg]
    rfl
  · -- the yearly change is divided by zero blocks
    have hb : params.BlocksPerYear = 0 := h.resolve_left fun h0 => hg (by rw [h0]; rfl)
    rw [Dec.quo_of_ne hg, pure_bind]
    simp only [Dec.quo, hb, int64_zero, Dec.ofInt_i, zero_mul]
    rfl

/-- With a positive `int64` of `BlocksPerYear`, a valid denomination and nonnegative
provisions, `BlockProvision` mints their truncated `BlocksPerYear`-th. -/
theorem BlockProvision_ok {m : Minter} {params : Params} (hb : 0 < int64 params.BlocksPerYear)
    (hd : Coins.validateDenom params.MintDenom = true) (hprov : 0 ≤ m.AnnualProvisions) :
    ∃ coin, m.BlockProvision params = .ok coin ∧ coin.denom = params.MintDenom ∧
      0 ≤ coin.amount := by
  have hamt : 0 ≤ Dec.truncateInt ⟨m.AnnualProvisions.i.tdiv (int64 params.BlocksPerYear)⟩ :=
    Int.tdiv_nonneg (Int.tdiv_nonneg hprov hb.le) Dec.precisionReuse_pos.le
  unfold BlockProvision
  rw [Dec.quoInt_of_ne hb.ne', pure_bind]
  simp only [Coins.mustValidateDenom, hd, if_true, pure_bind, Coin.NewCoin, not_lt.mpr hamt,
    if_false]
  exact ⟨_, rfl, rfl, hamt⟩

theorem BlockProvision_denom {m : Minter} {params : Params} {coin : Coin}
    (h : m.BlockProvision params = .ok coin) : coin.denom = params.MintDenom := by
  unfold BlockProvision at h
  obtain ⟨amt, -, h⟩ := Except.bind_eq_ok.1 h
  obtain ⟨-, -, h⟩ := Except.bind_eq_ok.1 h
  unfold Coin.NewCoin at h
  -- the negative amount's panic is not `.ok`, which leaves the coin built
  split_ifs at h
  cases h
  rfl

/-- An invalid denomination makes `BlockProvision` panic once the quotient is taken. -/
theorem BlockProvision_of_invalid_denom {m : Minter} {params : Params}
    (hb : int64 params.BlocksPerYear ≠ 0) (hd : Coins.validateDenom params.MintDenom = false) :
    m.BlockProvision params = .error ⟨"invalid denom: " ++ params.MintDenom⟩ := by
  unfold BlockProvision
  rw [Dec.quoInt_of_ne hb, pure_bind]
  simp only [Coins.mustValidateDenom, hd, Bool.false_eq_true, if_false]
  rfl

end Minter

/-- The store of the mint keeper with what `BeginBlocker` reads of the other keepers: the
minter under `MinterKey`, absent before genesis, the parameter subspace, the staking pool and
the collected fees. -/
structure State where
  minter : Option Minter
  params : Params
  pool : Staking.Pool
  collectedFees : Coins

namespace State

/-- `GetMinter`. -/
def GetMinter (s : State) : Except Panic Minter :=
  match s.minter with
  | some minter => pure minter
  | none => throw ⟨"stored minter should not have been nil"⟩

/-- `SetMinter`. -/
def SetMinter (s : State) (minter : Minter) : State := { s with minter := some minter }

/-- `GetParams`. -/
def GetParams (s : State) : Params := s.params

/-- `SetParams`. -/
def SetParams (s : State) (params : Params) : State := { s with params }

/-- `TotalTokens`: the pool's `TokenSupply`. -/
def TotalTokens (s : State) : ℤ := s.pool.TokenSupply

/-- `BondedRatio`: the pool's. -/
def BondedRatio (s : State) : Except Panic Dec := s.pool.BondedRatio

/-- `InflateSupply`: the new tokens are not bonded. -/
def InflateSupply (s : State) (newTokens : ℤ) : State :=
  { s with pool := { s.pool with notBondedTokens := s.pool.notBondedTokens + newTokens } }

/-- `AddCollectedFees`. -/
def AddCollectedFees (s : State) (fees : Coins) : State :=
  { s with collectedFees := s.collectedFees.Add fees }

end State

/-- `BeginBlocker`. -/
def BeginBlocker (s : State) : Except Panic State := do
  let minter ← s.GetMinter
  let params := s.GetParams
  let totalSupply := s.TotalTokens
  let bondedRatio ← s.BondedRatio
  let inflation ← minter.NextInflationRate params bondedRatio
  let minter := { minter with Inflation := inflation }
  let minter := { minter with AnnualProvisions := minter.NextAnnualProvisions params totalSupply }
  let s := s.SetMinter minter
  let mintedCoin ← minter.BlockProvision params
  let s := s.AddCollectedFees [mintedCoin]
  pure (s.InflateSupply mintedCoin.amount)

/-- `GenesisState`. -/
structure GenesisState where
  minter : Minter
  params : Params

/-- `DefaultGenesisState`. -/
def DefaultGenesisState : GenesisState := ⟨Minter.DefaultInitialMinter, DefaultParams⟩

/-- `InitGenesis`. -/
def InitGenesis (s : State) (data : GenesisState) : State :=
  (s.SetMinter data.minter).SetParams data.params

/-- `ValidateGenesis`. -/
def ValidateGenesis (data : GenesisState) : Except String Unit := do
  ValidateParams data.params
  data.minter.ValidateMinter

/-! ### One block -/

section Block

variable {s s' : State} {m : Minter}

/-- The state after a block whose four computations returned. -/
theorem BeginBlocker_eq {r inflation : Dec} {coin : Coin} (hm : s.minter = some m)
    (hr : s.pool.BondedRatio = .ok r) (hi : m.NextInflationRate s.params r = .ok inflation)
    (hc : (⟨inflation, inflation.mulInt s.pool.TokenSupply⟩ : Minter).BlockProvision s.params =
      .ok coin) :
    BeginBlocker s = .ok ⟨some ⟨inflation, inflation.mulInt s.pool.TokenSupply⟩, s.params,
      { s.pool with notBondedTokens := s.pool.notBondedTokens + coin.amount },
      s.collectedFees.Add [coin]⟩ := by
  simp only [BeginBlocker, State.GetMinter, hm, State.BondedRatio, hr, State.GetParams, hi,
    State.TotalTokens, Minter.NextAnnualProvisions, State.SetMinter, hc, Except.pure_eq_ok,
    Except.ok_bind]
  rfl

/-- Every block that returns is such a block. -/
theorem BeginBlocker_inv (h : BeginBlocker s = .ok s') :
    ∃ m r inflation coin, s.minter = some m ∧ s.pool.BondedRatio = .ok r ∧
      m.NextInflationRate s.params r = .ok inflation ∧
      (⟨inflation, inflation.mulInt s.pool.TokenSupply⟩ : Minter).BlockProvision s.params =
        .ok coin ∧
      s' = ⟨some ⟨inflation, inflation.mulInt s.pool.TokenSupply⟩, s.params,
        { s.pool with notBondedTokens := s.pool.notBondedTokens + coin.amount },
        s.collectedFees.Add [coin]⟩ := by
  obtain ⟨m, hm, h⟩ := Except.bind_eq_ok.1 h
  have hm' : s.minter = some m := by
    unfold State.GetMinter at hm
    split at hm
    · cases hm
      assumption
    · cases hm
  obtain ⟨r, hr, h⟩ := Except.bind_eq_ok.1 h
  obtain ⟨inflation, hi, h⟩ := Except.bind_eq_ok.1 h
  obtain ⟨coin, hc, h⟩ := Except.bind_eq_ok.1 h
  exact ⟨m, r, inflation, coin, hm', hr, hi, hc, (Except.ok.inj h).symm⟩

/-- With a zero divisor among the parameters, every block with a minter panics. -/
theorem BeginBlocker_of_zero_divisor (hm : s.minter = some m)
    (h : s.params.GoalBonded = 0 ∨ s.params.BlocksPerYear = 0) :
    BeginBlocker s = .error ⟨"division by zero"⟩ := by
  obtain ⟨r, hr⟩ := s.pool.BondedRatio_ok
  simp only [BeginBlocker, State.GetMinter, hm, State.BondedRatio, hr, State.GetParams,
    Except.pure_eq_ok, Except.ok_bind, Minter.NextInflationRate_of_zero_divisor r h,
    Except.error_bind]

/-- With an invalid denomination, every block with a minter panics, whatever the inflation. -/
theorem BeginBlocker_of_invalid_denom (hm : s.minter = some m)
    (hg : s.params.GoalBonded ≠ 0) (hb : int64 s.params.BlocksPerYear ≠ 0)
    (hle : s.params.InflationMin ≤ s.params.InflationMax)
    (hd : Coins.validateDenom s.params.MintDenom = false) :
    BeginBlocker s = .error ⟨"invalid denom: " ++ s.params.MintDenom⟩ := by
  obtain ⟨r, hr⟩ := s.pool.BondedRatio_ok
  obtain ⟨inflation, hi, -⟩ := Minter.NextInflationRate_mem (m := m) r hg hb hle
  simp only [BeginBlocker, State.GetMinter, hm, State.BondedRatio, hr, State.GetParams, hi,
    Except.pure_eq_ok, Except.ok_bind, Minter.BlockProvision_of_invalid_denom hb hd,
    Except.error_bind]

/-- What keeps minting going: parameters fit for it, a stored minter with a nonnegative
inflation, and a pool of nonnegative tokens. -/
structure MintInv (s : State) : Prop where
  params : s.params.MintOK
  minter : ∃ m, s.minter = some m ∧ 0 ≤ m.Inflation
  notBonded : 0 ≤ s.pool.notBondedTokens
  bonded : 0 ≤ s.pool.bondedTokens

/-- A block from a state with `MintInv` returns; its inflation is within the bounds, its
minted coin is of `MintDenom` with a nonnegative amount, and `MintInv` holds after it. -/
theorem BeginBlocker_ok (h : MintInv s) :
    ∃ s', BeginBlocker s = .ok s' ∧ MintInv s' ∧
      ∃ m', s'.minter = some m' ∧
        s.params.InflationMin ≤ m'.Inflation ∧ m'.Inflation ≤ s.params.InflationMax := by
  obtain ⟨m, hm, -⟩ := h.minter
  obtain ⟨r, hr⟩ := s.pool.BondedRatio_ok
  obtain ⟨inflation, hi, hlo, hhi⟩ := Minter.NextInflationRate_mem (m := m) r
    h.params.goalBonded_pos.ne' h.params.blocksPerYear_pos.ne' h.params.inflation_le
  -- the inflation is at least `InflationMin ≥ 0` and the supply is nonnegative
  have hinfl : 0 ≤ inflation := le_trans h.params.inflationMin_nonneg hlo
  have hprov : 0 ≤ inflation.mulInt s.pool.TokenSupply := by
    rw [Dec.le_iff, Dec.mulInt_i, Dec.zero_i]
    exact mul_nonneg ((Dec.le_iff _ _).1 hinfl) (add_nonneg h.notBonded h.bonded)
  obtain ⟨coin, hc, -, hamt⟩ := Minter.BlockProvision_ok (m := ⟨inflation, _⟩)
    h.params.blocksPerYear_pos h.params.denom hprov
  refine ⟨_, BeginBlocker_eq hm hr hi hc, ⟨h.params, ⟨_, rfl, hinfl⟩, ?_, h.bonded⟩,
    _, rfl, hlo, hhi⟩
  exact add_nonneg h.notBonded hamt

/-- A block adds what it mints to the supply and to the collected fees alike, and keeps the
parameters. -/
theorem BeginBlocker_conserves (h : BeginBlocker s = .ok s') :
    s'.params = s.params ∧
      s'.pool.TokenSupply - Coins.amount s'.collectedFees s.params.MintDenom =
        s.pool.TokenSupply - Coins.amount s.collectedFees s.params.MintDenom := by
  obtain ⟨m, r, inflation, coin, -, -, -, hc, rfl⟩ := BeginBlocker_inv h
  have hdenom := Minter.BlockProvision_denom hc
  refine ⟨rfl, ?_⟩
  simp only [Staking.Pool.TokenSupply, Coins.amount_Add, Coins.amount_cons, hdenom, if_true,
    Coins.amount_nil]
  omega

end Block

/-! ### Runs of blocks -/

/-- Blocks one after another: before each, the staking transactions of the block before have
left the pool as given. -/
def runBlocks (pools : List Staking.Pool) (s : State) : Except Panic State :=
  pools.foldlM (fun s pool => BeginBlocker { s with pool }) s

/-- From a state with `MintInv`, every run of blocks returns and keeps it, whatever pools of
nonnegative tokens the staking transactions leave between the blocks. -/
theorem runBlocks_ok {s : State} (h : MintInv s) (pools : List Staking.Pool)
    (hpools : ∀ p ∈ pools, 0 ≤ p.notBondedTokens ∧ 0 ≤ p.bondedTokens) :
    ∃ s', runBlocks pools s = .ok s' ∧ MintInv s' := by
  -- the invariant of the loop: `MintInv` now, and nonnegative pools still to come
  let P : List Staking.Pool → State → Prop := fun l s => MintInv s ∧
    ∀ p ∈ l, 0 ≤ p.notBondedTokens ∧ 0 ≤ p.bondedTokens
  have hstep : ∀ pool l s, P (pool :: l) s →
      ∃ s', BeginBlocker { s with pool } = .ok s' ∧ P l s' := by
    rintro pool l s ⟨hinv, hl⟩
    obtain ⟨hn, hb⟩ := hl pool List.mem_cons_self
    obtain ⟨s', hs', hinv', -⟩ := BeginBlocker_ok (s := { s with pool })
      ⟨hinv.params, hinv.minter, hn, hb⟩
    exact ⟨s', hs', hinv', fun p hp => hl p (List.mem_cons_of_mem pool hp)⟩
  obtain ⟨s', hs', hinv', -⟩ := Except.foldlM_ok P hstep pools s ⟨h, hpools⟩
  exact ⟨s', hs', hinv'⟩

/-- A genesis that passes `ValidateGenesis` with parameters fit for minting, on a pool of
nonnegative tokens, starts a chain with `MintInv`. -/
theorem InitGenesis_mintInv {s : State} {data : GenesisState}
    (hvalid : ValidateGenesis data = .ok ()) (hparams : data.params.MintOK)
    (hn : 0 ≤ s.pool.notBondedTokens) (hb : 0 ≤ s.pool.bondedTokens) :
    MintInv (InitGenesis s data) := by
  have hminter : data.minter.ValidateMinter = .ok () := by
    unfold ValidateGenesis at hvalid
    rw [hparams.validate, Except.ok_bind] at hvalid
    exact hvalid
  have hinfl : 0 ≤ data.minter.Inflation := by
    unfold Minter.ValidateMinter at hminter
    split_ifs at hminter with hneg
    exact not_lt.mp hneg
  exact ⟨hparams, ⟨_, rfl, hinfl⟩, hn, hb⟩

/-! ### Parameters `ValidateParams` accepts and minting cannot use -/

theorem BeginBlocker_panics_on_accepted_params (m : Minter) (pool : Staking.Pool)
    (fees : Coins) :
    let noGoal := { DefaultParams with GoalBonded := 0 }
    let noBlocks := { DefaultParams with BlocksPerYear := 0 }
    let shortDenom := { DefaultParams with MintDenom := "s" }
    ValidateParams noGoal = .ok () ∧ ValidateParams noBlocks = .ok () ∧
      ValidateParams shortDenom = .ok () ∧
      BeginBlocker ⟨some m, noGoal, pool, fees⟩ = .error ⟨"division by zero"⟩ ∧
      BeginBlocker ⟨some m, noBlocks, pool, fees⟩ = .error ⟨"division by zero"⟩ ∧
      BeginBlocker ⟨some m, shortDenom, pool, fees⟩ = .error ⟨"invalid denom: s"⟩ := by
  intro noGoal noBlocks shortDenom
  refine ⟨by decide, by decide, by decide, ?_, ?_, ?_⟩
  · exact BeginBlocker_of_zero_divisor rfl (.inl rfl)
  · exact BeginBlocker_of_zero_divisor rfl (.inr rfl)
  · exact BeginBlocker_of_invalid_denom rfl (show shortDenom.GoalBonded ≠ 0 by decide)
      (show int64 shortDenom.BlocksPerYear ≠ 0 by decide)
      (show shortDenom.InflationMin ≤ shortDenom.InflationMax by decide)
      (show Coins.validateDenom shortDenom.MintDenom = false by decide)

end CosmosSdk.Mint
