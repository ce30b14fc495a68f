import CosmosSdk.Auth.Ante
import CosmosSdk.BaseApp.RunTx

/-!
# Gas

`store/types/gas.go`, and the gas accounting of `BeginBlock` and `runTx` (`baseapp.go`) and
of `NewAnteHandler` (`x/auth/ante.go`).

A gas meter counts the gas consumed.  `ConsumeGas` stores the sum before its checks, zero on
an overflow (`addUint64Overflow` returns `0, true`), and then panics with `ErrorGasOverflow`,
or, for a `basicGasMeter` past its limit, with `ErrorOutOfGas`.

`BeginBlock` gives the block a `basicGasMeter` whose limit is the consensus `MaxGas`, when it
is positive.  The ante handler gives the transaction a `basicGasMeter` whose limit is the
fee's gas (`SetGasMeter`, past the genesis block), and its deferred function recovers an
out-of-gas panic into a result that reports the fee's gas as `GasWanted`.  `runTx` in
`DeliverTx` returns at once when the block meter is out of gas.  Otherwise its second
deferred function charges the block meter what the transaction's meter reports through
`GasConsumedToLimit`; its first, declared earlier and so run later, recovers the panic of
the body or of the second, and reports `GasWanted` and `GasUsed`.

The other effects of a transaction are the subject of `RunTx` and `Ante`.  Here the ante
handler is given by its checks and the gas it consumes, in order (`AnteStep`), and the
messages by the gas they consume and their outcome (`MsgsRun`).  A transaction whose bytes
do not decode never reaches `runTx` and is left out.

The main results: the block meter of a run of `DeliverTx` is the sum of the charges and never
goes down (`runBlock_GasConsumed`, `runBlock_append_GasConsumed_le`), as each transaction's
charge is at most `maxGasWanted`, the fee's gas having passed `ValidateBasic` before any gas
is consumed (`TxRun.charge_le`); the `GasWanted` that `runTx` reports is the fee's gas
exactly when the ante handler's checks pass (`runAnteSteps_GasWanted`).
-/

namespace CosmosSdk.BaseApp

/-- `Gas`. -/
abbrev Gas := UInt64

/-- `math.MaxUint64`. -/
def MaxUint64 : UInt64 := 18446744073709551615

/-- `addUint64Overflow(a, b)`: the sum, or zero and `true` when it overflows. -/
def addUint64Overflow (a b : UInt64) : UInt64 × Bool :=
  if MaxUint64 - a < b then (0, true) else (a + b, false)

/-- The panics of a gas meter, with their descriptors. -/
inductive GasPanic
  /-- `ErrorOutOfGas`. -/
  | ErrorOutOfGas (Descriptor : String)
  /-- `ErrorGasOverflow`. -/
  | ErrorGasOverflow (Descriptor : String)
  deriving DecidableEq, Repr

/-- `GasMeter`, by its two implementations, each with the gas consumed. -/
inductive GasMeter
  /-- `basicGasMeter`. -/
  | basic (limit consumed : Gas)
  /-- `infiniteGasMeter`. -/
  | infinite (consumed : Gas)
  deriving DecidableEq, Repr

namespace GasMeter

/-- `NewGasMeter(limit)`. -/
def NewGasMeter (limit : Gas) : GasMeter := basic limit 0

/-- `NewInfiniteGasMeter()`. -/
def NewInfiniteGasMeter : GasMeter := infinite 0

/-- `GasConsumed`. -/
def GasConsumed : GasMeter → Gas
  | basic _ consumed => consumed
  | infinite consumed => consumed

/-- `Limit`. -/
def Limit : GasMeter → Gas
  | basic limit _ => limit
  | infinite _ => 0

/-- `IsPastLimit`. -/
def IsPastLimit : GasMeter → Bool
  | basic limit consumed => consumed > limit
  | infinite _ => false

/-- `IsOutOfGas`. -/
def IsOutOfGas : GasMeter → Bool
  | basic limit consumed => consumed ≥ limit
  | infinite _ => false

/-- `GasConsumedToLimit`: the limit once the meter is past it. -/
def GasConsumedToLimit (g : GasMeter) : Gas :=
  if g.IsPastLimit then g.Limit else g.GasConsumed

/-- `ConsumeGas(amount, descriptor)`: the meter after it, and its panic. -/
def ConsumeGas (g : GasMeter) (amount : Gas) (descriptor : String) : GasMeter × Option GasPanic :=
  match g with
  | basic limit consumed =>
    -- `g.consumed, overflow = addUint64Overflow(g.consumed, amount)`
    let sum := addUint64Overflow consumed amount
    if sum.2 then (basic limit sum.1, some (.ErrorGasOverflow descriptor))
    else if sum.1 > limit then (basic limit sum.1, some (.ErrorOutOfGas descriptor))
    else (basic limit sum.1, none)
  | infinite consumed =>
    let sum := addUint64Overflow consumed amount
    if sum.2 then (infinite sum.1, some (.ErrorGasOverflow descriptor))
    else (infinite sum.1, none)

/-- Gas consumed in order, until a panic. -/
def consumeAll (g : GasMeter) : List (Gas × String) → GasMeter × Option GasPanic
  | [] => (g, none)
  | (amount, descriptor) :: rest =>
    match g.ConsumeGas amount descriptor with
    | (g, none) => g.consumeAll rest
    | (g, some p) => (g, some p)

/-- A `basicGasMeter` whose limit is at most `maxGasWanted`, the most gas a `StdTx` may ask
for. -/
def Bounded : GasMeter → Prop
  | basic limit _ => limit.toNat ≤ Auth.maxGasWanted
  | infinite _ => False

instance : DecidablePred Bounded := fun g =>
  match g with
  | basic limit _ => inferInstanceAs (Decidable (limit.toNat ≤ Auth.maxGasWanted))
  | infinite _ => inferInstanceAs (Decidable False)

@[simp] theorem bounded_basic (limit consumed : Gas) :
    (basic limit consumed).Bounded ↔ limit.toNat ≤ Auth.maxGasWanted := Iff.rfl

theorem MaxUint64_toNat : MaxUint64.toNat = 2 ^ 64 - 1 := rfl

/-- `addUint64Overflow` overflows exactly when the sum reaches `2^64`. -/
theorem addUint64Overflow_eq (a b : UInt64) :
    addUint64Overflow a b = if a.toNat + b.toNat < 2 ^ 64 then (a + b, false) else (0, true) := by
  have hA := a.toNat_lt
  have ha : a ≤ MaxUint64 := by
    rw [UInt64.le_iff_toNat_le, MaxUint64_toNat]
    omega
  have hlt : MaxUint64 - a < b ↔ ¬ a.toNat + b.toNat < 2 ^ 64 := by
    rw [UInt64.lt_iff_toNat_lt, UInt64.toNat_sub_of_le _ _ ha, MaxUint64_toNat]
    omega
  simp only [addUint64Overflow, hlt, ite_not]

theorem toNat_add_of_lt {a b : UInt64} (h : a.toNat + b.toNat < 2 ^ 64) :
    (a + b).toNat = a.toNat + b.toNat := by
  rw [UInt64.toNat_add, Nat.mod_eq_of_lt h]

/-- `ConsumeGas` stores the sum before it checks anything: the meter after it is the same
kind of meter, with the same limit, whether it panics or not. -/
@[simp] theorem ConsumeGas_basic (limit consumed amount : Gas) (descriptor : String) :
    ((basic limit consumed).ConsumeGas amount descriptor).1 =
      basic limit (addUint64Overflow consumed amount).1 := by
  simp only [ConsumeGas]
  split_ifs <;> rfl

@[simp] theorem ConsumeGas_infinite (consumed amount : Gas) (descriptor : String) :
    ((infinite consumed).ConsumeGas amount descriptor).1 =
      infinite (addUint64Overflow consumed amount).1 := by
  simp only [ConsumeGas]
  split_ifs <;> rfl

/-- A `basicGasMeter` reports the gas consumed, at most its limit. -/
theorem GasConsumedToLimit_basic_toNat (limit consumed : Gas) :
    (basic limit consumed).GasConsumedToLimit.toNat = min consumed.toNat limit.toNat := by
  by_cases h : limit < consumed
  · have : limit.toNat < consumed.toNat := UInt64.lt_iff_toNat_lt.mp h
    simp only [GasConsumedToLimit, IsPastLimit, Limit, gt_iff_lt, h, decide_true, if_true]
    omega
  · have : consumed.toNat ≤ limit.toNat := by simpa [UInt64.lt_iff_toNat_lt] using h
    simp only [GasConsumedToLimit, IsPastLimit, GasConsumed, gt_iff_lt, h, decide_false,
      if_false, Bool.false_eq_true]
    omega

/-- `GasConsumedToLimit` never reports more than was consumed. -/
theorem GasConsumedToLimit_le_GasConsumed (g : GasMeter) :
    g.GasConsumedToLimit.toNat ≤ g.GasConsumed.toNat := by
  cases g with
  | basic limit consumed =>
    rw [GasConsumedToLimit_basic_toNat]
    exact min_le_left _ _
  | infinite consumed => exact le_rfl

section Bounded

variable {g : GasMeter}

theorem Bounded.GasConsumedToLimit_le (hg : g.Bounded) :
    g.GasConsumedToLimit.toNat ≤ Auth.maxGasWanted := by
  cases g with
  | basic limit consumed =>
    rw [bounded_basic] at hg
    rw [GasConsumedToLimit_basic_toNat]
    exact (min_le_right _ _).trans hg
  | infinite _ => exact hg.elim

theorem Bounded.ConsumeGas (hg : g.Bounded) (amount : Gas) (descriptor : String) :
    (g.ConsumeGas amount descriptor).1.Bounded := by
  cases g with
  | basic limit consumed =>
    rw [ConsumeGas_basic, bounded_basic]
    exact hg
  | infinite _ => exact hg.elim

theorem Bounded.consumeAll (hg : g.Bounded) (cs : List (Gas × String)) :
    (g.consumeAll cs).1.Bounded := by
  induction cs generalizing g with
  | nil => exact hg
  | cons c cs ih =>
    obtain ⟨amount, descriptor⟩ := c
    have hc := hg.ConsumeGas amount descriptor
    simp only [consumeAll]
    rcases hcg : g.ConsumeGas amount descriptor with ⟨g', _ | p⟩
    all_goals rw [hcg] at hc
    · exact ih hc
    · exact hc

end Bounded

end GasMeter

open GasMeter

/-- `sdk.Result` with the gas figures that `Result` leaves out. -/
structure GasResult where
  result : Result
  GasWanted : Gas := 0
  GasUsed : Gas := 0

/-- A panic that reaches a `recover`: a gas meter's, or another. -/
inductive TxPanic
  | gas (p : GasPanic)
  | other (p : Panic)

/-- One step of the ante handler after `SetGasMeter`: gas consumed (by its own `ConsumeGas`
calls and by its store accesses); a check, with the result it returns when it fails (an
error's `Result()`, or the zero `sdk.Result` of a refused fee delegation); or a panic of its
own. -/
inductive AnteStep
  | consume (amount : Gas) (descriptor : String)
  | check (res : Option Result)
  | panic (p : Panic)

/-- What the ante handler gives back to `runTx`: the meter of the context it returns, its
result and whether the transaction aborts; or the panic it raises again. -/
inductive AnteOutcome
  | returned (meter : GasMeter) (res : GasResult) (abort : Bool)
  | panicked (p : TxPanic)

/-- The `GasWanted` that `runTx` takes from the ante handler's result. -/
def AnteOutcome.GasWanted : AnteOutcome → Gas
  | returned _ res _ => res.GasWanted
  | panicked _ => 0

/-- `SetGasMeter(simulate, ctx, gasLimit)`: nothing is metered in a simulation or in the
genesis block. -/
def SetGasMeter (simulate : Bool) (height : ℕ) (gasLimit : Gas) : GasMeter :=
  if simulate ∨ height = 0 then NewInfiniteGasMeter else NewGasMeter gasLimit

/-- The log of an out-of-gas panic recovered by the ante handler or by `runTx`. -/
def outOfGasLog (descriptor : String) (gasWanted gasUsed : Gas) : String :=
  "out of gas in location: " ++ descriptor ++ "; gasWanted: " ++ toString gasWanted ++
    ", gasUsed: " ++ toString gasUsed

/-- The ante handler's steps on its meter, `gasWanted` being the fee's gas.  Its deferred
function recovers an out-of-gas panic into an `ErrOutOfGas` result that aborts, and raises
any other panic again; when every check passes, the result reports the fee's gas. -/
def runAnteSteps (gasWanted : Gas) (meter : GasMeter) : List AnteStep → AnteOutcome
  | [] => .returned meter { result := {}, GasWanted := gasWanted } false
  | .consume amount descriptor :: steps =>
    match meter.ConsumeGas amount descriptor with
    | (meter, none) => runAnteSteps gasWanted meter steps
    | (meter, some (.ErrorOutOfGas d)) =>
      .returned meter
        { result := (Error.ErrOutOfGas (outOfGasLog d gasWanted meter.GasConsumed)).Result
          GasWanted := gasWanted, GasUsed := meter.GasConsumed } true
    | (_, some (.ErrorGasOverflow d)) => .panicked (.gas (.ErrorGasOverflow d))
  | .check none :: steps => runAnteSteps gasWanted meter steps
  | .check (some res) :: _ => .returned meter { result := res } true
  | .panic p :: _ => .panicked (.other p)

/-- Whether the ante handler's steps on a meter pass, or run out of gas, before a check fails
or a panic: the two ways its result reports the fee's gas. -/
def passesChecks (meter : GasMeter) : List AnteStep → Bool
  | [] => true
  | .consume amount descriptor :: steps =>
    match meter.ConsumeGas amount descriptor with
    | (meter, none) => passesChecks meter steps
    | (_, some (.ErrorOutOfGas _)) => true
    | (_, some (.ErrorGasOverflow _)) => false
  | .check none :: steps => passesChecks meter steps
  | .check (some _) :: _ => false
  | .panic _ :: _ => false

section AnteSteps

variable (gasWanted : Gas)

/-- The `GasWanted` of the ante handler's result is the fee's gas exactly when its checks
pass, and zero otherwise. -/
theorem runAnteSteps_GasWanted (meter : GasMeter) (steps : List AnteStep) :
    (runAnteSteps gasWanted meter steps).GasWanted =
      if passesChecks meter steps then gasWanted else 0 := by
  induction steps generalizing meter with
  | nil => rfl
  | cons step steps ih =>
    cases step with
    | consume amount descriptor =>
      rcases hc : meter.ConsumeGas amount descriptor with ⟨meter', _ | _ | _⟩
      all_goals simp only [runAnteSteps, passesChecks, hc]
      · exact ih meter'
      · rfl
      · rfl
    | check res =>
      cases res with
      | none => exact ih meter
      | some res => rfl
    | panic p => rfl

/-- A bounded meter stays bounded through the ante handler's steps. -/
theorem runAnteSteps_Bounded {meter : GasMeter} (hm : meter.Bounded) {steps : List AnteStep}
    {m : GasMeter} {res : GasResult} {abort : Bool}
    (h : runAnteSteps gasWanted meter steps = .returned m res abort) : m.Bounded := by
  induction steps generalizing meter with
  | nil =>
    simp only [runAnteSteps, AnteOutcome.returned.injEq] at h
    exact h.1 ▸ hm
  | cons step steps ih =>
    cases step with
    | consume amount descriptor =>
      have hc := hm.ConsumeGas amount descriptor
      rcases hcg : meter.ConsumeGas amount descriptor with ⟨meter', _ | _ | _⟩
      all_goals simp only [runAnteSteps, hcg] at h hc
      · exact ih hc h
      · simp only [AnteOutcome.returned.injEq] at h
        exact h.1 ▸ hc
      · cases h
    | check res =>
      cases res with
      | none => exact ih hm h
      | some r =>
        simp only [runAnteSteps, AnteOutcome.returned.injEq] at h
        exact h.1 ▸ hm
    | panic p => cases h

end AnteSteps

/-- What `NewAnteHandler` reads besides the transaction. -/
structure AnteConfig where
  crypto : Auth.Crypto
  params : Auth.Params
  TxSizeCostPerByte : Gas

/-- The steps of `NewAnteHandler` after `SetGasMeter`, up to the memo check; the steps of the
fee and of the signatures follow (`rest`). -/
def authAnteSteps (cfg : AnteConfig) (txBytesLen : ℕ) (tx : Auth.StdTx)
    (rest : List AnteStep) : List AnteStep :=
  .check ((Auth.ValidateSigCount cfg.crypto cfg.params tx).map Error.Result) ::
  .check (tx.ValidateBasic.map Error.Result) ::
  .consume (cfg.TxSizeCostPerByte * UInt64.ofNat txBytesLen) "txSize" ::
  .check ((Auth.ValidateMemo cfg.params tx).map Error.Result) :: rest

/-- `NewAnteHandler` in `DeliverTx` at a block height, as the meters see it. -/
def anteHandlerGas (height : ℕ) (tx : Auth.StdTx) (steps : List AnteStep) : AnteOutcome :=
  runAnteSteps (UInt64.ofNat tx.fee.gas) (SetGasMeter false height (UInt64.ofNat tx.fee.gas))
    steps

/-- What the messages do in `runMsgs`, as the meter sees it: the gas they consume, in order,
then their result, or a panic of their own. -/
structure MsgsRun where
  consumed : List (Gas × String)
  outcome : Except Panic Result

/-- The body of `runTx` between its deferred functions: the meter `ctx.GasMeter()` that they
read, the `gasWanted` they report, and the result or the panic. -/
structure TxBody where
  meter : GasMeter
  gasWanted : Gas
  outcome : Except TxPanic GasResult

/-- `runTx`'s body.  `ctx` keeps the deliver context's meter `ctxMeter` until the ante handler
returns a context with its own. -/
def runTxBody (ctxMeter : GasMeter) (validateBasic : Option Error) (ante : AnteOutcome)
    (msgs : MsgsRun) : TxBody :=
  match validateBasic, ante with
  | some err, _ => ⟨ctxMeter, 0, .ok { result := err.Result }⟩
  | none, .panicked p => ⟨ctxMeter, 0, .error p⟩
  | none, .returned meter res abort =>
    if abort then ⟨meter, res.GasWanted, .ok res⟩
    else
      match meter.consumeAll msgs.consumed with
      | (meter, some p) => ⟨meter, res.GasWanted, .error (.gas p)⟩
      | (meter, none) =>
        ⟨meter, res.GasWanted, (msgs.outcome.map fun result => { result }).mapError .other⟩

/-- The result that `runTx`'s first deferred function makes of a recovered panic. -/
def recovered (gasWanted gasUsed : Gas) : TxPanic → Result
  | .gas (.ErrorOutOfGas d) => (Error.ErrOutOfGas (outOfGasLog d gasWanted gasUsed)).Result
  | .gas (.ErrorGasOverflow d) => (Error.ErrInternal ("recovered: \x7b" ++ d ++ "\x7d")).Result
  | .other p => (Error.ErrInternal ("recovered: " ++ p.msg)).Result

/-- `runTx` in `DeliverTx`, as the meters see it: the block meter after it, and the result. -/
def runTxGas (block ctxMeter : GasMeter) (validateBasic : Option Error) (ante : AnteOutcome)
    (msgs : MsgsRun) : GasMeter × GasResult :=
  -- only run the tx if there is block gas remaining
  if block.IsOutOfGas then
    (block, { result := (Error.ErrOutOfGas "no block gas left to run tx").Result })
  else
    let body := runTxBody ctxMeter validateBasic ante msgs
    -- the second deferred function; a panic there replaces the body's
    let charged := block.ConsumeGas body.meter.GasConsumedToLimit "block gas meter"
    let panicked := match charged.2 with
      | some p => some p
      | none =>
        if charged.1.GasConsumed < block.GasConsumed then
          some (.ErrorGasOverflow "tx gas summation")
        else none
    let outcome : Except TxPanic GasResult := match panicked with
      | some p => .error (.gas p)
      | none => body.outcome
    -- the first: the panic recovered, then the gas figures
    let result := match outcome with
      | .ok res => res.result
      | .error p => recovered body.gasWanted body.meter.GasConsumed p
    (charged.1, { result, GasWanted := body.gasWanted, GasUsed := body.meter.GasConsumed })

/-- A decoded transaction delivered in a block: the `StdTx`, the length of its bytes, the ante
handler's steps after the memo check, and what its messages do. -/
structure TxRun where
  tx : Auth.StdTx
  txBytesLen : ℕ
  rest : List AnteStep
  msgs : MsgsRun

/-- The ante handler's outcome for a delivered transaction. -/
def TxRun.ante (cfg : AnteConfig) (height : ℕ) (t : TxRun) : AnteOutcome :=
  anteHandlerGas height t.tx (authAnteSteps cfg t.txBytesLen t.tx t.rest)

/-- `runTx`'s body for a delivered transaction, with the deliver context's meter `ctxMeter`. -/
def TxRun.body (cfg : AnteConfig) (height : ℕ) (ctxMeter : GasMeter) (t : TxRun) : TxBody :=
  runTxBody ctxMeter (validateBasicTxMsgs t.tx.msgs) (t.ante cfg height) t.msgs

/-- `DeliverTx` of a decoded transaction at a block height, with the auth ante handler and
the deliver context's meter `ctxMeter`: the block meter after it, and the result. -/
def DeliverTx (cfg : AnteConfig) (height : ℕ) (ctxMeter block : GasMeter) (t : TxRun) :
    GasMeter × GasResult :=
  runTxGas block ctxMeter (validateBasicTxMsgs t.tx.msgs) (t.ante cfg height) t.msgs

/-- `getMaximumBlockGas`, from the consensus parameters' `Block.MaxGas` (`none` when there are
no block parameters). -/
def getMaximumBlockGas (MaxGas : Option Int64) : Except Panic Gas :=
  match MaxGas with
  | none => pure 0
  | some maxGas =>
    if maxGas < -1 then throw ⟨"invalid maximum block gas: " ++ toString maxGas⟩
    else if maxGas = -1 then pure 0
    else pure maxGas.toUInt64

/-- The block gas meter that `BeginBlock` sets. -/
def blockGasMeter (MaxGas : Option Int64) : Except Panic GasMeter := do
  let maxGas ← getMaximumBlockGas MaxGas
  if maxGas > 0 then pure (NewGasMeter maxGas) else pure NewInfiniteGasMeter

/-- The transactions of a block delivered in turn: the block meter after them, and their
results. -/
def runBlock (cfg : AnteConfig) (height : ℕ) (ctxMeter : GasMeter) :
    GasMeter → List TxRun → GasMeter × List GasResult
  | block, [] => (block, [])
  | block, t :: ts =>
    let delivered := DeliverTx cfg height ctxMeter block t
    let rest := runBlock cfg height ctxMeter delivered.1 ts
    (rest.1, delivered.2 :: rest.2)

/-- What `runTx` charges the block meter for each transaction of `runBlock`: what the
transaction's meter reports through `GasConsumedToLimit`, and nothing when the block is out
of gas. -/
def blockCharges (cfg : AnteConfig) (height : ℕ) (ctxMeter : GasMeter) :
    GasMeter → List TxRun → List ℕ
  | _, [] => []
  | block, t :: ts =>
    (if block.IsOutOfGas then 0 else (t.body cfg height ctxMeter).meter.GasConsumedToLimit.toNat) ::
      blockCharges cfg height ctxMeter (DeliverTx cfg height ctxMeter block t).1 ts

/-! ### The transaction's meter -/

theorem ValidateBasic_gas_le {tx : Auth.StdTx} (h : tx.ValidateBasic = none) :
    tx.fee.gas ≤ Auth.maxGasWanted := by
  unfold Auth.StdTx.ValidateBasic at h
  split_ifs at h with hgas
  exact Nat.le_of_not_lt hgas

/-- Past the genesis block, the meter the auth ante handler returns is bounded, or it aborted
before consuming any gas: at the signature count or at `ValidateBasic`, the only steps before
the first gas is consumed.  `ValidateBasic` bounds the fee's gas, the meter's limit. -/
theorem TxRun.ante_meter (cfg : AnteConfig) {height : ℕ} (hheight : 0 < height) (t : TxRun)
    {m : GasMeter} {res : GasResult} {abort : Bool}
    (h : t.ante cfg height = .returned m res abort) :
    m.Bounded ∨ (abort = true ∧ m.GasConsumed = 0) := by
  have hmeter : SetGasMeter false height (UInt64.ofNat t.tx.fee.gas) =
      basic (UInt64.ofNat t.tx.fee.gas) 0 := by
    simp [SetGasMeter, Nat.pos_iff_ne_zero.mp hheight, NewGasMeter]
  simp only [TxRun.ante, anteHandlerGas, authAnteSteps, hmeter] at h
  rcases hvb : t.tx.ValidateBasic with _ | e
  · -- the fee's gas is at most `maxGasWanted`, and so is the limit of every later meter
    have hbounded : (basic (UInt64.ofNat t.tx.fee.gas) 0).Bounded := by
      rw [bounded_basic, UInt64.toNat_ofNat']
      exact (Nat.mod_le _ _).trans (ValidateBasic_gas_le hvb)
    exact .inl (runAnteSteps_Bounded _ hbounded h)
  · right
    rcases hsig : Auth.ValidateSigCount cfg.crypto cfg.params t.tx with _ | e' <;>
      simp only [hsig, hvb, Option.map_none, Option.map_some, runAnteSteps,
        AnteOutcome.returned.injEq] at h <;>
      exact ⟨h.2.2.symm, by rw [← h.1]; rfl⟩

/-- The gas `runTx` charges the block meter for a transaction is at most `maxGasWanted`, when
the deliver context's meter reports no more. -/
theorem TxRun.charge_le (cfg : AnteConfig) {height : ℕ} (hheight : 0 < height)
    {ctxMeter : GasMeter} (hctx : ctxMeter.GasConsumedToLimit.toNat ≤ Auth.maxGasWanted)
    (t : TxRun) :
    (t.body cfg height ctxMeter).meter.GasConsumedToLimit.toNat ≤ Auth.maxGasWanted := by
  unfold TxRun.body
  rcases validateBasicTxMsgs t.tx.msgs with _ | err
  · rcases hante : t.ante cfg height with ⟨m, res, abort⟩ | p
    · rcases t.ante_meter cfg hheight hante with hm | ⟨rfl, hzero⟩
      · cases abort with
        | true => exact hm.GasConsumedToLimit_le
        | false =>
          -- the messages consume on the ante handler's bounded meter
          have hall := hm.consumeAll t.msgs.consumed
          rcases hc : m.consumeAll t.msgs.consumed with ⟨m', _ | p⟩
          all_goals simp only [hc] at hall
          all_goals simp only [runTxBody, hc, Bool.false_eq_true, if_false]
          all_goals exact hall.GasConsumedToLimit_le
      · have := GasConsumedToLimit_le_GasConsumed m
        rw [hzero] at this
        simp only [runTxBody, if_true]
        simp only [UInt64.toNat_zero] at this
        omega
    · exact hctx
  · exact hctx

/-! ### `runTx` -/

section RunTxGas

variable (block ctxMeter : GasMeter) (validateBasic : Option Error) (ante : AnteOutcome)
  (msgs : MsgsRun)

theorem runTxGas_of_IsOutOfGas (h : block.IsOutOfGas = true) :
    runTxGas block ctxMeter validateBasic ante msgs =
      (block, { result := (Error.ErrOutOfGas "no block gas left to run tx").Result }) := by
  simp [runTxGas, h]

/-- With gas left in the block, `runTx` charges the block meter whatever the body did, and
reports the body's `gasWanted` and its meter's gas. -/
theorem runTxGas_of_not_IsOutOfGas (h : block.IsOutOfGas = false) :
    (runTxGas block ctxMeter validateBasic ante msgs).1 =
        (block.ConsumeGas (runTxBody ctxMeter validateBasic ante msgs).meter.GasConsumedToLimit
          "block gas meter").1 ∧
      (runTxGas block ctxMeter validateBasic ante msgs).2.GasWanted =
        (runTxBody ctxMeter validateBasic ante msgs).gasWanted ∧
      (runTxGas block ctxMeter validateBasic ante msgs).2.GasUsed =
        (runTxBody ctxMeter validateBasic ante msgs).meter.GasConsumed := by
  simp only [runTxGas, h, Bool.false_eq_true, if_false, and_self]

/-- Once the messages pass `validateBasicTxMsgs`, `gasWanted` is the ante handler's. -/
theorem runTxBody_gasWanted : (runTxBody ctxMeter none ante msgs).gasWanted = ante.GasWanted := by
  rcases ante with ⟨m, res, abort⟩ | p
  · cases abort with
    | true => rfl
    | false =>
      simp only [runTxBody, Bool.false_eq_true, if_false]
      rcases m.consumeAll msgs.consumed with ⟨m', _ | p⟩ <;> rfl
  · rfl

end RunTxGas

/-! ### The block meter over a run of `DeliverTx` -/

section Block

variable (cfg : AnteConfig) (height : ℕ) (ctxMeter : GasMeter)

theorem runBlock_cons_fst (block : GasMeter) (t : TxRun) (ts : List TxRun) :
    (runBlock cfg height ctxMeter block (t :: ts)).1 =
      (runBlock cfg height ctxMeter (DeliverTx cfg height ctxMeter block t).1 ts).1 := rfl

theorem runBlock_append_fst (block : GasMeter) (ts us : List TxRun) :
    (runBlock cfg height ctxMeter block (ts ++ us)).1 =
      (runBlock cfg height ctxMeter (runBlock cfg height ctxMeter block ts).1 us).1 := by
  induction ts generalizing block with
  | nil => rfl
  | cons t ts ih => simp only [List.cons_append, runBlock_cons_fst, ih]

/-- A transaction delivered when the block is out of gas changes nothing, and its result does
not depend on it: neither its ante handler nor its messages run. -/
theorem DeliverTx_of_IsOutOfGas {block : GasMeter} (h : block.IsOutOfGas = true) (t : TxRun) :
    DeliverTx cfg height ctxMeter block t =
      (block, { result := (Error.ErrOutOfGas "no block gas left to run tx").Result }) :=
  runTxGas_of_IsOutOfGas _ _ _ _ _ h

/-- The `GasWanted` of a delivered transaction whose ante handler ran: the fee's gas exactly
when the ante handler's checks pass. -/
theorem DeliverTx_GasWanted {block : GasMeter} (h : block.IsOutOfGas = false) (t : TxRun)
    (hv : validateBasicTxMsgs t.tx.msgs = none) :
    (DeliverTx cfg height ctxMeter block t).2.GasWanted =
      if passesChecks (SetGasMeter false height (UInt64.ofNat t.tx.fee.gas))
          (authAnteSteps cfg t.txBytesLen t.tx t.rest)
      then UInt64.ofNat t.tx.fee.gas else 0 := by
  rw [DeliverTx, (runTxGas_of_not_IsOutOfGas _ _ _ _ _ h).2.1, hv, runTxBody_gasWanted,
    TxRun.ante, anteHandlerGas, runAnteSteps_GasWanted]

variable {cfg height ctxMeter} (hheight : 0 < height)
  (hctx : ctxMeter.GasConsumedToLimit.toNat ≤ Auth.maxGasWanted) {B : Gas}
  (hB : B.toNat ≤ Auth.maxGasWanted)
include hheight hctx hB

/-- One `DeliverTx` on a block meter with limit `B`: the meter keeps its limit and adds the
transaction's charge.  Nothing overflows: the gas consumed before is below `B`, and the
charge at most `maxGasWanted`. -/
theorem DeliverTx_basic (c : Gas) (t : TxRun) :
    ∃ c', (DeliverTx cfg height ctxMeter (basic B c) t).1 = basic B c' ∧
      c'.toNat = c.toNat + (if (basic B c).IsOutOfGas then 0 else
        (t.body cfg height ctxMeter).meter.GasConsumedToLimit.toNat) := by
  cases hout : (basic B c).IsOutOfGas with
  | true => exact ⟨c, by rw [DeliverTx_of_IsOutOfGas cfg height ctxMeter hout], by simp⟩
  | false =>
    have hcB : c.toNat < B.toNat := by
      simpa [IsOutOfGas, UInt64.le_iff_toNat_le] using hout
    have hcharge := t.charge_le cfg hheight hctx
    have hsum : c.toNat + (t.body cfg height ctxMeter).meter.GasConsumedToLimit.toNat < 2 ^ 64 := by
      unfold Auth.maxGasWanted at hB hcharge
      omega
    refine ⟨c + (t.body cfg height ctxMeter).meter.GasConsumedToLimit, ?_, ?_⟩
    · have hsum' := hsum
      simp only [TxRun.body] at hsum'
      rw [DeliverTx, (runTxGas_of_not_IsOutOfGas _ _ _ _ _ hout).1, ConsumeGas_basic,
        addUint64Overflow_eq, if_pos hsum']
      rfl
    · rw [toNat_add_of_lt hsum]
      simp

/-- The run lemma: over any transactions, the block meter keeps its limit and its gas is
what it had plus the sum of the charges. -/
theorem runBlock_basic (c : Gas) (ts : List TxRun) :
    ∃ c', (runBlock cfg height ctxMeter (basic B c) ts).1 = basic B c' ∧
      c'.toNat = c.toNat + (blockCharges cfg height ctxMeter (basic B c) ts).sum := by
  induction ts generalizing c with
  | nil => exact ⟨c, rfl, by simp [blockCharges]⟩
  | cons t ts ih =>
    obtain ⟨c₁, h₁, hc₁⟩ := DeliverTx_basic hheight hctx hB c t
    obtain ⟨c₂, h₂, hc₂⟩ := ih c₁
    refine ⟨c₂, by rw [runBlock_cons_fst, h₁, h₂], ?_⟩
    rw [blockCharges, h₁, List.sum_cons, hc₂, hc₁]
    omega

/-- The block meter never goes down: delivering one more transaction adds its charge. -/
theorem runBlock_append_GasConsumed_le (c : Gas) (ts : List TxRun) (t : TxRun) :
    (runBlock cfg height ctxMeter (basic B c) ts).1.GasConsumed ≤
      (runBlock cfg height ctxMeter (basic B c) (ts ++ [t])).1.GasConsumed := by
  obtain ⟨c₁, h₁, -⟩ := runBlock_basic hheight hctx hB c ts
  obtain ⟨c₂, h₂, hc₂⟩ := DeliverTx_basic hheight hctx hB c₁ t
  rw [runBlock_append_fst, h₁, runBlock_cons_fst, h₂]
  show c₁ ≤ c₂
  rw [UInt64.le_iff_toNat_le, hc₂]
  omega

end Block

/-! ### A block -/

/-- A positive `MaxGas`, an `int64`, is at most `maxGasWanted` as a `uint64`. -/
theorem toUInt64_toNat_of_pos {m : Int64} (h : 0 < m) :
    0 < m.toUInt64.toNat ∧ m.toUInt64.toNat ≤ Auth.maxGasWanted := by
  have hpos : 0 < m.toInt := Int64.lt_iff_toInt_lt.mp h
  have hlt := m.toInt_lt
  have e1 : m.toUInt64.toNat = m.toBitVec.toNat := rfl
  have e2 : m.toInt = m.toBitVec.toInt := rfl
  rw [BitVec.toInt_eq_toNat_cond] at e2
  unfold Auth.maxGasWanted
  split_ifs at e2 <;> omega

/-- With a positive `MaxGas`, `BeginBlock` gives the block a `basicGasMeter` with it as its
limit. -/
theorem blockGasMeter_of_pos {MaxGas : Int64} (h : 0 < MaxGas) :
    blockGasMeter (some MaxGas) = .ok (NewGasMeter MaxGas.toUInt64) := by
  have hpos : 0 < MaxGas.toInt := Int64.lt_iff_toInt_lt.mp h
  have hneg : (-1 : Int64).toInt = -1 := by decide
  have hnot : ¬ MaxGas < -1 := fun h' => by
    have := Int64.lt_iff_toInt_lt.mp h'
    omega
  have hne : MaxGas ≠ -1 := by
    rintro rfl
    omega
  have hB : 0 < MaxGas.toUInt64 := UInt64.lt_iff_toNat_lt.mpr (toUInt64_toNat_of_pos h).1
  simp [blockGasMeter, getMaximumBlockGas, hnot, hne, hB]

theorem DeliverTx_block_gas_accounting (cfg : AnteConfig) (height : ℕ) (hheight : 0 < height)
    (MaxGas : Int64) (hMaxGas : 0 < MaxGas) (ctxMeter : GasMeter)
    (hctx : ctxMeter.GasConsumedToLimit.toNat ≤ Auth.maxGasWanted) :
    blockGasMeter (some MaxGas) = .ok (NewGasMeter MaxGas.toUInt64) ∧
    let run := fun ts => (runBlock cfg height ctxMeter (NewGasMeter MaxGas.toUInt64) ts).1
    (∀ ts t, (run ts).GasConsumed ≤ (run (ts ++ [t])).GasConsumed) ∧
    (∀ ts, (run ts).GasConsumed.toNat =
      (blockCharges cfg height ctxMeter (NewGasMeter MaxGas.toUInt64) ts).sum) ∧
    (∀ ts t, MaxGas.toUInt64 ≤ (run ts).GasConsumed →
      DeliverTx cfg height ctxMeter (run ts) t =
        (run ts, { result := (Error.ErrOutOfGas "no block gas left to run tx").Result })) ∧
    (∀ ts t, (run ts).GasConsumed < MaxGas.toUInt64 →
      (DeliverTx cfg height ctxMeter (run ts) t).2.GasUsed =
          (t.body cfg height ctxMeter).meter.GasConsumed ∧
        (validateBasicTxMsgs t.tx.msgs = none →
          (DeliverTx cfg height ctxMeter (run ts) t).2.GasWanted =
            if passesChecks (SetGasMeter false height (UInt64.ofNat t.tx.fee.gas))
                (authAnteSteps cfg t.txBytesLen t.tx t.rest)
            then UInt64.ofNat t.tx.fee.gas else 0)) := by
  obtain ⟨-, hB⟩ := toUInt64_toNat_of_pos hMaxGas
  refine ⟨blockGasMeter_of_pos hMaxGas, ?_⟩
  intro run
  -- every block meter of the run is the `basicGasMeter` with limit `MaxGas`
  have hrun : ∀ ts, ∃ c, run ts = basic MaxGas.toUInt64 c ∧
      c.toNat = (blockCharges cfg height ctxMeter (NewGasMeter MaxGas.toUInt64) ts).sum := by
    intro ts
    obtain ⟨c, h, hc⟩ := runBlock_basic hheight hctx hB 0 ts
    exact ⟨c, h, by simpa [NewGasMeter] using hc⟩
  refine ⟨fun ts t => runBlock_append_GasConsumed_le hheight hctx hB 0 ts t, ?_, ?_, ?_⟩
  · intro ts
    obtain ⟨c, h, hc⟩ := hrun ts
    rw [h]
    exact hc
  · intro ts t hout
    obtain ⟨c, h, -⟩ := hrun ts
    rw [h] at hout ⊢
    exact DeliverTx_of_IsOutOfGas cfg height ctxMeter (by simpa [IsOutOfGas, GasConsumed] using hout) t
  · intro ts t hgas
    obtain ⟨c, h, -⟩ := hrun ts
    rw [h] at hgas ⊢
    have hout : (basic MaxGas.toUInt64 c).IsOutOfGas = false := by
      simpa [IsOutOfGas, GasConsumed] using hgas
    exact ⟨(runTxGas_of_not_IsOutOfGas (basic _ c) ctxMeter _ (t.ante cfg height) t.msgs hout).2.2,
      DeliverTx_GasWanted cfg height ctxMeter hout t⟩

theorem DeliverTx_block_gas_accounting_one_block :
    let cfg : AnteConfig := ⟨⟨fun _ => 1, fun _ _ => none, fun _ _ _ => true,
      fun _ _ _ _ _ _ _ => [], ⟨[], []⟩⟩, Auth.DefaultParams, 10⟩
    0 < 1 ∧ (0 : Int64) < 10000000 ∧
      NewInfiniteGasMeter.GasConsumedToLimit.toNat ≤ Auth.maxGasWanted ∧
    (blockGasMeter (some 10000000) = .ok (NewGasMeter (10000000 : Int64).toUInt64) ∧
    let run := fun ts =>
      (runBlock cfg 1 NewInfiniteGasMeter (NewGasMeter (10000000 : Int64).toUInt64) ts).1
    (∀ ts t, (run ts).GasConsumed ≤ (run (ts ++ [t])).GasConsumed) ∧
    (∀ ts, (run ts).GasConsumed.toNat =
      (blockCharges cfg 1 NewInfiniteGasMeter (NewGasMeter (10000000 : Int64).toUInt64) ts).sum) ∧
    (∀ ts t, (10000000 : Int64).toUInt64 ≤ (run ts).GasConsumed →
      DeliverTx cfg 1 NewInfiniteGasMeter (run ts) t =
        (run ts, { result := (Error.ErrOutOfGas "no block gas left to run tx").Result })) ∧
    (∀ ts t, (run ts).GasConsumed < (10000000 : Int64).toUInt64 →
      (DeliverTx cfg 1 NewInfiniteGasMeter (run ts) t).2.GasUsed =
          (t.body cfg 1 NewInfiniteGasMeter).meter.GasConsumed ∧
        (validateBasicTxMsgs t.tx.msgs = none →
          (DeliverTx cfg 1 NewInfiniteGasMeter (run ts) t).2.GasWanted =
            if passesChecks (SetGasMeter false 1 (UInt64.ofNat t.tx.fee.gas))
                (authAnteSteps cfg t.txBytesLen t.tx t.rest)
            then UInt64.ofNat t.tx.fee.gas else 0))) := by
  intro cfg
  exact ⟨by decide, by decide, by decide,
    DeliverTx_block_gas_accounting cfg 1 (by decide) 10000000 (by decide) NewInfiniteGasMeter
      (by decide)⟩

/-- The ante handler runs, and `runTx` reports a `GasWanted` of zero, not the fee's gas:
eight signatures are past the limit of seven, and the signature count aborts with an
error's bare `Result()`. -/
theorem DeliverTx_GasWanted_zero_past_sig_limit :
    let cfg : AnteConfig := ⟨⟨fun _ => 1, fun _ _ => none, fun _ _ _ => true,
      fun _ _ _ _ _ _ _ => [], ⟨[], []⟩⟩, Auth.DefaultParams, 10⟩
    let t : TxRun := ⟨⟨[.MsgRevokeFeeAllowance [1] [2]], ⟨[], 200000⟩,
      List.replicate 8 ⟨none, []⟩, "", []⟩, 100, [], ⟨[], .ok {}⟩⟩
    validateBasicTxMsgs t.tx.msgs = none ∧ (NewGasMeter 10000000).IsOutOfGas = false ∧
      UInt64.ofNat t.tx.fee.gas = 200000 ∧
      (DeliverTx cfg 1 NewInfiniteGasMeter (NewGasMeter 10000000) t).2.GasWanted = 0 := by
  intro cfg t
  have hsig : (Auth.ValidateSigCount cfg.crypto cfg.params t.tx).isSome = true := by decide
  obtain ⟨e, he⟩ := Option.isSome_iff_exists.mp hsig
  refine ⟨rfl, rfl, rfl, ?_⟩
  rw [DeliverTx_GasWanted cfg 1 _ rfl t rfl]
  simp [authAnteSteps, passesChecks, he]

end CosmosSdk.BaseApp
