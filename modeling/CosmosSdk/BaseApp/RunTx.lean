import CosmosSdk.App.Msg
import CosmosSdk.Lib.Outcome

/-!
# Running a transaction

`baseapp.go`: a transaction's messages are validated (`validateBasicTxMsgs`), the ante
handler runs on a cache-wrapped store, and the messages run one after another on a second
cache-wrapped store (`runMsgs`).  A cache is written back only when its part succeeded: the
ante handler's when it does not abort, the messages' when every message returned an OK
result.  A panic is recovered by `runTx`, which returns `ErrInternal` and drops the cache of
the part that panicked.

The model runs a transaction on a state `σ` with the ante handler and the router as
arguments, so that `runTx` is the same for every app.  A cache-wrapped store is the state
the part started from: writing the cache back is taking the part's final state, dropping it
is keeping the state from before.  Gas, the block gas meter and the logs and tags of the
result are not modelled: a panic out of gas is a panic like any other.
-/

namespace CosmosSdk.BaseApp

/-- `runTxMode`. -/
inductive RunTxMode
  | Check
  | Simulate
  | Deliver
  deriving DecidableEq, Repr

/-- `validateBasicTxMsgs`: at least one message, and the first error of their
`ValidateBasic`. -/
def validateBasicTxMsgs (msgs : List Msg) : Option Error :=
  if msgs.isEmpty then some (.ErrUnknownRequest "Tx.GetMsgs() must return at least one message in list")
  else msgs.findSome? Msg.ValidateBasic

variable {σ τ : Type}

/-- `runMsgs`: each message to its handler, on one store, until a result is not OK; the
result has the code of the failed message, or OK, and the data of all of them. -/
def runMsgs (mode : RunTxMode) (route : σ → Msg → Except Panic (Result × σ)) :
    σ → Bytes → List Msg → Except Panic (Result × σ)
  | s, data, [] => pure ({ data }, s)
  | s, data, msg :: msgs => do
    -- CheckTx does not execute the messages: each result is the zero `sdk.Result`
    let (msgResult, s) ← if mode ≠ RunTxMode.Check then route s msg else pure ({}, s)
    let data := data ++ msgResult.data
    if !msgResult.IsOK then pure ({ code := msgResult.code, data }, s)
    else runMsgs mode route s data msgs

/-- `runTx(mode, txBytes, tx)`, with the ante handler `ante` (its result, whether it aborts,
and its store) and the router `route`. -/
def runTx (getMsgs : τ → List Msg) (ante : σ → τ → Bool → Except Panic (Result × Bool × σ))
    (route : σ → Msg → Except Panic (Result × σ)) (mode : RunTxMode) (s : σ) (tx : τ) :
    Result × σ :=
  let msgs := getMsgs tx
  let (result, s') := match validateBasicTxMsgs msgs with
    | some err => (err.Result, s)
    | none =>
      match ante s tx (mode = RunTxMode.Simulate) with
      -- recovered by the deferred `recover`: the ante handler's cache is dropped
      | .error p => ((Error.ErrInternal ("recovered: " ++ p.msg)).Result, s)
      | .ok (result, abort, anteState) =>
        if abort then (result, s)
        else if mode = RunTxMode.Check then (result, anteState)
        else match runMsgs mode route anteState [] msgs with
          | .error p => ((Error.ErrInternal ("recovered: " ++ p.msg)).Result, anteState)
          -- only update state if all messages pass
          | .ok (result, msgState) => if result.IsOK then (result, msgState) else (result, anteState)
  -- a simulation runs on a cache of the check state that is never written
  if mode = RunTxMode.Simulate then (result, s) else (result, s')

section Deliver

variable (getMsgs : τ → List Msg) (ante : σ → τ → Bool → Except Panic (Result × Bool × σ))
  (route : σ → Msg → Except Panic (Result × σ)) (s : σ) (tx : τ)

/-- The state after delivering a transaction: the state before, the ante handler's when it
did not abort, or the messages' final state when their result is OK. -/
theorem runTx_Deliver_state :
    (runTx getMsgs ante route .Deliver s tx).2 = s ∨
      (∃ result, ante s tx false = .ok (result, false, (runTx getMsgs ante route .Deliver s tx).2)) ∨
      (∃ result anteState, ante s tx false = .ok (result, false, anteState) ∧
        runMsgs .Deliver route anteState [] (getMsgs tx) =
          .ok (runTx getMsgs ante route .Deliver s tx) ∧
        (runTx getMsgs ante route .Deliver s tx).1.IsOK) := by
  simp only [runTx, reduceCtorEq, if_false, decide_false]
  rcases validateBasicTxMsgs (getMsgs tx) with _ | err
  · -- the messages passed `ValidateBasic`: the ante handler's outcome decides
    rcases hante : ante s tx false with p | ⟨result, abort, anteState⟩
    · simp
    · cases abort with
      | true => simp
      | false =>
        rcases hmsgs : runMsgs .Deliver route anteState [] (getMsgs tx) with p | ⟨res, msgState⟩
        · simp [hmsgs]
        · by_cases hok : res.IsOK <;> simp [hok, hmsgs]
  · simp

/-- An OK result of a delivered transaction comes from messages that all ran, or from an ante
handler that aborted with an OK result. -/
theorem runTx_Deliver_IsOK (h : (runTx getMsgs ante route .Deliver s tx).1.IsOK) :
    (∃ result anteState, ante s tx false = .ok (result, false, anteState) ∧
        runMsgs .Deliver route anteState [] (getMsgs tx) = .ok (runTx getMsgs ante route .Deliver s tx)) ∨
      ∃ anteState, ante s tx false = .ok ((runTx getMsgs ante route .Deliver s tx).1, true, anteState) := by
  simp only [runTx, reduceCtorEq, if_false, decide_false] at h ⊢
  rcases hv : validateBasicTxMsgs (getMsgs tx) with _ | err
  · rcases hante : ante s tx false with p | ⟨result, abort, anteState⟩
    · simp [hv, hante] at h
    · cases abort with
      | true => simp
      | false =>
        rcases hmsgs : runMsgs .Deliver route anteState [] (getMsgs tx) with p | ⟨res, msgState⟩
        · simp [hv, hante, hmsgs] at h
        · by_cases hok : res.IsOK
          · simp [hok, hmsgs]
          · simp [hv, hante, hmsgs, hok] at h
  · simp [hv] at h

end Deliver

end CosmosSdk.BaseApp
