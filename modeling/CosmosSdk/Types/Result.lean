import CosmosSdk.Types.Basic

/-!
# Results and errors

`sdk.Result` as the modelled code reads it: the code, which decides whether the result is
OK, the log and the data (`types/result.go`); and `sdk.Error`, a code with a message, whose
`Result()` carries the message as its log (`types/errors.go`).  The codespace, the gas
figures and the tags are not modelled: no modelled decision reads them.
-/

namespace CosmosSdk

/-- `sdk.CodeType`, the codes of the root codespace. -/
inductive CodeType
  | OK | Internal | TxDecode | InvalidSequence | Unauthorized | InsufficientFunds
  | UnknownRequest | InvalidAddress | InvalidPubKey | UnknownAddress | InsufficientCoins
  | InvalidCoins | OutOfGas | MemoTooLarge | InsufficientFee | TooManySignatures
  | GasOverflow | NoSignatures
  /-- A code of a module's own codespace, such as bank's `CodeSendDisabled` (101). -/
  | module (n : ℕ)
  deriving DecidableEq, Repr

/-- `sdk.Result`. -/
structure Result where
  code : CodeType := .OK
  log : String := ""
  data : Bytes := []
  deriving DecidableEq, Repr

namespace Result

/-- `Result.IsOK`. -/
def IsOK (res : Result) : Bool := res.code == .OK

@[simp] theorem IsOK_iff (res : Result) : res.IsOK = true ↔ res.code = .OK := by
  simp [IsOK]

end Result

/-- `sdk.Error`: a code and a message.  The code of an error is never OK. -/
structure Error where
  code : CodeType
  msg : String
  code_ne_OK : code ≠ .OK
  deriving DecidableEq

namespace Error

/-- `Error.Result()`. -/
def Result (err : Error) : CosmosSdk.Result := { code := err.code, log := err.msg }

/-- `ErrInternal`. -/
def ErrInternal (msg : String) : Error := ⟨.Internal, msg, by decide⟩
/-- `ErrUnauthorized`. -/
def ErrUnauthorized (msg : String) : Error := ⟨.Unauthorized, msg, by decide⟩
/-- `ErrInsufficientFunds`. -/
def ErrInsufficientFunds (msg : String) : Error := ⟨.InsufficientFunds, msg, by decide⟩
/-- `ErrUnknownRequest`. -/
def ErrUnknownRequest (msg : String) : Error := ⟨.UnknownRequest, msg, by decide⟩
/-- `ErrInvalidAddress`. -/
def ErrInvalidAddress (msg : String) : Error := ⟨.InvalidAddress, msg, by decide⟩
/-- `ErrInvalidPubKey`. -/
def ErrInvalidPubKey (msg : String) : Error := ⟨.InvalidPubKey, msg, by decide⟩
/-- `ErrUnknownAddress`. -/
def ErrUnknownAddress (msg : String) : Error := ⟨.UnknownAddress, msg, by decide⟩
/-- `ErrInsufficientCoins`. -/
def ErrInsufficientCoins (msg : String) : Error := ⟨.InsufficientCoins, msg, by decide⟩
/-- `ErrInvalidCoins`. -/
def ErrInvalidCoins (msg : String) : Error := ⟨.InvalidCoins, msg, by decide⟩
/-- `ErrOutOfGas`. -/
def ErrOutOfGas (msg : String) : Error := ⟨.OutOfGas, msg, by decide⟩
/-- `ErrMemoTooLarge`. -/
def ErrMemoTooLarge (msg : String) : Error := ⟨.MemoTooLarge, msg, by decide⟩
/-- `ErrInsufficientFee`. -/
def ErrInsufficientFee (msg : String) : Error := ⟨.InsufficientFee, msg, by decide⟩
/-- `ErrTooManySignatures`. -/
def ErrTooManySignatures (msg : String) : Error := ⟨.TooManySignatures, msg, by decide⟩
/-- `ErrGasOverflow`. -/
def ErrGasOverflow (msg : String) : Error := ⟨.GasOverflow, msg, by decide⟩
/-- `ErrNoSignatures`. -/
def ErrNoSignatures (msg : String) : Error := ⟨.NoSignatures, msg, by decide⟩

/-- An error's result is never OK. -/
@[simp] theorem Result_IsOK (err : Error) : err.Result.IsOK = false := by
  simpa [Result, CosmosSdk.Result.IsOK] using err.code_ne_OK

end Error

end CosmosSdk

namespace CosmosSdk

/-- How a call of the modelled code can fail: a panic, which unwinds to the nearest
`recover`, or a returned `sdk.Error`. -/
inductive Abort
  | panic (p : Panic)
  | err (e : Error)
  deriving DecidableEq

/-- A call that can only panic, inside one that can also return an error. -/
def Abort.lift {α : Type} (x : Except Panic α) : Except Abort α :=
  x.mapError .panic

@[simp] theorem Abort.lift_ok {α : Type} (a : α) : Abort.lift (.ok a : Except Panic α) = .ok a := rfl

@[simp] theorem Abort.lift_eq_ok {α : Type} {x : Except Panic α} {a : α} :
    Abort.lift x = .ok a ↔ x = .ok a := by
  cases x <;> simp [Abort.lift, Except.mapError]

/-- `panic(err)`: a returned error becomes a panic with its message. -/
def Abort.toPanic : Abort → Panic
  | .panic p => p
  | .err e => ⟨e.msg⟩

end CosmosSdk
