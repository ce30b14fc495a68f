import CosmosSdk.Auth.Vesting
import CosmosSdk.App.Msg
import CosmosSdk.Lib.Outcome

/-!
# The ante handler

`x/auth/ante.go` and `x/auth/types/stdtx.go`: before its messages run, a `StdTx` is checked
(the number of signatures, `ValidateBasic`, the memo), its fee is taken from the fee payer
and added to the collected fees, and each signer's signature is verified over the sign
bytes of its account number and sequence, whose sequence is then advanced.

The fee payer is the first signer, or the `FeeAccount` of the transaction if the fee
delegation handler allows it.  The Go handler keeps the fee payer's account in a variable:
`DeductFees` and `SetSequence` change that variable, and it reaches the store only as the
first signer's account, which it is when there is no `FeeAccount` (`anteCharge`).

The cryptography is a parameter (`Crypto`): the public keys' `CountSubKeys`, the signature
gas consumer's verdict, `VerifyBytes`, the JSON sign bytes `StdSignBytes`, and the key that
stands for a missing one in a simulation.  Gas is not modelled, and neither is the
minimum-fee check of `CheckTx` (`EnsureSufficientMempoolFees`), which is local to a node's
mempool.
-/

namespace CosmosSdk.Auth

/-- `StdFee`. -/
structure StdFee where
  amount : Coins
  gas : ℕ

/-- `StdSignature`. -/
structure StdSignature where
  pubKey : Option PubKey
  signature : Bytes

/-- `StdTx`. -/
structure StdTx where
  msgs : List Msg
  fee : StdFee
  signatures : List StdSignature
  memo : String
  feeAccount : AccAddress

/-- The parameters of `x/auth` that the ante handler reads. -/
structure Params where
  maxMemoCharacters : ℕ
  txSigLimit : ℕ

/-- `DefaultParams`. -/
def DefaultParams : Params where
  maxMemoCharacters := 256
  txSigLimit := 7

/-- The signature scheme. -/
structure Crypto where
  CountSubKeys : PubKey → ℕ
  sigGasConsumer : Bytes → PubKey → Option Error
  VerifyBytes : PubKey → Bytes → Bytes → Bool
  StdSignBytes : String → ℕ → ℕ → StdFee → List Msg → String → AccAddress → Bytes
  simSecp256k1Pubkey : PubKey

/-- `maxGasWanted`: `2^63 - 1`. -/
def maxGasWanted : ℕ := 2 ^ 63 - 1

namespace StdTx

/-- `GetSigners`: the messages' signers in order, each once. -/
def GetSigners (tx : StdTx) : List AccAddress :=
  (tx.msgs.flatMap Msg.GetSigners).foldl
    (fun signers addr => if addr ∈ signers then signers else signers ++ [addr]) []

/-- `ValidateBasic`. -/
def ValidateBasic (tx : StdTx) : Option Error :=
  if tx.fee.gas > maxGasWanted then
    some (.ErrGasOverflow ("invalid gas supplied; " ++ toString tx.fee.gas ++ " > " ++
      toString maxGasWanted))
  else if tx.fee.amount.IsAnyNegative then
    some (.ErrInsufficientFee ("invalid fee " ++ Coins.toString tx.fee.amount ++ " amount provided"))
  else if tx.signatures.length = 0 then some (.ErrNoSignatures "no signers")
  else if tx.signatures.length ≠ tx.GetSigners.length then
    some (.ErrUnauthorized "wrong number of signers")
  else none

end StdTx

section

variable (crypto : Crypto) (params : Params)

/-- `ValidateSigCount`: the sub keys of the signatures counted until they exceed the limit.
A missing key is not a multisig key and counts one. -/
def ValidateSigCount (tx : StdTx) : Option Error := go 0 tx.signatures
where
  /-- The loop with the keys counted so far. -/
  go (sigCount : ℕ) : List StdSignature → Option Error
    | [] => none
    | sig :: sigs =>
      let sigCount := sigCount + (sig.pubKey.map crypto.CountSubKeys).getD 1
      if sigCount > params.txSigLimit then
        some (.ErrTooManySignatures ("signatures: " ++ toString sigCount ++ ", limit: " ++
          toString params.txSigLimit))
      else go sigCount sigs

/-- `ValidateMemo`: the memo's length in bytes. -/
def ValidateMemo (tx : StdTx) : Option Error :=
  if tx.memo.utf8ByteSize > params.maxMemoCharacters then
    some (.ErrMemoTooLarge ("maximum number of characters is " ++ toString params.maxMemoCharacters ++
      " but received " ++ toString tx.memo.utf8ByteSize ++ " characters"))
  else none

/-- `GetSignerAcc`. -/
def GetSignerAcc (s : State) (addr : AccAddress) : Except Abort Account :=
  match s.GetAccount addr with
  | some acc => pure acc
  | none => throw (.err (.ErrUnknownAddress ("account " ++ hexString addr ++ " does not exist")))

/-- `ProcessPubKey`: the account's key, or else the signature's, which must match the
account's address. -/
def ProcessPubKey (acc : Account) (sig : StdSignature) (simulate : Bool) : Except Abort PubKey :=
  match acc.GetPubKey with
  | some pubKey => pure pubKey
  | none =>
    if simulate then pure crypto.simSecp256k1Pubkey
    else match sig.pubKey with
      | none => throw (.err (.ErrInvalidPubKey "PubKey not found"))
      | some pubKey =>
        if pubKey.address ≠ acc.GetAddress then
          throw (.err (.ErrInvalidPubKey ("PubKey does not match Signer address " ++
            hexString acc.GetAddress)))
        else pure pubKey

/-- `processSig`: the key is set, the signature verified, and the sequence advanced. -/
def processSig (acc : Account) (sig : StdSignature) (signBytes : Bytes) (simulate : Bool) :
    Except Abort Account := do
  let pubKey ← ProcessPubKey crypto acc sig simulate
  let acc ← match acc.SetPubKey pubKey with
    | .ok acc => pure acc
    | .error _ => throw (.err (.ErrInternal "setting PubKey on signer's account"))
  if let some err := crypto.sigGasConsumer sig.signature pubKey then throw (.err err)
  if !simulate && !crypto.VerifyBytes pubKey signBytes sig.signature then
    throw (.err (.ErrUnauthorized
      "signature verification failed; verify correct account sequence and chain-id"))
  pure (acc.SetSequence (acc.GetSequence + 1))

/-- `DeductFees`: the fee must be valid and within the account's coins and its spendable
coins. -/
def DeductFees (blockTime : Time) (acc : Account) (fee : StdFee) : Except Abort Account := do
  let coins := acc.GetCoins
  let feeAmount := fee.amount
  if !feeAmount.IsValid then
    throw (.err (.ErrInsufficientFee ("invalid fee amount: " ++ Coins.toString feeAmount)))
  let (newCoins, ok) := Coins.SafeSub coins feeAmount
  if ok then
    throw (.err (.ErrInsufficientFunds ("insufficient funds to pay for fees; " ++
      Coins.toString coins ++ " < " ++ Coins.toString feeAmount)))
  let spendableCoins ← Abort.lift (acc.SpendableCoins blockTime)
  if (Coins.SafeSub spendableCoins feeAmount).2 then
    throw (.err (.ErrInsufficientFunds ("insufficient funds to pay for fees; " ++
      Coins.toString spendableCoins ++ " < " ++ Coins.toString feeAmount)))
  pure (acc.SetCoins newCoins)

end

/-- The keepers the ante handler uses inside an app with state `σ`: the account keeper's
store, the fee collection keeper's collected fees, and the fee delegation handler. -/
structure AnteKeepers (σ : Type) where
  accounts : σ → State
  setAccounts : σ → State → σ
  collectedFees : σ → Coins
  setCollectedFees : σ → Coins → σ
  AllowDelegatedFees : σ → AccAddress → AccAddress → Coins → Bool × σ

namespace AnteKeepers

variable {σ : Type} (k : AnteKeepers σ) (crypto : Crypto) (params : Params) (chainID : String)
  (hdr : Header) (tx : StdTx)

/-- `AddCollectedFees`. -/
def AddCollectedFees (s : σ) (coins : Coins) : σ :=
  k.setCollectedFees s ((k.collectedFees s).Add coins)

/-- The signature loop: the account of each signer, from the store or, for the first, the
cached fee payer, has its signature processed over its sign bytes and is stored. -/
def signAll (simulate : Bool) : Option Account → σ → List (StdSignature × AccAddress) →
    Except Abort σ
  | _, s, [] => pure s
  | cached, s, (sig, addr) :: rest => do
    let acc ← match cached with
      | some acc => pure acc
      | none => GetSignerAcc (k.accounts s) addr
    -- at genesis the account number is 0
    let accNum := if hdr.height = 0 then 0 else acc.GetAccountNumber
    let signBytes := crypto.StdSignBytes chainID accNum acc.GetSequence tx.fee tx.msgs tx.memo
      tx.feeAccount
    let acc ← processSig crypto acc sig signBytes simulate
    signAll simulate none (k.setAccounts s ((k.accounts s).SetAccount acc)) rest

/-- The part of the ante handler after the checks: the fee payer is charged, the fee
collected, and the signatures processed.  The charged fee payer is the cached first
signer when there is no `FeeAccount`; a `FeeAccount`'s charged account is not stored. -/
def anteCharge (simulate : Bool) (feeAddr : AccAddress) (s : σ) : Except Abort σ := do
  let feeAccount ← GetSignerAcc (k.accounts s) feeAddr
  let (feeAccount, s) ← if !tx.fee.amount.IsZero then do
      let feeAccount ← DeductFees hdr.time feeAccount tx.fee
      pure (feeAccount, k.AddCollectedFees s tx.fee.amount)
    else pure (feeAccount, s)
  -- `feeAccount.SetSequence` of a `FeeAccount` changes only this variable, never stored
  let cached := if tx.feeAccount.isEmpty then some feeAccount else none
  k.signAll crypto chainID hdr tx simulate cached s (tx.signatures.zip tx.GetSigners)

/-- `NewAnteHandler(ak, fck, feeDelegationHandler, sigGasConsumer)`: the result, whether
the transaction aborts, and the store.  When it aborts `runTx` drops its store, so the model
returns the store it was given. -/
def NewAnteHandler (s : σ) (simulate : Bool) : Except Panic (Result × Bool × σ) :=
  if let some err := ValidateSigCount crypto params tx then pure (err.Result, true, s)
  else if let some err := tx.ValidateBasic then pure (err.Result, true, s)
  else if let some err := ValidateMemo params tx then pure (err.Result, true, s)
  else
    let signerAddrs := tx.GetSigners
    let (allowed, s₁) :=
      if tx.feeAccount.isEmpty then (true, s)
      else k.AllowDelegatedFees s (signerAddrs.headD []) tx.feeAccount tx.fee.amount
    -- a refused delegation returns `res`, still the zero `sdk.Result`
    if !allowed then pure ({}, true, s)
    else
      let feeAddr := if tx.feeAccount.isEmpty then signerAddrs.headD [] else tx.feeAccount
      match k.anteCharge crypto chainID hdr tx simulate feeAddr s₁ with
      | .ok s₂ => pure ({}, false, s₂)
      | .error (.err e) => pure (e.Result, true, s)
      | .error (.panic p) => throw p

end AnteKeepers

end CosmosSdk.Auth
