import CosmosSdk.Auth.Vesting

/-!
# The bank keeper

`x/bank/keeper.go`: coins move between the accounts of the account keeper.  `setCoins`
creates an account, with the next account number, for an address that has none;
`subtractCoins` checks the amount against the spendable coins (of a vesting account, those
not locked); `delegateCoins` and `undelegateCoins` move coins in and out of the staking
module through the vesting bookkeeping of `Auth/Vesting`.

Each function returns an `sdk.Error` as `Abort.err` and a panic as `Abort.panic`.
-/

namespace CosmosSdk.Bank

open Auth

variable (s : Auth.State) (hdr : Header)

/-- `getCoins`: no coins for an address without an account. -/
def getCoins (addr : AccAddress) : Coins :=
  match s.GetAccount addr with
  | none => []
  | some acc => acc.GetCoins

/-- `setCoins`: an account is created for a new address. -/
def setCoins (addr : AccAddress) (amt : Coins) : Except Abort Auth.State := do
  if !amt.IsValid then throw (.err (.ErrInvalidCoins (Coins.toString amt)))
  let (acc, s) := match s.GetAccount addr with
    | none => s.NewAccountWithAddress addr
    | some acc => (acc, s)
  pure (s.SetAccount (acc.SetCoins amt))

/-- `subtractCoins`: the amount must be spendable. -/
def subtractCoins (addr : AccAddress) (amt : Coins) : Except Abort (Coins × Auth.State) := do
  if !amt.IsValid then throw (.err (.ErrInvalidCoins (Coins.toString amt)))
  let (oldCoins, spendableCoins) ← match s.GetAccount addr with
    | none => pure ([], [])
    | some acc => do
      let spendable ← Abort.lift (acc.SpendableCoins hdr.time)
      pure (acc.GetCoins, spendable)
  let (_, hasNeg) := Coins.SafeSub spendableCoins amt
  if hasNeg then
    throw (.err (.ErrInsufficientCoins ("insufficient account funds; " ++
      Coins.toString spendableCoins ++ " < " ++ Coins.toString amt)))
  -- cannot panic: the spendable coins were checked
  let newCoins ← Abort.lift (Coins.Sub oldCoins amt)
  let s ← setCoins s addr newCoins
  pure (newCoins, s)

/-- `addCoins`. -/
def addCoins (addr : AccAddress) (amt : Coins) : Except Abort (Coins × Auth.State) := do
  if !amt.IsValid then throw (.err (.ErrInvalidCoins (Coins.toString amt)))
  let oldCoins := getCoins s addr
  let newCoins := oldCoins.Add amt
  if newCoins.IsAnyNegative then
    throw (.err (.ErrInsufficientCoins ("insufficient account funds; " ++
      Coins.toString oldCoins ++ " < " ++ Coins.toString amt)))
  let s ← setCoins s addr newCoins
  pure (newCoins, s)

/-- `sendCoins`: subtract from the sender, add to the recipient. -/
def sendCoins (fromAddr toAddr : AccAddress) (amt : Coins) : Except Abort Auth.State := do
  if !amt.IsValid then throw (.err (.ErrInvalidCoins (Coins.toString amt)))
  let (_, s) ← subtractCoins s hdr fromAddr amt
  let (_, s) ← addCoins s toAddr amt
  pure s

/-- `trackDelegation`: a vesting account tracks the delegation, any other account loses the
coins. -/
def trackDelegation (acc : Account) (blockTime : Time) (amt : Coins) : Except Panic Account :=
  match acc with
  | .continuousVesting b bva _ | .delayedVesting b bva => do
    let vestingCoins ← (acc.GetVestingCoins blockTime).getD (pure [])
    let (bva, coins) ← bva.trackDelegation b.coins vestingCoins amt
    pure ((acc.withVesting bva).SetCoins coins)
  | .base b | .group b => do
    let coins ← b.coins.Sub amt
    pure (acc.SetCoins coins)

/-- `trackUndelegation`. -/
def trackUndelegation (acc : Account) (amt : Coins) : Except Panic Account :=
  match acc with
  | .continuousVesting b bva _ | .delayedVesting b bva => do
    let (bva, coins) ← bva.TrackUndelegation b.coins amt
    pure ((acc.withVesting bva).SetCoins coins)
  | .base b | .group b => pure (acc.SetCoins (b.coins.Add amt))

/-- `delegateCoins`: the account must exist and hold the amount. -/
def delegateCoins (addr : AccAddress) (amt : Coins) : Except Abort Auth.State := do
  if !amt.IsValid then throw (.err (.ErrInvalidCoins (Coins.toString amt)))
  let some acc := s.GetAccount addr
    | throw (.err (.ErrUnknownAddress ("account " ++ hexString addr ++ " does not exist")))
  let oldCoins := acc.GetCoins
  let (_, hasNeg) := oldCoins.SafeSub amt
  if hasNeg then
    throw (.err (.ErrInsufficientCoins ("insufficient account funds; " ++
      Coins.toString oldCoins ++ " < " ++ Coins.toString amt)))
  let acc ← Abort.lift (trackDelegation acc hdr.time amt)
  pure (s.SetAccount acc)

/-- `undelegateCoins`: the account must exist. -/
def undelegateCoins (addr : AccAddress) (amt : Coins) : Except Abort Auth.State := do
  if !amt.IsValid then throw (.err (.ErrInvalidCoins (Coins.toString amt)))
  let some acc := s.GetAccount addr
    | throw (.err (.ErrUnknownAddress ("account " ++ hexString addr ++ " does not exist")))
  let acc ← Abort.lift (trackUndelegation acc amt)
  pure (s.SetAccount acc)

/-- `handleMsgSend`, with the `SendEnabled` parameter. -/
def handleMsgSend (sendEnabled : Bool) (fromAddress toAddress : AccAddress) (amount : Coins) :
    Except Panic (Result × Auth.State) :=
  if !sendEnabled then
    pure ({ code := .module 101, log := "send transactions are currently disabled" }, s)
  else match sendCoins s hdr fromAddress toAddress amount with
    | .ok s' => pure ({}, s')
    | .error (.err e) => pure (e.Result, s)
    | .error (.panic p) => throw p

end CosmosSdk.Bank
