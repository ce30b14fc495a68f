import CosmosSdk.Types.Coins
import CosmosSdk.Types.Result
import CosmosSdk.Lib.SortedMap
import Mathlib.Data.String.Basic

/-!
# Accounts and the account keeper

`x/auth`: an account is a `BaseAccount` (address, coins, public key, account number and
sequence), possibly wrapped by a vesting schedule (`types/account.go`), or the group account
of `x/group`, a base account that refuses a public key.  The account keeper stores the
accounts by address and hands out account numbers from a global counter
(`GetNextAccountNumber`, `keeper.go`).

The store holds the amino encoding of each account; decoding returns the account that was
encoded, so the model stores the accounts themselves.
-/

namespace CosmosSdk.Auth

/-- `BaseAccount`. -/
structure BaseAccount where
  address : AccAddress
  coins : Coins := []
  pubKey : Option PubKey := none
  accountNumber : ℕ := 0
  sequence : ℕ := 0
  deriving DecidableEq, Repr

/-- The fields `BaseVestingAccount` adds to the base account. -/
structure BaseVestingAccount where
  originalVesting : Coins
  delegatedFree : Coins
  delegatedVesting : Coins
  endTime : ℤ
  deriving DecidableEq, Repr

/-- The implementations of `auth.Account`. -/
inductive Account
  | base (acc : BaseAccount)
  | continuousVesting (acc : BaseAccount) (bva : BaseVestingAccount) (startTime : ℤ)
  | delayedVesting (acc : BaseAccount) (bva : BaseVestingAccount)
  /-- `group.GroupAccount`. -/
  | group (acc : BaseAccount)
  deriving DecidableEq, Repr

namespace Account

/-- The embedded `BaseAccount`. -/
def baseAccount : Account → BaseAccount
  | base acc | continuousVesting acc _ _ | delayedVesting acc _ | group acc => acc

/-- The account with its `BaseAccount` replaced, as the setters of the embedded struct do. -/
def withBase (b : BaseAccount) : Account → Account
  | base _ => base b
  | continuousVesting _ bva t => continuousVesting b bva t
  | delayedVesting _ bva => delayedVesting b bva
  | group _ => group b

@[simp] theorem baseAccount_withBase (acc : Account) (b : BaseAccount) :
    (acc.withBase b).baseAccount = b := by
  cases acc <;> rfl

/-- `GetAddress`. -/
def GetAddress (acc : Account) : AccAddress := acc.baseAccount.address
/-- `GetCoins`. -/
def GetCoins (acc : Account) : Coins := acc.baseAccount.coins
/-- `SetCoins`. -/
def SetCoins (acc : Account) (coins : Coins) : Account := acc.withBase { acc.baseAccount with coins }
/-- `GetPubKey`. -/
def GetPubKey (acc : Account) : Option PubKey := acc.baseAccount.pubKey
/-- `SetPubKey`: a group account refuses it. -/
def SetPubKey (acc : Account) (pubKey : PubKey) : Except String Account :=
  match acc with
  | group _ => throw "cannot set a PubKey on a Group account"
  | _ => pure (acc.withBase { acc.baseAccount with pubKey := some pubKey })
/-- `GetAccountNumber`. -/
def GetAccountNumber (acc : Account) : ℕ := acc.baseAccount.accountNumber
/-- `SetAccountNumber`. -/
def SetAccountNumber (acc : Account) (accNumber : ℕ) : Account :=
  acc.withBase { acc.baseAccount with accountNumber := accNumber }
/-- `GetSequence`. -/
def GetSequence (acc : Account) : ℕ := acc.baseAccount.sequence
/-- `SetSequence`. -/
def SetSequence (acc : Account) (seq : ℕ) : Account :=
  acc.withBase { acc.baseAccount with sequence := seq }

@[simp] theorem GetAddress_SetCoins (acc : Account) (coins : Coins) :
    (acc.SetCoins coins).GetAddress = acc.GetAddress := by
  simp [SetCoins, GetAddress]
@[simp] theorem GetCoins_SetCoins (acc : Account) (coins : Coins) :
    (acc.SetCoins coins).GetCoins = coins := by
  simp [SetCoins, GetCoins]
@[simp] theorem GetAccountNumber_SetCoins (acc : Account) (coins : Coins) :
    (acc.SetCoins coins).GetAccountNumber = acc.GetAccountNumber := by
  simp [SetCoins, GetAccountNumber]
@[simp] theorem GetAddress_SetSequence (acc : Account) (seq : ℕ) :
    (acc.SetSequence seq).GetAddress = acc.GetAddress := by
  simp [SetSequence, GetAddress]
@[simp] theorem GetCoins_SetSequence (acc : Account) (seq : ℕ) :
    (acc.SetSequence seq).GetCoins = acc.GetCoins := by
  simp [SetSequence, GetCoins]
@[simp] theorem GetAccountNumber_SetSequence (acc : Account) (seq : ℕ) :
    (acc.SetSequence seq).GetAccountNumber = acc.GetAccountNumber := by
  simp [SetSequence, GetAccountNumber]
@[simp] theorem GetSequence_SetSequence (acc : Account) (seq : ℕ) :
    (acc.SetSequence seq).GetSequence = seq := by
  simp [SetSequence, GetSequence]
@[simp] theorem GetAddress_SetAccountNumber (acc : Account) (n : ℕ) :
    (acc.SetAccountNumber n).GetAddress = acc.GetAddress := by
  simp [SetAccountNumber, GetAddress]
@[simp] theorem GetAccountNumber_SetAccountNumber (acc : Account) (n : ℕ) :
    (acc.SetAccountNumber n).GetAccountNumber = n := by
  simp [SetAccountNumber, GetAccountNumber]

theorem SetPubKey_eq_ok {acc acc' : Account} {pk : PubKey} (h : acc.SetPubKey pk = .ok acc') :
    acc'.GetAddress = acc.GetAddress ∧ acc'.GetCoins = acc.GetCoins ∧
      acc'.GetAccountNumber = acc.GetAccountNumber ∧ acc'.GetSequence = acc.GetSequence := by
  cases acc <;> simp_all [SetPubKey, GetAddress, GetCoins, GetAccountNumber, GetSequence] <;>
    (cases h; simp [withBase, baseAccount])

end Account

/-- The store of the account keeper: the accounts by address (`AddressStoreKey`) and the
global account number (`GlobalAccountNumberKey`; a missing entry reads as 0). -/
structure State where
  accounts : SortedMap AccAddress Account
  globalAccountNumber : ℕ

namespace State

variable (s : State)

/-- `GetAccount`. -/
def GetAccount (addr : AccAddress) : Option Account := s.accounts.get? addr

/-- `SetAccount`: stored under its own address. -/
def SetAccount (acc : Account) : State :=
  { s with accounts := s.accounts.insert acc.GetAddress acc }

/-- `GetNextAccountNumber`: the counter's value, the counter advanced. -/
def GetNextAccountNumber : ℕ × State :=
  (s.globalAccountNumber, { s with globalAccountNumber := s.globalAccountNumber + 1 })

/-- `NewAccountWithAddress`: a fresh `BaseAccount` (the keeper's `proto`) with the next
account number. -/
def NewAccountWithAddress (addr : AccAddress) : Account × State :=
  let (accNumber, s') := s.GetNextAccountNumber
  (.base { address := addr, accountNumber := accNumber }, s')

/-- `NewAccount`: the given account with the next account number. -/
def NewAccount (acc : Account) : Account × State :=
  let (accNumber, s') := s.GetNextAccountNumber
  (acc.SetAccountNumber accNumber, s')

@[simp] theorem GetAccount_SetAccount (acc : Account) (addr : AccAddress) :
    (s.SetAccount acc).GetAccount addr =
      if addr = acc.GetAddress then some acc else s.GetAccount addr := by
  simp [GetAccount, SetAccount]

@[simp] theorem globalAccountNumber_SetAccount (acc : Account) :
    (s.SetAccount acc).globalAccountNumber = s.globalAccountNumber := rfl

/-- The store keeps every account under its own address, as `SetAccount` files it. -/
def WF : Prop := ∀ addr acc, s.GetAccount addr = some acc → acc.GetAddress = addr

theorem WF.SetAccount {s : State} (h : s.WF) (acc : Account) : (s.SetAccount acc).WF := by
  intro addr acc' hget
  rw [GetAccount_SetAccount] at hget
  split_ifs at hget with haddr
  · cases hget
    exact haddr.symm
  · exact h addr acc' hget

end State

end CosmosSdk.Auth
