import CosmosSdk.Delegation.Keeper
import CosmosSdk.Bank.Keeper
import Mathlib.Data.Prod.Lex

/-!
# The contract keeper

`x/contract/keeper.go`: wasm code is stored under a counter (`StoreCode`); a contract is an
account at the address `C` and a counter, padded to twenty bytes (`CreateContract`), funded
by its creator and initialised by its code; a message to a contract runs its code
(`SendContract`).  The messages the code returns are dispatched with the contract as sender.

The wasm runtime is a field of the keeper (`run`): given the code, the exported function,
the contract's state (the one key `s/<contract>` the runtime may read and write) and the
JSON message, it returns the new state and the messages.  A run that fails makes the
transaction fail, so the model writes the contract's state only when the run succeeds.
The JSON encoding of the message is a field too (`marshalJSON`): it fails on an `initMsg`
that is not valid JSON.
-/

namespace CosmosSdk.Contract

/-- `contractMsg`. -/
structure contractMsg where
  contractAddress : AccAddress
  sender : AccAddress
  msg : Bytes
  sentFunds : ℤ

/-- The contract store: the two counters, the code by id (`d/%x`), each contract's code id
(`n/%x`) and state (`s/%x`), and the index of the contracts of a code (`cc/%x/%x`). -/
structure State where
  nextCodeId : ℕ
  nextContractId : ℕ
  code : SortedMap ℕ Bytes
  contractCode : SortedMap AccAddress ℕ
  contractState : SortedMap AccAddress Bytes
  codeHasContract : SortedMap (ℕ ×ₗ AccAddress) Bytes

/-- `addrFromUint64`: twenty bytes, `C` and the varint of the counter, then zeros. -/
def addrFromUint64 (id : ℕ) : AccAddress :=
  let v := (putUvarint id).take 19
  67 :: v ++ List.replicate (19 - v.length) 0

/-- A contract's address has the twenty bytes of `sdk.AddrLen`. -/
theorem length_addrFromUint64 (id : ℕ) : (addrFromUint64 id).length = 20 := by
  have hv : ((putUvarint id).take 19).length ≤ 19 := by simp
  simp only [addrFromUint64, List.cons_append, List.length_cons, List.length_append,
    List.length_replicate]
  omega

/-- The contract keeper inside an app with state `σ`. -/
structure Keeper (σ : Type) where
  store : σ → State
  setStore : σ → State → σ
  accounts : σ → Auth.State
  setAccounts : σ → Auth.State → σ
  delegationKeeper : Delegation.Keeper σ
  run : Bytes → String → Bytes → Bytes → Except String (Bytes × List Msg)
  marshalJSON : contractMsg → Except String Bytes
  store_setStore : ∀ ctx st, store (setStore ctx st) = st
  store_setAccounts : ∀ ctx st, store (setAccounts ctx st) = store ctx
  accounts_setAccounts : ∀ ctx st, accounts (setAccounts ctx st) = st
  accounts_setStore : ∀ ctx st, accounts (setStore ctx st) = accounts ctx

namespace Keeper

variable {σ : Type} (k : Keeper σ) (hdr : Header)

attribute [simp] store_setStore store_setAccounts accounts_setAccounts accounts_setStore

/-- `StoreCode`. -/
def StoreCode (ctx : σ) (byteCode : Bytes) : ℕ × σ :=
  let st := k.store ctx
  let id := st.nextCodeId
  (id, k.setStore ctx { st with nextCodeId := id + 1, code := st.code.insert id byteCode })

/-- `getNewContractId`. -/
def getNewContractId (ctx : σ) : AccAddress × σ :=
  let st := k.store ctx
  (addrFromUint64 st.nextContractId, k.setStore ctx { st with nextContractId := st.nextContractId + 1 })

/-- `coins[0].Amount.Int64()`: panics on an empty list and out of the `int64` range. -/
def firstAmount (coins : Coins) : Except Panic ℤ :=
  match coins with
  | [] => throw ⟨"runtime error: index out of range"⟩
  | coin :: _ =>
    if coin.amount < -2 ^ 63 ∨ 2 ^ 63 ≤ coin.amount then throw ⟨"Int64() out of bound"⟩
    else pure coin.amount

/-- Run the contract's code on a message and dispatch the messages it returns. -/
def execute (ctx : σ) (contract sender : AccAddress) (codeBz : Bytes) (call : String)
    (msg : Bytes) (coins : Coins) : Except Panic (Result × σ) := do
  let amt ← firstAmount coins
  match k.marshalJSON ⟨contract, sender, msg, amt⟩ with
  | .error e => pure ((Error.ErrUnknownRequest e).Result, ctx)
  | .ok txtMsg =>
    let st := k.store ctx
    match k.run codeBz call ((st.contractState.get? contract).getD []) txtMsg with
    | .error e => pure ((Error.ErrUnknownRequest e).Result, ctx)
    | .ok (state, msgs) =>
      let ctx := k.setStore ctx { st with contractState := st.contractState.insert contract state }
      k.delegationKeeper.DispatchActions hdr contract ctx {} msgs

/-- `CreateContract`: the contract account is a `BaseAccount` with only its address, so
account number 0. -/
def CreateContract (ctx : σ) (creator : AccAddress) (codeId : ℕ) (initData : Bytes)
    (coins : Coins) : Except Panic (Option AccAddress × Result × σ) := do
  let (addr, ctx) := k.getNewContractId ctx
  if (k.accounts ctx).GetAccount addr ≠ none then
    return (none, (Error.ErrUnknownRequest
      ("account with address " ++ hexString addr ++ " already exists")).Result, ctx)
  let ctx := k.setAccounts ctx ((k.accounts ctx).SetAccount (.base { address := addr }))
  match Bank.sendCoins (k.accounts ctx) hdr creator addr coins with
  | .error (.panic p) => throw p
  | .error (.err e) => return (none, e.Result, ctx)
  | .ok accounts =>
    let ctx := k.setAccounts ctx accounts
    let st := k.store ctx
    let codeBz := (st.code.get? codeId).getD []
    if codeBz.length = 0 then
      return (none, (Error.ErrUnknownRequest "can't find contract code").Result, ctx)
    let ctx := k.setStore ctx { st with
      contractCode := st.contractCode.insert addr codeId,
      codeHasContract := st.codeHasContract.insert (toLex (codeId, addr)) [0] }
    let (out, ctx) ← k.execute hdr ctx addr creator codeBz "init_wrapper" initData coins
    pure (some addr, out, ctx)

/-- `SendContract`: the payment is sent, then the contract's code runs. -/
def SendContract (ctx : σ) (sender contract : AccAddress) (msg : Bytes) (coins : Coins) :
    Except Panic (Result × σ) := do
  match Bank.sendCoins (k.accounts ctx) hdr sender contract coins with
  | .error (.panic p) => throw p
  | .error (.err e) => pure (e.Result, ctx)
  | .ok accounts =>
    let ctx := k.setAccounts ctx accounts
    let st := k.store ctx
    -- `MustUnmarshalBinaryBare` of the missing code id panics
    let some codeId := st.contractCode.get? contract
      | throw ⟨"UnmarshalBinaryBare cannot decode empty bytes"⟩
    let codeBz := (st.code.get? codeId).getD []
    if codeBz.length = 0 then
      pure ((Error.ErrUnknownRequest "can't find contract code").Result, ctx)
    else k.execute hdr ctx contract sender codeBz "send_wrapper" msg coins

end Keeper

end CosmosSdk.Contract
