import CosmosSdk.App.Router
import CosmosSdk.Auth.Ante
import CosmosSdk.BaseApp.RunTx

/-!
# The app's transactions

`runTx` of the app: the auth ante handler over the account store, the collected fees and
the delegation keeper's fee allowances, then the router.
-/

namespace CosmosSdk.App

variable (cfg : Config) (crypto : Auth.Crypto) (params : Auth.Params) (chainID : String)
  (hdr : Header)

/-- The keepers of the ante handler: the fee delegation handler is the delegation keeper. -/
def anteKeepers : Auth.AnteKeepers State where
  accounts s := s.accounts
  setAccounts s accounts := { s with accounts }
  collectedFees s := s.collectedFees
  setCollectedFees s collectedFees := { s with collectedFees }
  AllowDelegatedFees s grantee granter fee :=
    let (allowed, delegation) := s.delegation.AllowDelegatedFees hdr grantee granter fee
    (allowed, { s with delegation })

/-- The ante handler of the app. -/
def anteHandler (s : State) (tx : Auth.StdTx) (simulate : Bool) :
    Except Panic (Result × Bool × State) :=
  (anteKeepers hdr).NewAnteHandler crypto params chainID hdr tx s simulate

/-- `runTx` of the app, with `fuel` nested dispatches. -/
def runTx (fuel : ℕ) (mode : BaseApp.RunTxMode) (s : State) (tx : Auth.StdTx) : Result × State :=
  BaseApp.runTx Auth.StdTx.msgs (anteHandler crypto params chainID hdr) (route cfg hdr fuel) mode s tx

/-- `[1]` holds 10stake and signs a send of 5stake to `[2]` whose fee is to be paid by
`[3]`, which allowed it nothing: the ante handler aborts with the zero result, so the
transaction returns code OK while nothing of it is applied. -/
theorem refusedFeeDelegation_returns_OK (fuel : ℕ) :
    let s : State := { State.empty with
      accounts := ⟨SortedMap.empty.insert [1] (.base { address := [1], coins := [⟨"stake", 10⟩] }), 1⟩ }
    let tx : Auth.StdTx :=
      { msgs := [.MsgSend [1] [2] [⟨"stake", 5⟩]], fee := ⟨[], 0⟩, signatures := [⟨none, []⟩],
        memo := "", feeAccount := [3] }
    runTx cfg crypto Auth.DefaultParams chainID hdr fuel .Deliver s tx = ({}, s) := by
  rfl

/-- A transaction whose one message is a delegated execution, by `[1]`, of a send of no coins
from `[1]` to `[2]`: its messages pass `validateBasicTxMsgs`, the send's own `ValidateBasic`
refuses it, and the router hands it to the bank handler, which succeeds and creates accounts
for `[1]` and `[2]`. -/
theorem nestedMsg_skips_ValidateBasic (fuel : ℕ) :
    let send : Msg := .MsgSend [1] [2] []
    let msgs := [Msg.MsgExecDelegatedAction [1] [send]]
    BaseApp.validateBasicTxMsgs msgs = none ∧
      send.ValidateBasic = some (.ErrInsufficientCoins "send amount must be positive") ∧
      ((BaseApp.runMsgs .Deliver (route { cfg with sendEnabled := true } hdr (fuel + 2)) State.empty
          [] msgs).map fun r =>
        (r.1.code, (r.2.accounts.GetAccount [2]).map Auth.Account.GetAccountNumber)) =
        .ok (.OK, some 1) :=
  ⟨rfl, rfl, rfl⟩

/-- `[1]`, whose account has the key `pk`, signs a transaction whose fee of 5stake is paid by
`[3]` under a fee allowance of 10stake.  When the signature verifies, the ante handler
accepts: the 5stake are added to the collected fees while `[3]` keeps its 10stake. -/
theorem delegatedFee_not_deducted (chainID : String) (pk : PubKey) (sig : Bytes)
    (hgas : crypto.sigGasConsumer sig pk = none)
    (hverify : crypto.VerifyBytes pk (crypto.StdSignBytes chainID 0 0 ⟨[⟨"stake", 5⟩], 0⟩
      [.MsgSend [1] [2] []] "" [3]) sig = true) :
    let s : State := { State.empty with
      accounts := ⟨(SortedMap.empty.insert [1] (.base { address := [1], pubKey := some pk })).insert
        [3] (.base { address := [3], coins := [⟨"stake", 10⟩], accountNumber := 1 }), 2⟩
      delegation := ⟨SortedMap.empty, SortedMap.empty.insert (Delegation.FeeAllowanceKey [1] [3])
        (.BasicFeeAllowance [⟨"stake", 10⟩])⟩ }
    let tx : Auth.StdTx :=
      { msgs := [.MsgSend [1] [2] []], fee := ⟨[⟨"stake", 5⟩], 0⟩, signatures := [⟨none, sig⟩],
        memo := "", feeAccount := [3] }
    (anteHandler crypto Auth.DefaultParams chainID ⟨1, 0⟩ s tx false).map (fun r =>
      (r.2.1, Bank.getCoins r.2.2.accounts [3], r.2.2.collectedFees)) =
      .ok (false, [⟨"stake", 10⟩], [⟨"stake", 5⟩]) := by
  intro s tx
  -- the checks pass, the allowance takes the fee, and the signer's account is read
  have hsigs : Auth.ValidateSigCount crypto Auth.DefaultParams tx = none := rfl
  have hbasic : tx.ValidateBasic = none := rfl
  have hmemo : Auth.ValidateMemo Auth.DefaultParams tx = none := rfl
  have hsigners : tx.GetSigners = [[1]] := rfl
  have hsig : Auth.processSig crypto (.base { address := [1], pubKey := some pk }) ⟨none, sig⟩
      (crypto.StdSignBytes chainID 0 0 tx.fee tx.msgs "" [3]) false =
        .ok (.base { address := [1], pubKey := some pk, sequence := 1 }) := by
    simp [Auth.processSig, Auth.ProcessPubKey, hgas, hverify, tx, Auth.Account.GetPubKey,
      Auth.Account.baseAccount, Auth.Account.SetPubKey, Auth.Account.withBase,
      Auth.Account.SetSequence, Auth.Account.GetSequence]
  -- the fee payer's charged account is dropped; only the collected fees and the signer change
  have hcharge : (anteKeepers ⟨1, 0⟩).anteCharge crypto chainID ⟨1, 0⟩ tx false [3]
      ((anteKeepers ⟨1, 0⟩).AllowDelegatedFees s [1] [3] tx.fee.amount).2 =
        (Auth.processSig crypto (.base { address := [1], pubKey := some pk }) ⟨none, sig⟩
          (crypto.StdSignBytes chainID 0 0 tx.fee tx.msgs "" [3]) false).map fun acc =>
        { ((anteKeepers ⟨1, 0⟩).AllowDelegatedFees s [1] [3] tx.fee.amount).2 with
          collectedFees := [⟨"stake", 5⟩]
          accounts := s.accounts.SetAccount acc } := rfl
  have hallow : ((anteKeepers ⟨1, 0⟩).AllowDelegatedFees s [1] [3] tx.fee.amount).1 = true := rfl
  have hfeeAccount : tx.feeAccount = [3] := rfl
  simp only [anteHandler, Auth.AnteKeepers.NewAnteHandler, hsigs, hbasic, hmemo, hsigners,
    hfeeAccount, List.isEmpty_cons, Bool.false_eq_true, if_false, List.headD_cons, hallow,
    Bool.not_true, hcharge, hsig]
  rfl

/-- Under a scheme that accepts the signature, the fee delegation of
`delegatedFee_not_deducted` is accepted. -/
theorem delegatedFee_not_deducted_accepted :
    let crypto : Auth.Crypto := ⟨fun _ => 1, fun _ _ => none, fun _ _ _ => true,
      fun _ _ _ _ _ _ _ => [], ⟨[], []⟩⟩
    let s : State := { State.empty with
      accounts := ⟨(SortedMap.empty.insert [1] (.base { address := [1], pubKey := some ⟨[9], [1]⟩ })).insert
        [3] (.base { address := [3], coins := [⟨"stake", 10⟩], accountNumber := 1 }), 2⟩
      delegation := ⟨SortedMap.empty, SortedMap.empty.insert (Delegation.FeeAllowanceKey [1] [3])
        (.BasicFeeAllowance [⟨"stake", 10⟩])⟩ }
    let tx : Auth.StdTx :=
      { msgs := [.MsgSend [1] [2] []], fee := ⟨[⟨"stake", 5⟩], 0⟩, signatures := [⟨none, [7]⟩],
        memo := "", feeAccount := [3] }
    (anteHandler crypto Auth.DefaultParams "" ⟨1, 0⟩ s tx false).map (fun r =>
      (r.2.1, Bank.getCoins r.2.2.accounts [3], r.2.2.collectedFees)) =
      .ok (false, [⟨"stake", 10⟩], [⟨"stake", 5⟩]) :=
  delegatedFee_not_deducted ⟨fun _ => 1, fun _ _ => none, fun _ _ _ => true, fun _ _ _ _ _ _ _ => [],
    ⟨[], []⟩⟩ "" ⟨[9], [1]⟩ [7] rfl rfl

end CosmosSdk.App
