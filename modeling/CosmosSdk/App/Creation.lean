import CosmosSdk.App.Tx

/-!
# Creating groups and contracts at a taken address

`CreateGroup` and `CreateContract` take the next address from a counter (`G` and the varint
of the group counter; `C` and the varint of the contract counter, padded to twenty bytes) and
fail when an account is already stored there (`Group.Keeper.CreateGroup_of_taken`,
`Contract.Keeper.CreateContract_of_taken`).  Nothing reserves that address: a bank send to
it creates the account.  The counter is advanced in the message's cache, which `runTx` drops
with the failed message, so the next attempt takes the same address and fails again.

The ante handler writes accounts, the collected fees and the fee allowances, and never
deletes an account (`AnteKeepers.Keeps`): a delivered transaction of creations at taken
addresses keeps the group and contract stores and every account (`runTx_keepsCreation`),
and so does every run of them (`creations_keep_blocked`).
-/

namespace CosmosSdk

namespace Auth.AnteKeepers

variable {σ : Type} (k : AnteKeepers σ) (crypto : Crypto) (params : Params) (chainID : String)
  (hdr : Header) (tx : StdTx)

/-- A relation between the states before and after each write of the ante handler: it is
reflexive and transitive, and an account stored, fees collected and a fee delegation keep
it. -/
structure Keeps (R : σ → σ → Prop) : Prop where
  refl : ∀ s, R s s
  trans : ∀ {s₁ s₂ s₃}, R s₁ s₂ → R s₂ s₃ → R s₁ s₃
  setAccount : ∀ s acc, R s (k.setAccounts s ((k.accounts s).SetAccount acc))
  setCollectedFees : ∀ s coins, R s (k.setCollectedFees s coins)
  allowDelegatedFees : ∀ s grantee granter fee, R s (k.AllowDelegatedFees s grantee granter fee).2

variable {k} {R : σ → σ → Prop}

/-- The signature loop stores accounts only. -/
theorem Keeps.signAll (hR : k.Keeps R) (simulate : Bool) :
    ∀ (cached : Option Account) (s s' : σ) (l : List (StdSignature × AccAddress)),
      k.signAll crypto chainID hdr tx simulate cached s l = .ok s' → R s s'
  | _, s, s', [], h => by
    simp only [AnteKeepers.signAll, Except.pure_eq_ok, Except.ok_inj] at h
    exact h ▸ hR.refl s
  | cached, s, s', (sig, addr) :: rest, h => by
    -- the signer's account, from the cache or the store, is processed and stored
    obtain ⟨acc', h⟩ : ∃ acc', k.signAll crypto chainID hdr tx simulate none
        (k.setAccounts s ((k.accounts s).SetAccount acc')) rest = .ok s' := by
      simp only [AnteKeepers.signAll] at h
      cases cached with
      | some acc =>
        simp only [pure_bind] at h
        obtain ⟨acc', -, h⟩ := Except.bind_eq_ok.1 h
        exact ⟨acc', h⟩
      | none =>
        obtain ⟨acc, -, h⟩ := Except.bind_eq_ok.1 h
        obtain ⟨acc', -, h⟩ := Except.bind_eq_ok.1 h
        exact ⟨acc', h⟩
    exact hR.trans (hR.setAccount s acc') (hR.signAll simulate none _ s' rest h)

/-- Charging the fee collects it and stores the signers' accounts. -/
theorem Keeps.anteCharge (hR : k.Keeps R) {simulate : Bool} {feeAddr : AccAddress} {s s' : σ}
    (h : k.anteCharge crypto chainID hdr tx simulate feeAddr s = .ok s') : R s s' := by
  unfold AnteKeepers.anteCharge at h
  obtain ⟨feeAccount, -, h⟩ := Except.bind_eq_ok.1 h
  dsimp only at h
  split at h
  · -- the fee is deducted and collected
    obtain ⟨feeAccount', -, h⟩ := Except.bind_eq_ok.1 h
    simp only [pure_bind] at h
    exact hR.trans (hR.setCollectedFees s _) (hR.signAll crypto chainID hdr tx simulate _ _ s' _ h)
  · simp only [pure_bind] at h
    exact hR.signAll crypto chainID hdr tx simulate _ s s' _ h

/-- The ante handler's state is related to the state it started from. -/
theorem Keeps.NewAnteHandler (hR : k.Keeps R) {simulate : Bool} {s s' : σ} {res : Result}
    {abort : Bool} (h : k.NewAnteHandler crypto params chainID hdr tx s simulate = .ok (res, abort, s')) :
    R s s' := by
  unfold AnteKeepers.NewAnteHandler at h
  -- the checks that abort return the state they were given
  split at h
  · simp only [Except.pure_eq_ok, Except.ok_inj, Prod.mk.injEq] at h
    exact h.2.2 ▸ hR.refl s
  split at h
  · simp only [Except.pure_eq_ok, Except.ok_inj, Prod.mk.injEq] at h
    exact h.2.2 ▸ hR.refl s
  split at h
  · simp only [Except.pure_eq_ok, Except.ok_inj, Prod.mk.injEq] at h
    exact h.2.2 ▸ hR.refl s
  -- the fee delegation, then the charge
  dsimp only at h
  rcases hp : (if tx.feeAccount.isEmpty = true then (true, s)
    else k.AllowDelegatedFees s (tx.GetSigners.headD []) tx.feeAccount tx.fee.amount) with
    ⟨allowed, s₁⟩
  have hs₁ : R s s₁ := by
    split_ifs at hp
    · exact (Prod.mk.inj hp).2 ▸ hR.refl s
    · have hs₁ : (k.AllowDelegatedFees s (tx.GetSigners.headD []) tx.feeAccount
          tx.fee.amount).2 = s₁ := congrArg Prod.snd hp
      exact hs₁ ▸ hR.allowDelegatedFees s _ _ _
  rw [hp] at h
  dsimp only at h
  split at h
  · -- a refused delegation aborts
    simp only [Except.pure_eq_ok, Except.ok_inj, Prod.mk.injEq] at h
    exact h.2.2 ▸ hR.refl s
  split at h
  · rename_i s₂ hcharge
    simp only [Except.pure_eq_ok, Except.ok_inj, Prod.mk.injEq] at h
    exact h.2.2 ▸ hR.trans hs₁ (hR.anteCharge crypto chainID hdr tx hcharge)
  · simp only [Except.pure_eq_ok, Except.ok_inj, Prod.mk.injEq] at h
    exact h.2.2 ▸ hR.refl s
  · simp at h

end Auth.AnteKeepers

namespace Group.Keeper

variable {σ : Type} (k : Keeper σ)

/-- At a taken address `CreateGroup` fails, whatever the group. -/
theorem CreateGroup_of_taken (ctx : σ) (info : Group)
    (htaken : (k.accounts ctx).GetAccount (addrFromUint64 (k.store ctx).newGroupID) ≠ none) :
    (k.CreateGroup ctx info).1 = .error (.ErrUnknownRequest ("account with address " ++
      hexString (addrFromUint64 (k.store ctx).newGroupID) ++ " already exists")) := by
  simp [CreateGroup, getNewGroupId, setGroupInfo, htaken]

end Group.Keeper

namespace Contract.Keeper

variable {σ : Type} (k : Keeper σ) (hdr : Header)

/-- At a taken address `CreateContract` fails, whatever the code and the coins. -/
theorem CreateContract_of_taken (ctx : σ) (creator : AccAddress) (codeId : ℕ) (initData : Bytes)
    (coins : Coins)
    (htaken : (k.accounts ctx).GetAccount (addrFromUint64 (k.store ctx).nextContractId) ≠ none) :
    ∃ ctx', k.CreateContract hdr ctx creator codeId initData coins =
      .ok (none, (Error.ErrUnknownRequest ("account with address " ++
        hexString (addrFromUint64 (k.store ctx).nextContractId) ++ " already exists")).Result, ctx') := by
  simp [CreateContract, getNewContractId, htaken]

end Contract.Keeper

namespace BaseApp

variable {σ : Type} {route : σ → Msg → Except Panic (Result × σ)}

/-- Messages that returned an OK result began with a message whose result was OK. -/
theorem runMsgs_cons_IsOK {s : σ} {data : Bytes} {msg : Msg} {msgs : List Msg} {r : Result × σ}
    (h : runMsgs .Deliver route s data (msg :: msgs) = .ok r) (hok : r.1.IsOK) :
    ∃ res s₁, route s msg = .ok (res, s₁) ∧ res.IsOK := by
  simp only [runMsgs, ne_eq, reduceCtorEq, not_false_eq_true, if_true] at h
  obtain ⟨⟨res, s₁⟩, hroute, h⟩ := Except.bind_eq_ok.1 h
  refine ⟨res, s₁, hroute, ?_⟩
  -- a message that is not OK ends the loop with its code
  by_contra hres
  rw [Bool.not_eq_true] at hres
  simp only [hres, Bool.not_false, ↓reduceIte, Except.pure_eq_ok, Except.ok_inj] at h
  rw [← h, Result.IsOK_iff] at hok
  simp only [Result.IsOK, beq_eq_false_iff_ne] at hres
  exact hres hok

end BaseApp

namespace App

variable (cfg : Config) (crypto : Auth.Crypto) (params : Auth.Params) (chainID : String)
  (hdr : Header)

/-- What the ante handler keeps, and a transaction of failed creations too: the group and
contract stores, and every stored account. -/
def KeepsCreation (s s' : State) : Prop :=
  s'.group = s.group ∧ s'.contract = s.contract ∧
    ∀ addr, s.accounts.GetAccount addr ≠ none → s'.accounts.GetAccount addr ≠ none

/-- The ante handler of the app keeps `KeepsCreation` at each of its writes. -/
theorem anteKeepers_keeps : (anteKeepers hdr).Keeps KeepsCreation where
  refl _ := ⟨rfl, rfl, fun _ h => h⟩
  trans h₁ h₂ := ⟨h₂.1.trans h₁.1, h₂.2.1.trans h₁.2.1, fun addr h => h₂.2.2 addr (h₁.2.2 addr h)⟩
  setAccount s acc := by
    refine ⟨rfl, rfl, fun addr h => ?_⟩
    show (s.accounts.SetAccount acc).GetAccount addr ≠ none
    rw [Auth.State.GetAccount_SetAccount]
    split_ifs
    · exact Option.some_ne_none acc
    · exact h
  setCollectedFees _ _ := ⟨rfl, rfl, fun _ h => h⟩
  allowDelegatedFees _ _ _ _ := ⟨rfl, rfl, fun _ h => h⟩

/-- The messages that create a group or a contract. -/
inductive Creation
  | group (data : Group) (signer : AccAddress)
  | contract (sender : AccAddress) (code : ℕ) (initMsg : Bytes) (initFunds : Coins)

/-- The message of a creation. -/
def Creation.toMsg : Creation → Msg
  | .group data signer => .MsgCreateGroup data signer
  | .contract sender code initMsg initFunds => .MsgCreateContract sender code initMsg initFunds

/-- An account sits at the next group address and at the next contract address. -/
def Blocked (s : State) : Prop :=
  s.accounts.GetAccount (Group.addrFromUint64 s.group.newGroupID) ≠ none ∧
    s.accounts.GetAccount (Contract.addrFromUint64 s.contract.nextContractId) ≠ none

theorem KeepsCreation.blocked {s s' : State} (h : KeepsCreation s s') (hb : Blocked s) :
    Blocked s' := by
  obtain ⟨hgroup, hcontract, haccounts⟩ := h
  rw [Blocked, hgroup, hcontract]
  exact ⟨haccounts _ hb.1, haccounts _ hb.2⟩

/-- A creation at a taken address returns a result that is not OK. -/
theorem route_creation_not_OK (fuel : ℕ) {s s' : State} (hb : Blocked s) (c : Creation)
    {res : Result} (h : route cfg hdr fuel s c.toMsg = .ok (res, s')) : res.IsOK = false := by
  cases fuel with
  | zero => simp at h
  | succ fuel =>
    rw [route_succ] at h
    cases c with
    | group data signer =>
      have hcreate := (groupKeeper cfg (route cfg hdr fuel)).CreateGroup_of_taken s data hb.1
      simp only [Creation.toMsg, handler] at h
      rw [show (groupKeeper cfg (route cfg hdr fuel)).CreateGroup s data = (_, _) from
        Prod.ext hcreate rfl] at h
      simp only [Except.pure_eq_ok, Except.ok_inj, Prod.mk.injEq] at h
      rw [← h.1]
      rfl
    | contract sender code initMsg initFunds =>
      obtain ⟨ctx', hcreate⟩ := (contractKeeper cfg (route cfg hdr fuel)).CreateContract_of_taken hdr
        s sender code initMsg initFunds hb.2
      simp only [Creation.toMsg, handler, hcreate, Except.ok_bind, Except.pure_eq_ok,
        Except.ok_inj, Prod.mk.injEq] at h
      rw [← h.1]
      exact Error.Result_IsOK _

/-- The step lemma: a delivered transaction of creations at taken addresses keeps the group
and contract stores and every account. -/
theorem runTx_keepsCreation (fuel : ℕ) {s : State} (hb : Blocked s) (tx : Auth.StdTx)
    (cs : List Creation) :
    KeepsCreation s (runTx cfg crypto params chainID hdr fuel .Deliver s
      { tx with msgs := cs.map Creation.toMsg }).2 := by
  rcases BaseApp.runTx_Deliver_state Auth.StdTx.msgs (anteHandler crypto params chainID hdr)
      (route cfg hdr fuel) s { tx with msgs := cs.map Creation.toMsg } with
    hsame | ⟨result, hante⟩ | ⟨result, anteState, hante, hmsgs, hok⟩
  · -- nothing applied
    rw [runTx, hsame]
    exact (anteKeepers_keeps hdr).refl s
  · -- the ante handler's state
    exact (anteKeepers_keeps hdr).NewAnteHandler crypto params chainID hdr _ hante
  · -- the messages all returned OK: only when there are none
    have hante' := (anteKeepers_keeps hdr).NewAnteHandler crypto params chainID hdr _ hante
    cases cs with
    | nil =>
      simp only [List.map_nil] at hmsgs ⊢
      simp only [BaseApp.runMsgs, Except.pure_eq_ok, Except.ok_inj] at hmsgs
      rw [runTx, ← hmsgs]
      exact hante'
    | cons c cs =>
      obtain ⟨res, s₁, hroute, hres⟩ := BaseApp.runMsgs_cons_IsOK hmsgs hok
      have hnot := route_creation_not_OK cfg hdr fuel (hante'.blocked hb) c hroute
      rw [hres] at hnot
      cases hnot

/-- Transactions of creations delivered one after another, each at its own header. -/
def deliverCreations (fuel : ℕ) (s : State) (txs : List (Header × Auth.StdTx × List Creation)) :
    State :=
  txs.foldl (fun s t => (runTx cfg crypto params chainID t.1 fuel .Deliver s
    { t.2.1 with msgs := t.2.2.map Creation.toMsg }).2) s

/-- The run lemma: from a state where both next addresses are taken, transactions of
creations keep the group and contract stores and the addresses taken. -/
theorem creations_keep_blocked (fuel : ℕ) :
    ∀ (txs : List (Header × Auth.StdTx × List Creation)) {s : State}, Blocked s →
      KeepsCreation s (deliverCreations cfg crypto params chainID fuel s txs)
  | [], s, _ => (anteKeepers_keeps ⟨0, 0⟩).refl s
  | t :: txs, s, hb => by
    have hstep := runTx_keepsCreation cfg crypto params chainID t.1 fuel hb t.2.1 t.2.2
    exact (anteKeepers_keeps ⟨0, 0⟩).trans hstep
      (creations_keep_blocked fuel txs (hstep.blocked hb))

/-- `[1]` holds 10stake and sends 1stake to each of the next group and contract addresses:
the sends succeed and create both accounts, and from then on no transaction of creations
creates a group or a contract, whatever its groups, codes and coins: each `CreateGroup`
fails on the existing account. -/
theorem send_blocks_creation (cfg : Config) (fuel : ℕ) :
    let cfg := { cfg with sendEnabled := true }
    let crypto : Auth.Crypto := ⟨fun _ => 1, fun _ _ => none, fun _ _ _ => true,
      fun _ _ _ _ _ _ _ => [], ⟨[], []⟩⟩
    let genesis : State := { State.empty with
      accounts := ⟨SortedMap.empty.insert [1]
        (.base { address := [1], pubKey := some ⟨[9], [1]⟩, coins := [⟨"stake", 10⟩] }), 1⟩ }
    let send : Auth.StdTx :=
      { msgs := [.MsgSend [1] (Group.addrFromUint64 0) [⟨"stake", 1⟩],
          .MsgSend [1] (Contract.addrFromUint64 0) [⟨"stake", 1⟩]],
        fee := ⟨[], 0⟩, signatures := [⟨none, [7]⟩], memo := "", feeAccount := [] }
    let sent := runTx cfg crypto Auth.DefaultParams "" ⟨1, 0⟩ (fuel + 1) .Deliver genesis send
    sent.1.IsOK = true ∧ Blocked sent.2 ∧
      ∀ txs : List (Header × Auth.StdTx × List Creation),
        let s := deliverCreations cfg crypto Auth.DefaultParams "" (fuel + 1) sent.2 txs
        s.group = sent.2.group ∧ s.contract = sent.2.contract ∧ Blocked s ∧
          ∀ route data, ((groupKeeper cfg route).CreateGroup s data).1 =
            .error (.ErrUnknownRequest ("account with address " ++
              hexString (Group.addrFromUint64 0) ++ " already exists")) := by
  intro cfg crypto genesis send sent
  -- one evaluation of the send: it is OK, and created accounts at the next addresses, which
  -- are the counters' first values
  have hsent : (sent.1.IsOK &&
      (sent.2.accounts.GetAccount (Group.addrFromUint64 sent.2.group.newGroupID)).isSome &&
      (sent.2.accounts.GetAccount (Contract.addrFromUint64 sent.2.contract.nextContractId)).isSome &&
      sent.2.group.newGroupID == 0) = true := by
    -- evaluated with the let-bound values unfolded first: through the local definitions the
    -- evaluation is many times slower
    dsimp only [sent, send, genesis, crypto, cfg]
    rfl
  simp only [Bool.and_eq_true, Option.isSome_iff_ne_none, beq_iff_eq] at hsent
  obtain ⟨⟨⟨hok, hgroupAcc⟩, hcontractAcc⟩, hgroup⟩ := hsent
  have hb : Blocked sent.2 := ⟨hgroupAcc, hcontractAcc⟩
  refine ⟨hok, hb, fun txs => ?_⟩
  obtain ⟨hgroup', hcontract, haccounts⟩ :=
    creations_keep_blocked cfg crypto Auth.DefaultParams "" (fuel + 1) txs hb
  have hb' := KeepsCreation.blocked ⟨hgroup', hcontract, haccounts⟩ hb
  refine ⟨hgroup', hcontract, hb', fun route data => ?_⟩
  rw [(groupKeeper cfg route).CreateGroup_of_taken _ data hb'.1]
  simp only [groupKeeper, hgroup', hgroup]

end App

end CosmosSdk
