import CosmosSdk.Bank.Keeper
import CosmosSdk.Types.CoinSet
import CosmosSdk.Lib.Outcome

/-!
# What the bank keeper moves

The balance of a denomination in an account is the `amount` of its coins, and the accounts
together hold `totalAmount`.  The account store keeps every account under its own address
(`Auth.State.WF`).  On such a store:

* `setCoins` rewrites the coins of its address only, and the total changes by the new
  amount less the old (`setCoins_spec`); `subtractCoins` and `addCoins` take the amount off
  and put it on (`subtractCoins_spec`, `addCoins_spec`);
* `sendCoins` moves the amount from one account to the other and leaves every other account
  and the total as they were (`sendCoins_spec`);
* `inputOutputCoins`, after `ValidateInputsOutputs`, changes each account by its outputs
  less its inputs, and the total not at all (`inputOutputCoins_spec`).

`ValidateInputsOutputs` compares the totals with `Coins.IsEqual`, which panics on totals of
one length whose denominations differ (`ValidateInputsOutputs_panics_on_denoms`).

A store that keeps an account under another address than its own breaks this: `setCoins`
files the account under its own address, and `sendCoins` creates coins
(`sendCoins_misfiled_account`).
-/

namespace CosmosSdk.Bank

open Auth Coins

/-- `bank.Input`. -/
structure Input where
  address : AccAddress
  coins : Coins

/-- `bank.Output`. -/
structure Output where
  address : AccAddress
  coins : Coins

/-- The `ValidateBasic` of an input and of an output: an address, and valid positive coins. -/
def validateAddressCoins (address : AccAddress) (coins : Coins) : Option Error :=
  if address.length = 0 then some (.ErrInvalidAddress (hexString address))
  else if !coins.IsValid then some (.ErrInvalidCoins (Coins.toString coins))
  else if !coins.IsAllPositive then some (.ErrInvalidCoins (Coins.toString coins))
  else none

/-- `Input.ValidateBasic`. -/
def Input.ValidateBasic (input : Input) : Option Error :=
  validateAddressCoins input.address input.coins

/-- `Output.ValidateBasic`. -/
def Output.ValidateBasic (output : Output) : Option Error :=
  validateAddressCoins output.address output.coins

/-- `ErrInputOutputMismatch`, in bank's codespace. -/
def ErrInputOutputMismatch : Error := ⟨.module 102, "sum inputs != sum outputs", by decide⟩

/-- `ValidateInputsOutputs`: every input and output is valid, and the inputs add up to the
outputs. -/
def ValidateInputsOutputs (inputs : List Input) (outputs : List Output) : Except Abort Unit := do
  let totalIn ← inputs.foldlM (fun (totalIn : Coins) input =>
    match input.ValidateBasic with
    | some err => throw (.err err)
    | none => pure (totalIn.Add input.coins)) []
  let totalOut ← outputs.foldlM (fun (totalOut : Coins) output =>
    match output.ValidateBasic with
    | some err => throw (.err err)
    | none => pure (totalOut.Add output.coins)) []
  if !(← Abort.lift (totalIn.IsEqual totalOut)) then throw (.err ErrInputOutputMismatch)

section Keeper

variable (hdr : Header)

/-- `inputOutputCoins`: every input subtracted, then every output added; the tags are left
out. -/
def inputOutputCoins (s : Auth.State) (inputs : List Input) (outputs : List Output) :
    Except Abort Auth.State := do
  ValidateInputsOutputs inputs outputs
  let s ← inputs.foldlM (fun s input => do
    let (_, s) ← subtractCoins s hdr input.address input.coins
    pure s) s
  outputs.foldlM (fun s output => do
    let (_, s) ← addCoins s output.address output.coins
    pure s) s

end Keeper

/-- The amount of `denom` all the accounts hold. -/
def totalAmount (s : Auth.State) (denom : String) : ℤ :=
  s.accounts.sum fun _ acc => amount acc.GetCoins denom

/-! ### Writes of one account -/

section Writes

variable {s s' : Auth.State} {addr : AccAddress} {amt : Coins}

theorem getCoins_SetAccount (s : Auth.State) (acc : Account) (a : AccAddress) :
    getCoins (s.SetAccount acc) a = if a = acc.GetAddress then acc.GetCoins else getCoins s a := by
  unfold getCoins
  rw [State.GetAccount_SetAccount]
  split_ifs <;> rfl

/-- An upsert of the store changes the total by the new account's amount less the old one's. -/
theorem totalAmount_SetAccount (s : Auth.State) (acc : Account) (denom : String) :
    totalAmount (s.SetAccount acc) denom =
      totalAmount s denom - amount (getCoins s acc.GetAddress) denom + amount acc.GetCoins denom := by
  unfold totalAmount State.SetAccount
  rw [SortedMap.sum_insert_eq]
  congr 2
  unfold getCoins State.GetAccount
  cases s.accounts.get? acc.GetAddress <;> rfl

/-- `setCoins` on a well-filed store: the coins of `addr` become `amt`, no other account
changes, and the total changes by the difference. -/
theorem setCoins_spec (hwf : s.WF) (h : setCoins s addr amt = .ok s') :
    s'.WF ∧ getCoins s' addr = amt ∧ (∀ a, a ≠ addr → s'.GetAccount a = s.GetAccount a) ∧
      ∀ denom, totalAmount s' denom = totalAmount s denom - amount (getCoins s addr) denom +
        amount amt denom := by
  unfold setCoins at h
  by_cases hvalid : amt.IsValid = true
  · simp only [hvalid, Bool.not_true, Bool.false_eq_true, if_false] at h
    -- the account written, filed under `addr`, over a store with the same accounts
    obtain ⟨acc, s₀, hacc, hs₀, rfl⟩ : ∃ (acc : Account) (s₀ : Auth.State),
        acc.GetAddress = addr ∧ s₀.accounts = s.accounts ∧
          s' = s₀.SetAccount (acc.SetCoins amt) := by
      cases hget : s.GetAccount addr with
      | none =>
        simp only [hget, Except.pure_eq_ok, Except.ok_inj] at h
        exact ⟨(s.NewAccountWithAddress addr).1, (s.NewAccountWithAddress addr).2, rfl, rfl,
          h.symm⟩
      | some acc =>
        simp only [hget, Except.pure_eq_ok, Except.ok_inj] at h
        exact ⟨acc, s, hwf addr acc hget, rfl, h.symm⟩
    have hget₀ : ∀ a, s₀.GetAccount a = s.GetAccount a := fun a => by
      simp only [State.GetAccount, hs₀]
    have hwf₀ : s₀.WF := fun a acc' h' => hwf a acc' ((hget₀ a).symm.trans h')
    refine ⟨hwf₀.SetAccount _, ?_, fun a ha => ?_, fun denom => ?_⟩
    · rw [getCoins_SetAccount, Account.GetAddress_SetCoins, hacc, if_pos rfl,
        Account.GetCoins_SetCoins]
    · rw [State.GetAccount_SetAccount, Account.GetAddress_SetCoins, hacc, if_neg ha, hget₀]
    · have htotal : totalAmount s₀ denom = totalAmount s denom := by
        simp only [totalAmount, hs₀]
      have hcoins : getCoins s₀ addr = getCoins s addr := by
        simp only [getCoins, hget₀]
      rw [totalAmount_SetAccount, Account.GetAddress_SetCoins, hacc, Account.GetCoins_SetCoins,
        htotal, hcoins]
  · rw [Bool.not_eq_true] at hvalid
    simp [hvalid] at h

/-- The last steps of `subtractCoins`: the difference, then `setCoins`. -/
theorem subtractCoins_tail {old newCoins : Coins}
    (h : (do
      let newCoins ← Abort.lift (Coins.Sub old amt)
      let s ← setCoins s addr newCoins
      pure (newCoins, s)) = Except.ok (newCoins, s')) :
    old.Sub amt = .ok newCoins ∧ setCoins s addr newCoins = .ok s' := by
  obtain ⟨c, hc, h⟩ := Except.bind_eq_ok.1 h
  obtain ⟨s₁, hs₁, h⟩ := Except.bind_eq_ok.1 h
  simp only [Except.pure_eq_ok, Except.ok_inj, Prod.mk.injEq] at h
  obtain ⟨rfl, rfl⟩ := h
  exact ⟨Abort.lift_eq_ok.1 hc, hs₁⟩

/-- A `subtractCoins` that returns took the amount off the account's coins and set them. -/
theorem subtractCoins_eq_ok {hdr : Header} {newCoins : Coins}
    (h : subtractCoins s hdr addr amt = .ok (newCoins, s')) :
    (getCoins s addr).Sub amt = .ok newCoins ∧ setCoins s addr newCoins = .ok s' := by
  unfold subtractCoins at h
  by_cases hvalid : amt.IsValid = true
  · simp only [hvalid, Bool.not_true, Bool.false_eq_true, if_false] at h
    cases hget : s.GetAccount addr with
    | none =>
      simp only [hget, Except.pure_eq_ok, Except.ok_bind] at h
      have hold : getCoins s addr = [] := by simp [getCoins, hget]
      split_ifs at h
      · simp at h
      · exact hold ▸ subtractCoins_tail h
    | some acc =>
      simp only [hget] at h
      obtain ⟨spendable, -, h⟩ := Except.bind_eq_ok.1 h
      simp only [Except.pure_eq_ok, Except.ok_bind] at h
      have hold : getCoins s addr = acc.GetCoins := by simp [getCoins, hget]
      split_ifs at h
      · simp at h
      · exact hold ▸ subtractCoins_tail h
  · rw [Bool.not_eq_true] at hvalid
    simp [hvalid] at h

/-- `subtractCoins` on a well-filed store takes the amount off the account of `addr`, and
off the total, and changes no other account. -/
theorem subtractCoins_spec {hdr : Header} {newCoins : Coins} (hwf : s.WF)
    (h : subtractCoins s hdr addr amt = .ok (newCoins, s')) :
    s'.WF ∧ (∀ denom, amount (getCoins s' addr) denom = amount (getCoins s addr) denom -
        amount amt denom) ∧ (∀ a, a ≠ addr → s'.GetAccount a = s.GetAccount a) ∧
      ∀ denom, totalAmount s' denom = totalAmount s denom - amount amt denom := by
  obtain ⟨hsub, hset⟩ := subtractCoins_eq_ok h
  obtain ⟨hwf', hcoins, hother, htotal⟩ := setCoins_spec hwf hset
  refine ⟨hwf', fun denom => ?_, hother, fun denom => ?_⟩
  · rw [hcoins, amount_Sub denom hsub]
  · rw [htotal, amount_Sub denom hsub]
    omega

/-- A `addCoins` that returns added the amount to the account's coins and set them. -/
theorem addCoins_eq_ok {newCoins : Coins} (h : addCoins s addr amt = .ok (newCoins, s')) :
    newCoins = (getCoins s addr).Add amt ∧ setCoins s addr newCoins = .ok s' := by
  unfold addCoins at h
  by_cases hvalid : amt.IsValid = true
  · simp only [hvalid, Bool.not_true, Bool.false_eq_true, if_false] at h
    split_ifs at h
    · simp at h
    · obtain ⟨s₁, hs₁, h⟩ := Except.bind_eq_ok.1 h
      simp only [Except.pure_eq_ok, Except.ok_inj, Prod.mk.injEq] at h
      obtain ⟨rfl, rfl⟩ := h
      exact ⟨rfl, hs₁⟩
  · rw [Bool.not_eq_true] at hvalid
    simp [hvalid] at h

/-- `addCoins` on a well-filed store puts the amount on the account of `addr`, and on the
total, and changes no other account. -/
theorem addCoins_spec {newCoins : Coins} (hwf : s.WF)
    (h : addCoins s addr amt = .ok (newCoins, s')) :
    s'.WF ∧ (∀ denom, amount (getCoins s' addr) denom = amount (getCoins s addr) denom +
        amount amt denom) ∧ (∀ a, a ≠ addr → s'.GetAccount a = s.GetAccount a) ∧
      ∀ denom, totalAmount s' denom = totalAmount s denom + amount amt denom := by
  obtain ⟨rfl, hset⟩ := addCoins_eq_ok h
  obtain ⟨hwf', hcoins, hother, htotal⟩ := setCoins_spec hwf hset
  refine ⟨hwf', fun denom => ?_, hother, fun denom => ?_⟩
  · rw [hcoins, amount_Add]
  · rw [htotal, amount_Add]
    omega

/-- An account no write touched keeps its coins. -/
theorem getCoins_eq_of_GetAccount_eq {a : AccAddress} (h : s'.GetAccount a = s.GetAccount a) :
    getCoins s' a = getCoins s a := by
  simp only [getCoins, h]

/-- One write of the coins of `addr` by `change`, seen from every account. -/
theorem amount_getCoins_of_write {change : String → ℤ}
    (hcoins : ∀ denom, amount (getCoins s' addr) denom = amount (getCoins s addr) denom + change denom)
    (hother : ∀ a, a ≠ addr → s'.GetAccount a = s.GetAccount a) (a : AccAddress) (denom : String) :
    amount (getCoins s' a) denom = amount (getCoins s a) denom + if a = addr then change denom else 0 := by
  by_cases ha : a = addr
  · subst ha
    rw [hcoins, if_pos rfl]
  · rw [getCoins_eq_of_GetAccount_eq (hother a ha), if_neg ha, add_zero]

end Writes

/-! ### Sends -/

section Send

variable {s s' : Auth.State} {hdr : Header} {amt : Coins}

/-- `sendCoins` on a well-filed store: the sender's balance of every denomination goes down
by the amount, the recipient's up, no other account changes, and neither does the total;
when sender and recipient are one account its balances stay. -/
theorem sendCoins_spec {fromAddr toAddr : AccAddress} (hwf : s.WF)
    (h : sendCoins s hdr fromAddr toAddr amt = .ok s') :
    s'.WF ∧ (∀ a, a ≠ fromAddr → a ≠ toAddr → s'.GetAccount a = s.GetAccount a) ∧
      (∀ a denom, amount (getCoins s' a) denom = amount (getCoins s a) denom -
        (if a = fromAddr then amount amt denom else 0) +
        (if a = toAddr then amount amt denom else 0)) ∧
      ∀ denom, totalAmount s' denom = totalAmount s denom := by
  unfold sendCoins at h
  by_cases hvalid : amt.IsValid = true
  · simp only [hvalid, Bool.not_true, Bool.false_eq_true, if_false] at h
    obtain ⟨⟨c₁, s₁⟩, hsub, h⟩ := Except.bind_eq_ok.1 h
    obtain ⟨⟨c₂, s₂⟩, hadd, h⟩ := Except.bind_eq_ok.1 h
    simp only [Except.pure_eq_ok, Except.ok_inj] at h
    subst h
    obtain ⟨hwf₁, hcoins₁, hother₁, htotal₁⟩ := subtractCoins_spec hwf hsub
    obtain ⟨hwf₂, hcoins₂, hother₂, htotal₂⟩ := addCoins_spec hwf₁ hadd
    have hfrom : ∀ a denom, amount (getCoins s₁ a) denom =
        amount (getCoins s a) denom + if a = fromAddr then -amount amt denom else 0 :=
      amount_getCoins_of_write (fun d => by rw [hcoins₁]; omega) hother₁
    have hto := amount_getCoins_of_write hcoins₂ hother₂
    refine ⟨hwf₂, fun a ha hb => (hother₂ a hb).trans (hother₁ a ha), fun a denom => ?_,
      fun denom => by rw [htotal₂, htotal₁]; omega⟩
    rw [hto, hfrom]
    split_ifs <;> omega
  · rw [Bool.not_eq_true] at hvalid
    simp [hvalid] at h

/-- The loop rule for writes in a `foldlM`: when each step changes the account of `addrOf x`
by `change x` and the total by as much, the loop changes each account by the changes of its
elements, and the total by all of them. -/
theorem foldlM_writes {α : Type} (f : Auth.State → α → Except Abort Auth.State)
    (addrOf : α → AccAddress) (change : α → String → ℤ)
    (hf : ∀ s s' x, s.WF → f s x = .ok s' → s'.WF ∧
      (∀ a denom, amount (getCoins s' a) denom =
        amount (getCoins s a) denom + if a = addrOf x then change x denom else 0) ∧
      ∀ denom, totalAmount s' denom = totalAmount s denom + change x denom) :
    ∀ (l : List α) (s s' : Auth.State), s.WF → l.foldlM f s = .ok s' → s'.WF ∧
      (∀ a denom, amount (getCoins s' a) denom = amount (getCoins s a) denom +
        ((l.filter fun x => addrOf x = a).map fun x => change x denom).sum) ∧
      ∀ denom, totalAmount s' denom = totalAmount s denom + (l.map fun x => change x denom).sum
  | [], s, s', hwf, h => by
    simp only [List.foldlM_nil, Except.pure_eq_ok, Except.ok_inj] at h
    subst h
    simp [hwf]
  | x :: l, s, s', hwf, h => by
    rw [List.foldlM_cons] at h
    obtain ⟨s₁, h₁, h⟩ := Except.bind_eq_ok.1 h
    obtain ⟨hwf₁, hcoins₁, htotal₁⟩ := hf s s₁ x hwf h₁
    obtain ⟨hwf', hcoins, htotal⟩ := foldlM_writes f addrOf change hf l s₁ s' hwf₁ h
    refine ⟨hwf', fun a denom => ?_, fun denom => ?_⟩
    · rw [hcoins, hcoins₁]
      by_cases ha : addrOf x = a
      · simp [ha]
        omega
      · simp [ha, Ne.symm ha]
    · rw [htotal, htotal₁, List.map_cons, List.sum_cons]
      omega

/-- The totals `ValidateInputsOutputs` adds up: the amounts of all the coins. -/
theorem amount_foldlM_Add {α : Type} (validate : α → Option Error) (coins : α → Coins) :
    ∀ (l : List α) (acc total : Coins),
      l.foldlM (m := Except Abort) (fun (total : Coins) x =>
        match validate x with
        | some err => throw (Abort.err err)
        | none => pure (total.Add (coins x))) acc = Except.ok total →
      ∀ denom, amount total denom = amount acc denom + (l.map fun x => amount (coins x) denom).sum
  | [], acc, total, h, denom => by
    simp only [List.foldlM_nil, Except.pure_eq_ok, Except.ok_inj] at h
    simp [h]
  | x :: l, acc, total, h, denom => by
    rw [List.foldlM_cons] at h
    obtain ⟨acc₁, h₁, h⟩ := Except.bind_eq_ok.1 h
    cases hv : validate x with
    | some err => simp [hv] at h₁
    | none =>
      simp only [hv, Except.pure_eq_ok, Except.ok_inj] at h₁
      subst h₁
      rw [amount_foldlM_Add validate coins l _ total h denom, amount_Add, List.map_cons,
        List.sum_cons]
      omega

/-- `ValidateInputsOutputs` accepts inputs and outputs that carry the same amount of every
denomination. -/
theorem ValidateInputsOutputs_eq_ok {inputs : List Input} {outputs : List Output}
    (h : ValidateInputsOutputs inputs outputs = .ok ()) (denom : String) :
    (inputs.map fun i => amount i.coins denom).sum = (outputs.map fun o => amount o.coins denom).sum := by
  unfold ValidateInputsOutputs at h
  obtain ⟨totalIn, hin, h⟩ := Except.bind_eq_ok.1 h
  obtain ⟨totalOut, hout, h⟩ := Except.bind_eq_ok.1 h
  obtain ⟨equal, heq, h⟩ := Except.bind_eq_ok.1 h
  have hequal : equal = true := by
    cases equal
    · simp at h
    · rfl
  subst hequal
  have hsame := amount_eq_of_IsEqual (Abort.lift_eq_ok.1 heq) denom
  rw [amount_foldlM_Add Input.ValidateBasic Input.coins inputs [] totalIn hin denom,
    amount_foldlM_Add Output.ValidateBasic Output.coins outputs [] totalOut hout denom] at hsame
  simpa using hsame

/-- An input and an output of one valid coin each, of two denominations, carry different
totals, but `ValidateInputsOutputs` does not return `ErrInputOutputMismatch` for them: the
`Coins.IsEqual` it calls compares the two coins with `Coin.IsEqual`, which panics. -/
theorem ValidateInputsOutputs_panics_on_denoms (inAddr outAddr : AccAddress) (a b : Coin)
    (hin : inAddr ≠ []) (hout : outAddr ≠ []) (ha : validateDenom a.denom = true)
    (hb : validateDenom b.denom = true) (hapos : 0 < a.amount) (hbpos : 0 < b.amount)
    (hne : a.denom ≠ b.denom) :
    ValidateInputsOutputs [⟨inAddr, [a]⟩] [⟨outAddr, [b]⟩] =
      .error (.panic ⟨"invalid coin denominations; " ++ a.denom ++ ", " ++ b.denom⟩) := by
  have hvalid : ∀ (addr : AccAddress) (c : Coin), addr ≠ [] → validateDenom c.denom = true →
      0 < c.amount → validateAddressCoins addr [c] = none := fun addr c haddr hc hpos => by
    simp [validateAddressCoins, haddr, IsValid, IsValid.validTail, hc, Coin.IsPositive, hpos,
      IsAllPositive]
  have hadd : ∀ c : Coin, 0 < c.amount → Coins.Add [] [c] = [c] := fun c hpos => by
    simp [Coins.Add, safeAdd, removeZeroCoins, Coin.IsZero, hpos.ne']
  have hequal := @IsEqual_append_of_denom_ne [] [] [] a b
    (List.pairwise_singleton _ a) (List.pairwise_singleton _ b) rfl hne
  simp only [List.nil_append] at hequal
  simp [ValidateInputsOutputs, Input.ValidateBasic, Output.ValidateBasic,
    hvalid inAddr a hin ha hapos, hvalid outAddr b hout hb hbpos, hadd a hapos, hadd b hbpos,
    hequal, Abort.lift, Except.mapError]

theorem ValidateInputsOutputs_panics_on_atom_btc :
    ValidateInputsOutputs [⟨[1], [⟨"atom", 1⟩]⟩] [⟨[2], [⟨"btc", 1⟩]⟩] =
      .error (.panic ⟨"invalid coin denominations; " ++ "atom" ++ ", " ++ "btc"⟩) :=
  ValidateInputsOutputs_panics_on_denoms [1] [2] ⟨"atom", 1⟩ ⟨"btc", 1⟩ (by decide) (by decide)
    (by decide) (by decide) (by decide) (by decide) (by decide)

/-- `inputOutputCoins` on a well-filed store changes the balance of every account by what
its outputs bring less what its inputs take, and the total not at all. -/
theorem inputOutputCoins_spec {inputs : List Input} {outputs : List Output} (hwf : s.WF)
    (h : inputOutputCoins hdr s inputs outputs = .ok s') :
    s'.WF ∧ (∀ a denom, amount (getCoins s' a) denom = amount (getCoins s a) denom -
        ((inputs.filter fun i => i.address = a).map fun i => amount i.coins denom).sum +
        ((outputs.filter fun o => o.address = a).map fun o => amount o.coins denom).sum) ∧
      ∀ denom, totalAmount s' denom = totalAmount s denom := by
  unfold inputOutputCoins at h
  obtain ⟨⟨⟩, hvalid, h⟩ := Except.bind_eq_ok.1 h
  obtain ⟨s₁, hin, hout⟩ := Except.bind_eq_ok.1 h
  -- each input takes its coins off its account, each output puts them on
  have hsub : ∀ s s' (input : Input), s.WF →
      (do let (_, s) ← subtractCoins s hdr input.address input.coins; pure s) = Except.ok s' →
      s'.WF ∧ (∀ a denom, amount (getCoins s' a) denom = amount (getCoins s a) denom +
        if a = input.address then -amount input.coins denom else 0) ∧
      ∀ denom, totalAmount s' denom = totalAmount s denom + -amount input.coins denom := by
    intro s s' input hwf h
    obtain ⟨⟨c, s₁⟩, hs₁, h⟩ := Except.bind_eq_ok.1 h
    simp only [Except.pure_eq_ok, Except.ok_inj] at h
    subst h
    obtain ⟨hwf₁, hcoins, hother, htotal⟩ := subtractCoins_spec hwf hs₁
    exact ⟨hwf₁, amount_getCoins_of_write (fun d => by rw [hcoins]; omega) hother,
      fun d => by rw [htotal]; omega⟩
  have hadd : ∀ s s' (output : Output), s.WF →
      (do let (_, s) ← addCoins s output.address output.coins; pure s) = Except.ok s' →
      s'.WF ∧ (∀ a denom, amount (getCoins s' a) denom = amount (getCoins s a) denom +
        if a = output.address then amount output.coins denom else 0) ∧
      ∀ denom, totalAmount s' denom = totalAmount s denom + amount output.coins denom := by
    intro s s' output hwf h
    obtain ⟨⟨c, s₁⟩, hs₁, h⟩ := Except.bind_eq_ok.1 h
    simp only [Except.pure_eq_ok, Except.ok_inj] at h
    subst h
    obtain ⟨hwf₁, hcoins, hother, htotal⟩ := addCoins_spec hwf hs₁
    exact ⟨hwf₁, amount_getCoins_of_write hcoins hother, htotal⟩
  obtain ⟨hwf₁, hcoins₁, htotal₁⟩ := foldlM_writes _ Input.address
    (fun input denom => -amount input.coins denom) hsub inputs s s₁ hwf hin
  obtain ⟨hwf₂, hcoins₂, htotal₂⟩ := foldlM_writes _ Output.address
    (fun output denom => amount output.coins denom) hadd outputs s₁ s' hwf₁ hout
  have hneg : ∀ (l : List Input) denom,
      (l.map fun i => -amount i.coins denom).sum = -(l.map fun i => amount i.coins denom).sum := by
    intro l denom
    rw [List.sum_neg, List.map_map]
    rfl
  refine ⟨hwf₂, fun a denom => ?_, fun denom => ?_⟩
  · rw [hcoins₂, hcoins₁, hneg]
    omega
  · rw [htotal₂, htotal₁, hneg, ValidateInputsOutputs_eq_ok hvalid denom]
    omega

end Send

/-! ### What a bank message moves -/

/-- What the bank keeper guarantees of a store: a send moves its amount from one account to
the other and changes nothing else, a handled `MsgSend` keeps the store unless the send
went through, and a multi-send changes every account by its outputs less its inputs; the
stores they return keep every account under its own address, so the guarantee holds again
of them. -/
structure Conserves (s : Auth.State) (hdr : Header) : Prop where
  send : ∀ fromAddr toAddr amt s', sendCoins s hdr fromAddr toAddr amt = .ok s' →
    s'.WF ∧ (∀ a, a ≠ fromAddr → a ≠ toAddr → s'.GetAccount a = s.GetAccount a) ∧
    (∀ a denom, amount (getCoins s' a) denom = amount (getCoins s a) denom -
      (if a = fromAddr then amount amt denom else 0) +
      (if a = toAddr then amount amt denom else 0)) ∧
    ∀ denom, totalAmount s' denom = totalAmount s denom
  handler : ∀ sendEnabled fromAddr toAddr amt r s', handleMsgSend s hdr sendEnabled fromAddr toAddr amt = .ok (r, s') →
    s' = s ∨ sendCoins s hdr fromAddr toAddr amt = .ok s'
  multiSend : ∀ inputs outputs s', inputOutputCoins hdr s inputs outputs = .ok s' →
    s'.WF ∧ (∀ a denom, amount (getCoins s' a) denom = amount (getCoins s a) denom -
      ((inputs.filter fun i => i.address = a).map fun i => amount i.coins denom).sum +
      ((outputs.filter fun o => o.address = a).map fun o => amount o.coins denom).sum) ∧
    ∀ denom, totalAmount s' denom = totalAmount s denom

/-- `handleMsgSend` returns the store it was given, or the one `sendCoins` returns. -/
theorem handleMsgSend_state {s s' : Auth.State} {hdr : Header} {sendEnabled : Bool}
    {fromAddr toAddr : AccAddress} {amt : Coins} {r : Result}
    (h : handleMsgSend s hdr sendEnabled fromAddr toAddr amt = .ok (r, s')) :
    s' = s ∨ sendCoins s hdr fromAddr toAddr amt = .ok s' := by
  unfold handleMsgSend at h
  split_ifs at h
  · simp only [Except.pure_eq_ok, Except.ok_inj, Prod.mk.injEq] at h
    exact Or.inl h.2.symm
  · split at h
    · rename_i s₁ hsend
      simp only [Except.pure_eq_ok, Except.ok_inj, Prod.mk.injEq] at h
      exact Or.inr (h.2 ▸ hsend)
    · simp only [Except.pure_eq_ok, Except.ok_inj, Prod.mk.injEq] at h
      exact Or.inl h.2.symm
    · cases h

/-- Sends and multi-sends on a store that keeps every account under its own address move
coins between accounts and create none. -/
theorem bank_sends_conserve (s : Auth.State) (hwf : s.WF) (hdr : Header) : Conserves s hdr where
  send _ _ _ _ h := sendCoins_spec hwf h
  handler _ _ _ _ _ _ h := handleMsgSend_state h
  multiSend _ _ _ h := inputOutputCoins_spec hwf h

theorem bank_sends_conserve_empty :
    (⟨SortedMap.empty, 0⟩ : Auth.State).WF ∧ Conserves ⟨SortedMap.empty, 0⟩ ⟨0, 0⟩ :=
  have hwf : (⟨SortedMap.empty, 0⟩ : Auth.State).WF := fun _ _ h => by cases h
  ⟨hwf, bank_sends_conserve _ hwf ⟨0, 0⟩⟩

/-- A send of no coins from an address to itself creates the address's account when it has
none: the store changes although sender and recipient are one. -/
theorem sendCoins_self_creates_account :
    let s : Auth.State := ⟨SortedMap.empty, 0⟩
    s.GetAccount [1] = none ∧
      ∃ s', sendCoins s ⟨0, 0⟩ [1] [1] [] = .ok s' ∧
        s'.GetAccount [1] = some (.base { address := [1] }) :=
  ⟨rfl, _, rfl, rfl⟩

/-- On a store that keeps an account under another address than its own, `setCoins` files
the sender's new coins under the account's own address and the old record stays: a send
creates coins. -/
theorem sendCoins_misfiled_account :
    let s : Auth.State :=
      ⟨SortedMap.empty.insert [1] (.base { address := [3], coins := [⟨"atom", 10⟩] }), 0⟩
    totalAmount s "atom" = 10 ∧
      ∃ s', sendCoins s ⟨0, 0⟩ [1] [2] [⟨"atom", 3⟩] = .ok s' ∧ totalAmount s' "atom" = 20 :=
  ⟨rfl, _, rfl, rfl⟩

end CosmosSdk.Bank
