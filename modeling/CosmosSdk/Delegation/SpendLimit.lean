import CosmosSdk.App.Router
import CosmosSdk.Lib.Outcome

/-!
# Spend limits of delegated sends

A `SendCapability` is documented to bound what a grantee may send from the granter's
account: each accepted `MsgSend` is taken off the limit and the rest stored back, and an
empty limit is no bound at all.

Neither holds of `x/delegation`.  `update` replaces the capability only in the copy it has
read, so the stored grant keeps the limit it was granted with: dispatching sends on the
granter's behalf leaves the grant as it was or deletes it (`grant_of_DispatchActions_sends`),
and every send within the first limit is accepted again, however many went before
(`delegatedSends_exceed_spendLimit`).  An empty limit accepts no positive amount:
`SafeSub` of it is negative (`Accept_SendCapability_nil`).
-/

namespace CosmosSdk

namespace Coins

/-- Subtracting positive coins from no coins goes negative. -/
theorem SafeSub_nil_hasNeg {amount : Coins} (h : amount.IsAllPositive) :
    (Coins.SafeSub [] amount).2 = true := by
  obtain _ | ⟨coin, coins⟩ := amount
  · simp [IsAllPositive] at h
  · have hpos : 0 < coin.amount := by
      simp only [IsAllPositive, List.isEmpty_cons, List.all_cons, Bool.not_false,
        Bool.true_and, Bool.and_eq_true] at h
      simpa [Coin.IsPositive] using h.1
    simp [SafeSub, safeAdd, negative, removeZeroCoins, IsAnyNegative, Coin.IsZero,
      Coin.IsNegative, hpos, hpos.ne']

end Coins

/-- An empty spend limit refuses every positive amount. -/
theorem Capability.Accept_SendCapability_nil {amount : Coins} (h : amount.IsAllPositive)
    (fromAddress toAddress : AccAddress) (block : Header) :
    (Capability.SendCapability []).Accept (.MsgSend fromAddress toAddress amount) block =
      pure (false, none, false) := by
  obtain ⟨left, hleft⟩ : ∃ left, Coins.SafeSub [] amount = (left, true) :=
    ⟨_, Prod.ext rfl (Coins.SafeSub_nil_hasNeg h)⟩
  simp [Capability.Accept, hleft]

/-- An empty fee allowance refuses every positive fee. -/
theorem FeeAllowance.Accept_BasicFeeAllowance_nil {fee : Coins} (h : fee.IsAllPositive)
    (block : Header) :
    (FeeAllowance.BasicFeeAllowance []).Accept fee block = (false, none, false) := by
  obtain ⟨left, hleft⟩ : ∃ left, Coins.SafeSub [] fee = (left, true) :=
    ⟨_, Prod.ext rfl (Coins.SafeSub_nil_hasNeg h)⟩
  simp [FeeAllowance.Accept, hleft]

namespace Delegation

namespace State

variable (s : State)

/-- `GetCapability` writes to the store only to revoke an expired grant, and then returns no
capability. -/
theorem GetCapability_cases (hdr : Header) (grantee granter : AccAddress) (msgType : Msg) :
    (s.GetCapability hdr grantee granter msgType).2 = s ∨
      s.GetCapability hdr grantee granter msgType = (none, s.Revoke grantee granter msgType) := by
  unfold GetCapability
  split
  · exact .inl rfl
  · split_ifs
    · exact .inr rfl
    · exact .inl rfl

end State

namespace Keeper

variable {σ : Type} (k : Keeper σ) (hdr : Header)

/-- The capability check leaves the delegation store as it was, or revokes the one grant it
reads: the replaced capability of `update` is never written. -/
theorem checkCapability_store {sender actor : AccAddress} {msg : Msg} {ctx ctx' : σ}
    {refused : Option Result} (h : k.checkCapability hdr sender actor msg ctx = .ok (refused, ctx')) :
    k.store ctx' = k.store ctx ∨ k.store ctx' = (k.store ctx).Revoke sender actor msg := by
  unfold checkCapability at h
  rcases hget : (k.store ctx).GetCapability hdr sender actor msg with ⟨capability, st⟩
  rw [hget] at h
  rcases (k.store ctx).GetCapability_cases hdr sender actor msg with hst | hrev
  · -- the grant was not expired: only `Accept`'s answer can write
    rw [hget] at hst
    subst hst
    cases capability with
    | none =>
      simp only [Except.pure_eq_ok, Except.ok_inj, Prod.mk.injEq] at h
      simp [← h.2]
    | some capability =>
      obtain ⟨⟨allow, updated, del⟩, -, h⟩ := Except.bind_eq_ok.mp h
      simp only at h
      split_ifs at h
      · simp only [Except.pure_eq_ok, Except.ok_inj, Prod.mk.injEq] at h
        simp [← h.2]
      · simp only [Except.pure_eq_ok, Except.ok_inj, Prod.mk.injEq] at h
        simp [← h.2]
      · cases updated <;> simp only [Except.pure_eq_ok, Except.ok_inj, Prod.mk.injEq] at h <;> simp [← h.2]
  · -- the expired grant was revoked and nothing else happens
    rw [hget] at hrev
    obtain ⟨rfl, rfl⟩ := Prod.mk.inj hrev
    simp only [Except.pure_eq_ok, Except.ok_inj, Prod.mk.injEq] at h
    simp [← h.2]

end Keeper

end Delegation

namespace App

variable (cfg : Config) (hdr : Header)

/-- A send moves coins only: the delegation store is not touched. -/
theorem route_MsgSend_delegation {fuel : ℕ} {s s' : State} {res : Result}
    {fromAddress toAddress : AccAddress} {amount : Coins}
    (h : route cfg hdr fuel s (.MsgSend fromAddress toAddress amount) = .ok (res, s')) :
    s'.delegation = s.delegation := by
  cases fuel with
  | zero => simp at h
  | succ fuel =>
    simp only [route_succ, handler] at h
    obtain ⟨⟨res, accounts⟩, -, h⟩ := Except.bind_eq_ok.mp h
    simp only [Except.pure_eq_ok, Except.ok_inj, Prod.mk.injEq] at h
    rw [← h.2]

/-- A lookup that stays as it was or is emptied, twice over, stayed or was emptied. -/
private theorem eq_or_none_trans {α : Type} {a b c : Option α} (h₁ : b = a ∨ b = none)
    (h₂ : c = b ∨ c = none) : c = a ∨ c = none := by
  rcases h₂ with rfl | rfl <;> simp_all

/-- However many sends from the granter's account a grantee dispatches, the granter's grant
for sends is left as it was, or deleted: the limit it holds is never lowered. -/
theorem grant_of_DispatchActions_sends {fuel : ℕ} {grantee granter : AccAddress}
    (hne : granter ≠ grantee) (msgs : List Msg)
    (hsends : ∀ m ∈ msgs, ∃ toAddress amount, m = .MsgSend granter toAddress amount)
    {s s' : State} {res res' : Result}
    (h : (delegationKeeper (route cfg hdr fuel)).DispatchActions hdr grantee s res msgs =
      .ok (res', s')) :
    s'.delegation.getCapabilityGrant (Delegation.ActorCapabilityKey grantee granter (.MsgSend [] [] [])) =
        s.delegation.getCapabilityGrant (Delegation.ActorCapabilityKey grantee granter (.MsgSend [] [] [])) ∨
      s'.delegation.getCapabilityGrant (Delegation.ActorCapabilityKey grantee granter (.MsgSend [] [] [])) =
        none := by
  induction msgs generalizing s res with
  | nil =>
    simp only [Delegation.Keeper.DispatchActions, Except.pure_eq_ok, Except.ok_inj,
      Prod.mk.injEq] at h
    exact .inl (by rw [← h.2])
  | cons m msgs ih =>
    obtain ⟨toAddress, amount, rfl⟩ := hsends m List.mem_cons_self
    simp only [Delegation.Keeper.DispatchActions, Msg.GetSigners, if_neg hne] at h
    obtain ⟨⟨refused, s₁⟩, hcheck, h⟩ := Except.bind_eq_ok.mp h
    -- the check keeps the grant or revokes it
    have h₁ : s₁.delegation.getCapabilityGrant (Delegation.ActorCapabilityKey grantee granter (.MsgSend [] [] [])) =
        s.delegation.getCapabilityGrant (Delegation.ActorCapabilityKey grantee granter (.MsgSend [] [] [])) ∨
      s₁.delegation.getCapabilityGrant (Delegation.ActorCapabilityKey grantee granter (.MsgSend [] [] [])) =
        none := by
      rcases Delegation.Keeper.checkCapability_store _ hdr hcheck with hst | hst <;>
        simp only [delegationKeeper] at hst <;> simp [hst, Delegation.State.getCapabilityGrant,
          Delegation.State.Revoke, Delegation.ActorCapabilityKey, Msg.Route, Msg.Type]
    cases refused with
    | some r =>
      simp only [Except.pure_eq_ok, Except.ok_inj, Prod.mk.injEq] at h
      rwa [← h.2]
    | none =>
      obtain ⟨⟨r₂, s₂⟩, hroute, h⟩ := Except.bind_eq_ok.mp h
      have h₂ : s₂.delegation = s₁.delegation := route_MsgSend_delegation cfg hdr hroute
      split_ifs at h
      · simp only [Except.pure_eq_ok, Except.ok_inj, Prod.mk.injEq] at h
        rwa [← h.2, h₂]
      · refine eq_or_none_trans h₁ ?_
        rw [← h₂]
        exact ih (fun m hm => hsends m (List.mem_cons_of_mem _ hm)) h

/-- `[1]` holds 20stake and grants `[2]` sends of at most 10stake; `[2]` dispatches a send of
6stake from `[1]` to `[3]` in two transactions, and both succeed: 12stake leave `[1]`. -/
theorem delegatedSends_exceed_spendLimit (cfg : Config) (hdr : Header) :
    let cfg := { cfg with sendEnabled := true }
    let genesis : State := { State.empty with
      accounts := ⟨SortedMap.empty.insert [1] (.base { address := [1], coins := [⟨"stake", 20⟩] }), 1⟩ }
    let grant : Msg := .MsgDelegate [1] [2] (.SendCapability [⟨"stake", 10⟩]) zeroTime
    let send : Msg := .MsgExecDelegatedAction [2] [.MsgSend [1] [3] [⟨"stake", 6⟩]]
    (do
      let (_, s₁) ← route cfg hdr 1 genesis grant
      let (r₂, s₂) ← route cfg hdr 2 s₁ send
      let (r₃, s₃) ← route cfg hdr 2 s₂ send
      pure (r₂.code, r₃.code, Bank.getCoins s₃.accounts [1], Bank.getCoins s₃.accounts [3])) =
      Except.ok (CodeType.OK, CodeType.OK, [⟨"stake", 8⟩], [⟨"stake", 12⟩]) := by
  rfl

end App

end CosmosSdk
