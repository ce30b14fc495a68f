import CosmosSdk.Staking.PowerIndex
import CosmosSdk.Staking.SupplySafety

/-!
# Every step keeps the power index exact

Each keeper function that writes a validator is given the record stored under its address,
and the write replaces it (`PowerIndex.Inv.rewrite` and its siblings).  The lemmas here check
that of every operation, following the source: the record each write is given is the one the
store holds at that point, which the ledger's and the books' lemmas of the same operation
already name.  `Step_power` assembles them; `powerIndexConsistent_of_run` is the consistency
along every run from a funded genesis state.
-/

namespace CosmosSdk.Staking

namespace PowerIndex.Inv

variable {s : State}

/-- A stored record is stored under its own address. -/
theorem get (hI : s.powerIndex.Inv) {a : ValAddress} {v : Validator}
    (hv : s.GetValidator a = some v) : s.GetValidator v.operatorAddress = some v := by
  rw [(hI.addr a v hv).1]
  exact hv

end PowerIndex.Inv

namespace State

variable {s s' : State} {v v' : Validator}

/-! ### The keeper's writes of a validator -/

theorem AddValidatorTokensAndShares_power (hI : s.powerIndex.Inv)
    (hv : s.GetValidator v.operatorAddress = some v) {amt : ℤ} {sh : Dec}
    (h : s.AddValidatorTokensAndShares v amt = .ok (s', v', sh)) : s'.powerIndex.Inv := by
  obtain ⟨pool, hadd, rfl⟩ := AddValidatorTokensAndShares_eq_ok h
  obtain ⟨rfl, -⟩ := Validator.AddTokensFromDel_eq_ok hadd
  simp only [powerIndex_SetValidatorByPowerIndex, powerIndex_SetPool, powerIndex_SetValidator,
    powerIndex_DeleteValidatorByPowerIndex]
  exact hI.rewrite hv rfl

theorem RemoveValidatorTokensAndShares_power (hI : s.powerIndex.Inv)
    (hv : s.GetValidator v.operatorAddress = some v) {x : Dec} {amt : ℤ}
    (h : s.RemoveValidatorTokensAndShares v x = .ok (s', v', amt)) : s'.powerIndex.Inv := by
  obtain ⟨pool, hrem, rfl⟩ := RemoveValidatorTokensAndShares_eq_ok h
  obtain ⟨rfl, -⟩ := Validator.RemoveDelShares_eq_ok hrem
  simp only [powerIndex_SetValidatorByPowerIndex, powerIndex_SetPool, powerIndex_SetValidator,
    powerIndex_DeleteValidatorByPowerIndex]
  exact hI.rewrite hv rfl

theorem RemoveValidatorTokens_power (hI : s.powerIndex.Inv)
    (hv : s.GetValidator v.operatorAddress = some v) {t : ℤ}
    (h : s.RemoveValidatorTokens v t = .ok (s', v')) : s'.powerIndex.Inv := by
  obtain ⟨pool, hrem, rfl⟩ := RemoveValidatorTokens_eq_ok h
  obtain ⟨-, -, rfl, -⟩ := Validator.RemoveTokens_eq_ok hrem
  simp only [powerIndex_SetValidatorByPowerIndex, powerIndex_SetPool, powerIndex_SetValidator,
    powerIndex_DeleteValidatorByPowerIndex]
  exact hI.rewrite hv rfl

theorem jailValidator_power (hI : s.powerIndex.Inv)
    (hv : s.GetValidator v.operatorAddress = some v) (h : s.jailValidator v = .ok s') :
    s'.powerIndex.Inv := by
  obtain ⟨-, rfl⟩ := jailValidator_eq_ok h
  simp only [powerIndex_DeleteValidatorByPowerIndex, powerIndex_SetValidator]
  exact hI.jail hv

theorem unjailValidator_power (hI : s.powerIndex.Inv)
    (hv : s.GetValidator v.operatorAddress = some v) (h : s.unjailValidator v = .ok s') :
    s'.powerIndex.Inv := by
  obtain ⟨hj, rfl⟩ := unjailValidator_eq_ok h
  simp only [powerIndex_SetValidatorByPowerIndex, powerIndex_SetValidator]
  exact hI.unjail hv hj

theorem bondValidator_power (hI : s.powerIndex.Inv)
    (hv : s.GetValidator v.operatorAddress = some v) (h : s.bondValidator v = .ok (s', v')) :
    s'.powerIndex.Inv := by
  obtain ⟨pool, hup, rfl⟩ := bondValidator_eq_ok h
  obtain ⟨rfl, -⟩ := Validator.UpdateStatus_eq_ok.mp hup
  simp only [powerIndex_DeleteValidatorQueue, powerIndex_SetValidatorByPowerIndex,
    powerIndex_SetValidator, powerIndex_SetPool, powerIndex_DeleteValidatorByPowerIndex]
  exact hI.rewrite hv rfl

theorem beginUnbondingValidator_power (hI : s.powerIndex.Inv)
    (hv : s.GetValidator v.operatorAddress = some v) {hdr : Header}
    (h : s.beginUnbondingValidator hdr v = .ok (s', v')) : s'.powerIndex.Inv := by
  obtain ⟨-, v₁, pool, hup, rfl, rfl⟩ := beginUnbondingValidator_eq_ok h
  obtain ⟨rfl, -⟩ := Validator.UpdateStatus_eq_ok.mp hup
  simp only [powerIndex_InsertValidatorQueue, powerIndex_SetValidatorByPowerIndex,
    powerIndex_SetValidator, powerIndex_SetPool, powerIndex_DeleteValidatorByPowerIndex]
  exact hI.rewrite hv rfl

/-- Completing an unbonding changes the status only, which the key does not hold. -/
theorem completeUnbondingValidator_power (hI : s.powerIndex.Inv)
    (hv : s.GetValidator v.operatorAddress = some v)
    (h : s.completeUnbondingValidator v = .ok (s', v')) : s'.powerIndex.Inv := by
  obtain ⟨pool, hup, rfl⟩ := completeUnbondingValidator_eq_ok h
  obtain ⟨rfl, -⟩ := Validator.UpdateStatus_eq_ok.mp hup
  simp only [powerIndex_SetValidator, powerIndex_SetPool]
  exact hI.setValidator_same hv rfl rfl rfl

theorem RemoveValidator_power (hI : s.powerIndex.Inv) {a : ValAddress}
    (h : s.RemoveValidator a = .ok s') : s'.powerIndex.Inv := by
  rcases RemoveValidator_eq_ok h with ⟨-, rfl⟩ | ⟨v, hv, -, -, rfl⟩
  · exact hI
  · exact hI.remove hv

/-! ### Delegating and unbonding -/

/-- The bank step of `Delegate` moves coins only. -/
theorem Delegate_bank_powerIndex {a : AccAddress} {amt : ℤ} {sub : Bool} {s₁ : State}
    (h : (if sub then (NewCoin amt >>= fun c => s.DelegateCoins a c) else pure s) = .ok s₁) :
    s₁.powerIndex = s.powerIndex := by
  cases sub
  · simp only [Bool.false_eq_true, if_false, Except.pure_eq_ok, Except.ok_inj] at h
    rw [h]
  · simp only [if_true] at h
    obtain ⟨c, -, hc⟩ := Except.bind_eq_ok.mp h
    exact powerIndex_DelegateCoins _ hc

/-- `Delegate` to a stored validator. -/
theorem Delegate_power (hI : s.powerIndex.Inv) (hv : s.GetValidator v.operatorAddress = some v)
    {del : AccAddress} {amt : ℤ} {sub : Bool} {sh : Dec}
    (h : s.Delegate del amt v sub = .ok (s', sh)) : s'.powerIndex.Inv := by
  obtain ⟨-, s₁, s₂, v', h₁, h₂, rfl⟩ := Delegate_eq_ok h
  have hp₁ := Delegate_bank_powerIndex h₁
  have hv₁ : s₁.GetValidator v.operatorAddress = some v :=
    (GetValidator_eq_of_powerIndex_eq hp₁ _).trans hv
  rw [powerIndex_SetDelegation]
  exact AddValidatorTokensAndShares_power (hp₁ ▸ hI) hv₁ h₂

/-- `unbond`: the jail step writes the record it read, the delegation write leaves the index
alone, the removal of the shares writes the record the jail step continues with, and an
emptied unbonded validator goes. -/
theorem unbond_power (hs : s.ledger.Inv) (hI : s.powerIndex.Inv) {del : AccAddress}
    {val : ValAddress} {x : Dec} {amt : ℤ} (h : s.unbond del val x = .ok (s', amt)) :
    s'.powerIndex.Inv := by
  obtain ⟨d, v, hd, hxd, hv, s₁, v₁, hj, s₂, v₂, hr, hrv⟩ := unbond_eq_ok h
  have hva := operatorAddress_of_get hs hv
  obtain ⟨-, hst⟩ := unbond_jail_step hs hv hj
  obtain ⟨-, -, -, -, hv₁, -⟩ := unbond_jail_books hs hv hj
  have hI₁ : s₁.powerIndex.Inv := by
    rcases hj with ⟨rfl, rfl⟩ | ⟨hjail, -⟩
    · exact hI
    · exact jailValidator_power hI (hva ▸ hv) hjail
  have hop₁ : v₁.operatorAddress = val := by
    rw [← hva]
    exact congrArg Stake.operatorAddress hst
  -- the delegation write leaves the validators and the index alone
  generalize hD : (if (d.shares - x).isZero then s₁.RemoveDelegation { d with shares := d.shares - x }
    else s₁.SetDelegation { d with shares := d.shares - x }) = sD at hr
  have hDs : sD.powerIndex = s₁.powerIndex := by
    rw [← hD]
    split_ifs <;> rfl
  have hvD : sD.GetValidator v₁.operatorAddress = some v₁ := by
    rw [GetValidator_eq_of_powerIndex_eq hDs, hop₁]
    exact hv₁
  have hI₂ := RemoveValidatorTokensAndShares_power (hDs ▸ hI₁) hvD hr
  split_ifs at hrv
  · exact RemoveValidator_power hI₂ hrv
  · simp only [Except.pure_eq_ok, Except.ok_inj] at hrv
    exact hrv ▸ hI₂

theorem Undelegate_power (hs : s.ledger.Inv) (hI : s.powerIndex.Inv) {hdr : Header}
    {del : AccAddress} {val : ValAddress} {x : Dec} {t : Time}
    (h : s.Undelegate hdr del val x = .ok (s', t)) : s'.powerIndex.Inv := by
  obtain ⟨s₁, amt, hub, -, -, rfl⟩ := Undelegate_eq_ok h
  rw [powerIndex_SetUnbondingDelegationEntry]
  exact unbond_power hs hI hub

theorem BeginRedelegation_power (hs : s.ledger.Inv) (hI : s.powerIndex.Inv) {hdr : Header}
    {del : AccAddress} {src dst : ValAddress} {x : Dec} {t : Time}
    (h : s.BeginRedelegation hdr del src dst x = .ok (s', t)) : s'.powerIndex.Inv := by
  obtain ⟨-, -, -, s₁, amt, hu, -, w, hw, s₂, sh, hdel, -, hend⟩ := BeginRedelegation_eq_ok h
  have hI₁ := unbond_power hs hI hu
  have hI₂ := Delegate_power hI₁ (hI₁.get hw) hdel
  rcases hend with ⟨-, rfl⟩ | ⟨-, rfl⟩
  · exact hI₂
  · rw [powerIndex_SetRedelegationEntry]
    exact hI₂

/-! ### Completing unbondings and redelegations -/

/-- The loop of `CompleteUnbonding` pays out to accounts only. -/
theorem completeUnbondingEntries_powerIndex (t : Time) (a : AccAddress) :
    ∀ (l : List UnbondingDelegationEntry) (s : State) (r : State × List UnbondingDelegationEntry),
      completeUnbondingEntries t a s l = .ok r → r.1.powerIndex = s.powerIndex :=
  completeUnbondingEntries_preserves State.powerIndex (powerIndex_UndelegateCoins _) t a

theorem CompleteUnbonding_powerIndex {hdr : Header} {del : AccAddress} {val : ValAddress}
    (h : s.CompleteUnbonding hdr del val = .ok s') : s'.powerIndex = s.powerIndex := by
  obtain ⟨ubd, s₁, entries, -, he, rfl⟩ := CompleteUnbonding_eq_ok h
  have hp₁ := completeUnbondingEntries_powerIndex _ _ _ _ _ he
  split_ifs
  · exact (powerIndex_RemoveUnbondingDelegation _ _).trans hp₁
  · exact (powerIndex_SetUnbondingDelegation _ _).trans hp₁

theorem CompleteRedelegation_powerIndex {hdr : Header} {del : AccAddress} {src dst : ValAddress}
    (h : s.CompleteRedelegation hdr del src dst = .ok s') : s'.powerIndex = s.powerIndex := by
  obtain ⟨red, -, rfl⟩ := CompleteRedelegation_eq_ok h
  split_ifs <;> rfl

/-! ### Slashing -/

/-- The loop over the entries of an unbonding delegation writes only unbonding delegations
and the pool. -/
theorem slashUnbondingEntries_powerIndex (now : Time) (ih : ℤ) (f : Dec) :
    ∀ (s : State) (ubd : UnbondingDelegation) (i : ℕ) (l : List UnbondingDelegationEntry)
      (tot : ℤ), (slashUnbondingEntries now ih f s ubd i l tot).1.powerIndex = s.powerIndex
  | s, _, _, [], _ => rfl
  | s, ubd, i, e :: rest, tot => by
    unfold slashUnbondingEntries
    dsimp only
    split_ifs
    · exact slashUnbondingEntries_powerIndex now ih f s ubd (i + 1) rest tot
    · exact slashUnbondingEntries_powerIndex now ih f s ubd (i + 1) rest _
    · rw [slashUnbondingEntries_powerIndex now ih f _ _ (i + 1) rest _, powerIndex_SetPool,
        powerIndex_SetUnbondingDelegation]

theorem slashUnbondings_powerIndex (hdr : Header) (ih : ℤ) (f : Dec) :
    ∀ (l : List UnbondingDelegation) (acc : State × ℤ),
      (l.foldl (fun (acc : State × ℤ) ubd =>
        let (s, amountSlashed) := acc.1.slashUnbondingDelegation hdr ubd ih f
        (s, acc.2 - amountSlashed)) acc).1.powerIndex = acc.1.powerIndex
  | [], _ => rfl
  | ubd :: rest, acc => by
    rw [List.foldl_cons, slashUnbondings_powerIndex hdr ih f rest]
    exact slashUnbondingEntries_powerIndex _ _ _ _ _ _ _ _

/-- The loop of `slashRedelegation`: each slashed entry unbonds at the destination, and the
burn writes the pool only. -/
theorem slashRedelegationEntries_power {now : Time} {red : Redelegation} {ih : ℤ} {f : Dec}
    (hf : 0 ≤ f.i) :
    ∀ (l : List RedelegationEntry) (s : State) (tot : ℤ) (r : State × ℤ), s.ledger.Inv →
      s.powerIndex.Inv → (∀ e ∈ l, 0 ≤ e.sharesDst.i) →
      slashRedelegationEntries now red ih f s l tot = .ok r → r.1.powerIndex.Inv
  | [], s, tot, r, _, hI, _, h => by
    simp only [slashRedelegationEntries, Except.pure_eq_ok, Except.ok_inj] at h
    rw [← h]
    exact hI
  | e :: rest, s, tot, r, hs, hI, hsd, h => by
    obtain ⟨s₁, tot₁, hrest, hs₁⟩ := slashRedelegationEntries_cons_eq_ok h
    have hsd' : ∀ e' ∈ rest, 0 ≤ e'.sharesDst.i := fun e' he' => hsd e' (List.mem_cons_of_mem e he')
    have hstep : s₁.ledger.Inv ∧ s₁.powerIndex.Inv := by
      rcases hs₁ with rfl | ⟨d, burned, s₂, hd, hu, rfl⟩
      · exact ⟨hs, hI⟩
      · have hx := slashRedelegation_shares_nonneg hs hd hf (hsd e List.mem_cons_self)
        rw [ledger_SetPool, powerIndex_SetPool]
        exact ⟨(unbond_inv hs hx hu).1, unbond_power hs hI hu⟩
    exact slashRedelegationEntries_power hf rest s₁ tot₁ r hstep.1 hstep.2 hsd' hrest

theorem slashUnbondingsAndRedelegations_power (hs : s.ledger.Inv) (hI : s.powerIndex.Inv)
    {hdr : Header} {v : Validator} {ih : ℤ} {f : Dec} {amt rem : ℤ} (hf : 0 ≤ f.i)
    (h : s.slashUnbondingsAndRedelegations hdr v ih f amt = .ok (s', rem)) :
    s'.powerIndex.Inv := by
  unfold slashUnbondingsAndRedelegations at h
  generalize hacc : (s.GetUnbondingDelegationsFromValidator v.operatorAddress).foldl _ (s, amt) = acc
    at h
  obtain ⟨s₁, rem₁⟩ := acc
  have hl₁ : s₁.ledger = s.ledger := by
    rw [← slashUnbondings_ledger hdr ih f _ (s, amt), hacc]
  have hp₁ : s₁.powerIndex = s.powerIndex := by
    rw [← slashUnbondings_powerIndex hdr ih f _ (s, amt), hacc]
  -- the redelegations: the loop keeps the ledger's invariant and the index's
  refine (Except.foldlM_invariant
    (fun acc : State × ℤ => acc.1.ledger.Inv ∧ acc.1.powerIndex.Inv)
    _ (fun acc red acc' hred hacc' hstep => ?_) (s₁, rem₁) (s', rem) ⟨hl₁ ▸ hs, hp₁ ▸ hI⟩ h).2
  obtain ⟨⟨s₂, x⟩, hr, hstep⟩ := Except.bind_eq_ok.mp hstep
  simp only [Except.pure_eq_ok, Except.ok_inj] at hstep
  subst hstep
  obtain ⟨-, hdst, hsd⟩ := mem_GetRedelegationsFromValidator (hl₁ ▸ hs) hred
  exact ⟨(slashRedelegationEntries_inv hdst hf red.entries acc.1 0 (s₂, x) hacc'.1 hsd hr).1,
    slashRedelegationEntries_power hf red.entries acc.1 0 (s₂, x) hacc'.1 hacc'.2 hsd hr⟩

/-- `Slash`: the slashing of what left the validator, then the burn of its tokens, on the
record read at the start, which the slashing leaves stored. -/
theorem Slash_power (hs : s.ledger.Inv) (hsol : Solvent s) (hI : s.powerIndex.Inv)
    {hdr : Header} {consAddr : ConsAddress} {ih power : ℤ} {f : Dec}
    (h : s.Slash hdr consAddr ih power f = .ok s') : s'.powerIndex.Inv := by
  obtain ⟨hf, ⟨-, rfl⟩ | ⟨v, hv, -, -, s₁, rem, h₁, s₂, v₂, h₂, rfl⟩⟩ := Slash_eq_ok h
  · exact hI
  obtain ⟨a, -, hva⟩ := Option.bind_eq_some_iff.mp hv
  have hop := operatorAddress_of_get hs hva
  subst hop
  obtain ⟨-, -, -, -, hv₁⟩ := Slash_before_burn_books hs hsol hf hva h₁
  have hI₁ : s₁.powerIndex.Inv := by
    split_ifs at h₁
    · exact slashUnbondingsAndRedelegations_power hs hI hf h₁
    · simp only [Except.pure_eq_ok, Except.ok_inj, Prod.mk.injEq] at h₁
      exact h₁.1 ▸ hI
  rw [powerIndex_SetPool]
  exact RemoveValidatorTokens_power hI₁ hv₁ h₂

/-! ### The end blocker -/

theorem applyValidator_power {acc acc' : ApplyAcc} {valAddr : ValAddress}
    (hI : acc.s.powerIndex.Inv) (h : applyValidator acc valAddr = .ok (some acc')) :
    acc'.s.powerIndex.Inv := by
  obtain ⟨v, hv, -, ⟨-, hnone⟩ | ⟨-, s₁, v₁, hbond, hr⟩⟩ := applyValidator_eq_ok h
  · cases hnone
  have hI₁ : s₁.powerIndex.Inv := by
    rcases hbond with ⟨-, rfl, -⟩ | ⟨-, hb⟩
    · exact hI
    · exact bondValidator_power hI (hI.get hv) hb
  rw [Option.some.injEq] at hr
  subst hr
  split_ifs
  · exact (powerIndex_SetLastValidatorPower _ _ _).symm ▸ hI₁
  · exact hI₁

theorem applyPowerIndex_power (maxValidators : ℕ) :
    ∀ (l : List (Bytes × ValAddress)) (acc acc' : ApplyAcc), acc.s.powerIndex.Inv →
      applyPowerIndex maxValidators acc l = .ok acc' → acc'.s.powerIndex.Inv
  | [], acc, acc', hI, h => by
    simp only [applyPowerIndex, Except.pure_eq_ok, Except.ok_inj] at h
    exact h ▸ hI
  | (_, valAddr) :: rest, acc, acc', hI, h => by
    unfold applyPowerIndex at h
    split_ifs at h
    · simp only [Except.pure_eq_ok, Except.ok_inj] at h
      exact h ▸ hI
    obtain ⟨r, hr, h⟩ := Except.bind_eq_ok.mp h
    cases r with
    | none =>
      simp only [Except.pure_eq_ok, Except.ok_inj] at h
      exact h ▸ hI
    | some acc₁ =>
      exact applyPowerIndex_power maxValidators rest acc₁ acc' (applyValidator_power hI hr) h

theorem unbondNoLongerBonded_power {hdr : Header} {acc acc' : State × List ValidatorUpdate}
    {a : Bytes} (hI : acc.1.powerIndex.Inv) (h : unbondNoLongerBonded hdr acc a = .ok acc') :
    acc'.1.powerIndex.Inv := by
  obtain ⟨v, s₁, v₁, hv, hb, rfl⟩ := unbondNoLongerBonded_eq_ok h
  rw [powerIndex_DeleteLastValidatorPower]
  exact beginUnbondingValidator_power hI (hI.get hv) (bondedToUnbonding_eq_ok hb)

theorem ApplyAndReturnValidatorSetUpdates_power (hI : s.powerIndex.Inv) {hdr : Header}
    {updates : List ValidatorUpdate}
    (h : s.ApplyAndReturnValidatorSetUpdates hdr = .ok (s', updates)) : s'.powerIndex.Inv := by
  obtain ⟨acc, s₁, ha, hu, rfl⟩ := ApplyAndReturnValidatorSetUpdates_eq_ok h
  have hI₁ : s₁.powerIndex.Inv :=
    Except.foldlM_invariant (fun acc : State × List ValidatorUpdate => acc.1.powerIndex.Inv) _
      (fun _ _ _ _ hacc h₂ => unbondNoLongerBonded_power hacc h₂)
      (acc.s, acc.updates) (s₁, updates) (applyPowerIndex_power _ _ _ acc hI ha) hu
  split_ifs
  · exact hI₁
  · exact (powerIndex_SetLastTotalPower _ _).symm ▸ hI₁

theorem unbondMatureValidator_power (hI : s.powerIndex.Inv) {a : ValAddress}
    (h : s.unbondMatureValidator a = .ok s') : s'.powerIndex.Inv := by
  obtain ⟨v, s₁, v₁, hv, -, hc, hr⟩ := unbondMatureValidator_eq_ok h
  have hI₁ := completeUnbondingValidator_power hI (hI.get hv) hc
  split_ifs at hr
  · exact RemoveValidator_power hI₁ hr
  · simp only [Except.pure_eq_ok, Except.ok_inj] at hr
    exact hr ▸ hI₁

theorem UnbondAllMatureValidatorQueue_power (hI : s.powerIndex.Inv) {hdr : Header}
    (h : s.UnbondAllMatureValidatorQueue hdr = .ok s') : s'.powerIndex.Inv :=
  Except.foldlM_invariant (fun s : State => s.powerIndex.Inv) _
    (fun s₁ slice s₂ _ hI₁ h₂ => by
      obtain ⟨s₃, h₃, h₂⟩ := Except.bind_eq_ok.mp h₂
      simp only [Except.pure_eq_ok, Except.ok_inj] at h₂
      subst h₂
      rw [powerIndex_DeleteValidatorQueueTimeSlice]
      exact Except.foldlM_invariant (fun s : State => s.powerIndex.Inv) _
        (fun _ _ _ _ hI₄ h₄ => unbondMatureValidator_power hI₄ h₄) s₁ s₃ hI₁ h₃)
    s s' hI h

/-! ### Handlers -/

/-- A new validator is stored under its full-length address, not jailed, with its key, and
then delegated to. -/
theorem handleMsgCreateValidator_power (hI : s.powerIndex.Inv) {msg : MsgCreateValidator}
    (hlen : msg.validatorAddress.length = AddrLen) (h : s.handleMsgCreateValidator msg = .ok s') :
    s'.powerIndex.Inv := by
  obtain ⟨hnone, -, -, sh, hdel⟩ := handleMsgCreateValidator_eq_ok h
  have hI₁ : (((s.SetValidator msg.newValidator).SetValidatorByConsAddr
      msg.newValidator).SetNewValidatorByPowerIndex msg.newValidator).powerIndex.Inv := by
    simp only [powerIndex_SetNewValidatorByPowerIndex, powerIndex_SetValidatorByConsAddr,
      powerIndex_SetValidator]
    exact hI.create hnone hlen rfl
  exact Delegate_power hI₁ (SortedMap.get?_insert_self _ _ _) hdel

/-- An edit keeps the record's power key and jail. -/
theorem handleMsgEditValidator_power (hI : s.powerIndex.Inv) {msg : MsgEditValidator}
    (h : s.handleMsgEditValidator msg = .ok s') : s'.powerIndex.Inv := by
  obtain ⟨v, hv, m, rfl⟩ := handleMsgEditValidator_eq_ok h
  rw [powerIndex_SetValidator]
  exact hI.setValidator_same (hI.get hv) rfl rfl rfl

theorem handleMsgDelegate_power (hI : s.powerIndex.Inv) {msg : MsgDelegate}
    (h : s.handleMsgDelegate msg = .ok s') : s'.powerIndex.Inv := by
  obtain ⟨v, hv, -, sh, hdel⟩ := handleMsgDelegate_eq_ok h
  exact Delegate_power hI (hI.get hv) hdel

end State

/-! ### The state machine -/

/-- Every step keeps the power index exact, on a state whose share ledger and books have
their invariants. -/
theorem Step_power {s s' : State} (hs : s.ledger.Inv) (hsup : SupplyInv s)
    (hI : s.powerIndex.Inv) (h : Step s s') : s'.powerIndex.Inv := by
  obtain ⟨hdr, a, ha, h⟩ := h
  cases a with
  | createValidator msg =>
    -- the validator's address is the delegator's, the address of a signing key
    have hlen : msg.validatorAddress.length = AddrLen := by
      rw [(msg.ValidateBasic_eq_ok ha.1).2.2.1]
      refine ha.2 _ ?_
      unfold MsgCreateValidator.GetSigners
      split_ifs <;> simp
    exact State.handleMsgCreateValidator_power hI hlen h
  | editValidator msg => exact State.handleMsgEditValidator_power hI h
  | delegate msg => exact State.handleMsgDelegate_power hI h
  | undelegate msg =>
    obtain ⟨⟨s₁, t⟩, hu, rfl⟩ := Except.map_eq_ok.mp h
    obtain ⟨x, -, hun⟩ := State.handleMsgUndelegate_eq_ok hu
    exact State.Undelegate_power hs hI hun
  | beginRedelegate msg =>
    obtain ⟨⟨s₁, t⟩, hb, rfl⟩ := Except.map_eq_ok.mp h
    obtain ⟨x, -, hbr⟩ := State.handleMsgBeginRedelegate_eq_ok hb
    exact State.BeginRedelegation_power hs hI hbr
  | slash consAddr infractionHeight power slashFactor =>
    exact State.Slash_power hs hsup.toSolvent hI h
  | jail consAddr =>
    obtain ⟨v, hv, hj⟩ := Except.bind_eq_ok.mp h
    obtain ⟨a, hva⟩ := State.GetValidator_of_mustGetValidatorByConsAddr _ hv
    exact State.jailValidator_power hI (hI.get hva) hj
  | unjail consAddr =>
    obtain ⟨v, hv, hj⟩ := Except.bind_eq_ok.mp h
    obtain ⟨a, hva⟩ := State.GetValidator_of_mustGetValidatorByConsAddr _ hv
    exact State.unjailValidator_power hI (hI.get hva) hj
  | completeUnbonding delAddr valAddr => exact (State.CompleteUnbonding_powerIndex h).symm ▸ hI
  | completeRedelegation delAddr valSrcAddr valDstAddr =>
    exact (State.CompleteRedelegation_powerIndex h).symm ▸ hI
  | applyAndReturnValidatorSetUpdates =>
    obtain ⟨⟨s₁, u⟩, hu, rfl⟩ := Except.map_eq_ok.mp h
    exact State.ApplyAndReturnValidatorSetUpdates_power hI hu
  | unbondAllMatureValidatorQueue => exact State.UnbondAllMatureValidatorQueue_power hI h

/-- The three invariants along every run. -/
theorem powerInv_of_run {s s' : State} (hs : s.ledger.Inv) (hsup : SupplyInv s)
    (hI : s.powerIndex.Inv) (hrun : Relation.ReflTransGen Step s s') :
    (s'.ledger.Inv ∧ SupplyInv s') ∧ s'.powerIndex.Inv :=
  Transition.invariant_of_and (fun s : State => s.ledger.Inv ∧ SupplyInv s)
    (fun s : State => s.powerIndex.Inv)
    (fun _ _ hs h => ⟨Step_inv hs.1 h, Step_supply hs.1 hs.2 h⟩)
    (fun _ _ hs hI h => Step_power hs.1 hs.2 hI h) hrun ⟨hs, hsup⟩ hI

theorem fundedGenesis_power (params : Params) (accounts : SortedMap AccAddress ℤ) :
    (fundedGenesis params accounts).powerIndex.Inv :=
  PowerIndex.inv_empty

/-- Along every run from a funded genesis state, the power index holds exactly one entry for
each validator that is not jailed, under the key of its stored record and holding its
address, and no other entry. -/
theorem powerIndexConsistent_of_run {params : Params} {accounts : SortedMap AccAddress ℤ}
    {s : State} (hacc : ∀ a c, accounts.get? a = some c → 0 ≤ c)
    (hrun : Relation.ReflTransGen Step (fundedGenesis params accounts) s) :
    s.PowerIndexConsistent :=
  State.powerIndexConsistent_of_inv (powerInv_of_run (fundedGenesis_inv params accounts)
    (fundedGenesis_supplyInv hacc) (fundedGenesis_power params accounts) hrun).2

theorem powerIndexConsistent_of_run_createValidator :
    ∃ s', Relation.ReflTransGen Step
      (fundedGenesis ⟨0, 1, 7, "stake"⟩ ((∅ : SortedMap AccAddress ℤ).insert (List.replicate AddrLen 4) 10))
      s' ∧ s'.PowerIndexConsistent := by
  have hacc : ∀ a c, ((∅ : SortedMap AccAddress ℤ).insert (List.replicate AddrLen 4) 10).get? a =
      some c → 0 ≤ c := by
    intro a c h
    rw [SortedMap.get?_insert] at h
    split_ifs at h
    · cases h
      decide
    · cases h
  have hstep : Step
      (fundedGenesis ⟨0, 1, 7, "stake"⟩ ((∅ : SortedMap AccAddress ℤ).insert (List.replicate AddrLen 4) 10))
      _ :=
    ⟨⟨0, 0⟩, .createValidator ⟨List.replicate AddrLen 4, List.replicate AddrLen 4, ⟨[7], [8]⟩,
      ⟨"stake", 5⟩, 1⟩, ⟨rfl, by decide⟩, rfl⟩
  exact ⟨_, .single hstep, powerIndexConsistent_of_run hacc (.single hstep)⟩

end CosmosSdk.Staking
