import CosmosSdk.Staking.Handler
import Mathlib.Algebra.Order.Field.Rat

/-!
# The commission of a validator

`types/commission.go`, `Keeper.UpdateValidatorCommission` and the commission parts of
`handleMsgCreateValidator` and `handleMsgEditValidator`.  The validator record of `Types`
leaves the commission out; here it is carried beside the staking state, and the two handlers
are extended with it (`handleMsgCreateValidatorCommission`,
`handleMsgEditValidatorCommission`): they write it only when the handler of `Handler`
returns, and nothing else in the keeper writes it.

A validator is created with rates that pass `CommissionRates.Validate` and with
`UpdateTime` the block time.  An edit asking for a new rate passes `ValidateNewRate` only 24
hours after `UpdateTime`, below `MaxRate` and at most `MaxChangeRate` above the current rate,
and then moves `UpdateTime` to the block time.  `EditEvent` is one edit as the commission sees
it, and `commissionAt` the commission after the edits up to a block time:

* `Commission.Valid.commissionAt`: the maximum rates never change and the rate stays in
  `[0, MaxRate]`;
* `changeTimes_isChain`: accepted changes are at least 24 hours apart, the first 24 hours
  after creation;
* `rate_rise_le`: over block times `(t₁, t₂]` the rate rises by at most `MaxChangeRate`
  for each whole day, and one more.

The 24-hour check is `blockTime.Sub(UpdateTime).Hours() < 24`: `Time.Sub` saturates at the
range of `int64` and `Duration.Hours` is a `float64`, taken here exactly (`Duration.Hours`);
the check is `blockTime < UpdateTime + 24h` either way (`Hours_Sub_lt_iff`).
-/

namespace CosmosSdk.Staking

/-- `CommissionRates`. -/
structure CommissionRates where
  Rate : Dec
  MaxRate : Dec
  MaxChangeRate : Dec
  deriving DecidableEq, Repr

/-- `Commission`: the rates and the last time the rate changed. -/
structure Commission extends CommissionRates where
  UpdateTime : Time
  deriving DecidableEq, Repr

/-- `NewCommissionWithTime`. -/
def NewCommissionWithTime (rate maxRate maxChangeRate : Dec) (updatedAt : Time) : Commission :=
  { Rate := rate, MaxRate := maxRate, MaxChangeRate := maxChangeRate, UpdateTime := updatedAt }

/-- `CommissionRates.Validate`. -/
def CommissionRates.Validate (c : CommissionRates) : Except Err Unit :=
  if c.MaxRate < 0 then throw .commissionNegative
  else if c.MaxRate > Dec.one then throw .commissionHuge
  else if c.Rate < 0 then throw .commissionNegative
  else if c.Rate > c.MaxRate then throw .commissionGTMaxRate
  else if c.MaxChangeRate < 0 then throw .commissionChangeRateNegative
  else if c.MaxChangeRate > c.MaxRate then throw .commissionChangeRateGTMaxRate
  else pure ()

/-- `time.Hour`. -/
def Hour : Duration := 3600 * 10 ^ 9

/-- `Time.Sub`: `t - u`, saturated to the range of `int64`. -/
def Time.Sub (t u : Time) : Duration := max (-2 ^ 63) (min (2 ^ 63 - 1) (t - u))

/-- `Duration.Hours`: the whole hours plus the rest as a fraction of an hour, both by Go's
division toward zero.  Go adds them in `float64`; they are added here exactly.  Below 24 hours
the fraction stays below `1 - 2·10^-13`, far above the spacing of doubles near 24, so the
double is below 24 exactly when the exact sum is. -/
def Duration.Hours (d : Duration) : ℚ := (d.tdiv Hour : ℚ) + (d.tmod Hour : ℚ) / (Hour : ℚ)

/-- `Commission.ValidateNewRate`. -/
def Commission.ValidateNewRate (c : Commission) (newRate : Dec) (blockTime : Time) :
    Except Err Unit :=
  if Duration.Hours (Time.Sub blockTime c.UpdateTime) < 24 then throw .commissionUpdateTime
  else if newRate < 0 then throw .commissionNegative
  else if newRate > c.MaxRate then throw .commissionGTMaxRate
  else if newRate - c.Rate > c.MaxChangeRate then throw .commissionGTMaxChangeRate
  else pure ()

/-- `Keeper.UpdateValidatorCommission`, on the validator's commission. -/
def UpdateValidatorCommission (hdr : Header) (commission : Commission) (newRate : Dec) :
    Except Err Commission := do
  commission.ValidateNewRate newRate hdr.time
  pure { commission with Rate := newRate, UpdateTime := hdr.time }

/-- `Validator.SetInitialCommission`, on the commission. -/
def SetInitialCommission (commission : Commission) : Except Err Commission := do
  commission.Validate
  pure commission

namespace State

/-- `handleMsgCreateValidator` with the commission, which is validated after the denomination
and before the validator is stored. -/
def handleMsgCreateValidatorCommission (s : State) (hdr : Header) (msg : MsgCreateValidator)
    (rates : CommissionRates) : Except Fault (State × Commission) := do
  if (s.GetValidator msg.validatorAddress).isSome then throw (.err .validatorOwnerExists)
  if (s.GetValidatorByConsAddr msg.pubKey.address).isSome then
    throw (.err .validatorPubKeyExists)
  if msg.value.denom ≠ s.params.bondDenom then throw (.err .badDenom)
  let commission := NewCommissionWithTime rates.Rate rates.MaxRate rates.MaxChangeRate hdr.time
  let commission ← (SetInitialCommission commission).mapError .err
  let s ← s.handleMsgCreateValidator msg
  pure (s, commission)

/-- `handleMsgEditValidator` with the validator's commission `commission`: a new rate goes
through `UpdateValidatorCommission` before the minimum self-delegation is checked. -/
def handleMsgEditValidatorCommission (s : State) (hdr : Header) (commission : Commission)
    (msg : MsgEditValidator) (commissionRate : Option Dec) : Except Fault (State × Commission) := do
  let some _ := s.GetValidator msg.validatorAddress | throw (.err .noValidatorFound)
  let commission ← match commissionRate with
    | none => pure commission
    | some rate => (UpdateValidatorCommission hdr commission rate).mapError .err
  let s ← s.handleMsgEditValidator msg
  pure (s, commission)

end State

/-! ### The checks -/

theorem Hour_pos : 0 < Hour := by decide

theorem Duration.Hours_eq (d : Duration) : Duration.Hours d = (d : ℚ) / Hour := by
  have hH : (Hour : ℚ) ≠ 0 := by exact_mod_cast Hour_pos.ne'
  have hd : Hour * d.tdiv Hour + d.tmod Hour = d := Int.mul_tdiv_add_tmod d Hour
  rw [eq_div_iff hH, Duration.Hours, add_mul, div_mul_cancel₀ _ hH]
  exact_mod_cast (show d.tdiv Hour * Hour + d.tmod Hour = d by rw [mul_comm]; exact hd)

theorem Time.Sub_lt_iff (t u : Time) : Time.Sub t u < 24 * Hour ↔ t < u + 24 * Hour := by
  have hlo : (-2 ^ 63 : ℤ) < 24 * Hour := by decide
  have hhi : (24 * Hour : ℤ) ≤ 2 ^ 63 - 1 := by decide
  unfold Time.Sub
  rw [max_lt_iff, min_lt_iff]
  constructor
  · rintro ⟨-, h | h⟩
    · exact absurd h (not_lt.mpr hhi)
    · linarith
  · intro h
    exact ⟨hlo, .inr (by linarith)⟩

/-- The 24-hour check of `ValidateNewRate`. -/
theorem Hours_Sub_lt_iff (t u : Time) :
    Duration.Hours (Time.Sub t u) < 24 ↔ t < u + 24 * Hour := by
  have hH : (0 : ℚ) < Hour := by exact_mod_cast Hour_pos
  rw [Duration.Hours_eq, div_lt_iff₀ hH, ← Time.Sub_lt_iff]
  exact_mod_cast Iff.rfl

theorem CommissionRates.Validate_eq_ok {c : CommissionRates} :
    c.Validate = .ok () ↔
      0 ≤ c.MaxRate ∧ c.MaxRate ≤ Dec.one ∧ 0 ≤ c.Rate ∧ c.Rate ≤ c.MaxRate ∧
        0 ≤ c.MaxChangeRate ∧ c.MaxChangeRate ≤ c.MaxRate := by
  unfold Validate
  simp only [Except.throw_eq_error, Except.ite_error_eq_ok, Except.pure_eq_ok, gt_iff_lt, not_lt,
    and_true]

theorem Commission.ValidateNewRate_eq_ok {c : Commission} {newRate : Dec} {blockTime : Time} :
    c.ValidateNewRate newRate blockTime = .ok () ↔
      c.UpdateTime + 24 * Hour ≤ blockTime ∧ 0 ≤ newRate ∧ newRate ≤ c.MaxRate ∧
        newRate - c.Rate ≤ c.MaxChangeRate := by
  unfold ValidateNewRate
  simp only [Hours_Sub_lt_iff, Except.throw_eq_error, Except.ite_error_eq_ok, Except.pure_eq_ok,
    gt_iff_lt, not_lt, and_true]

/-- An accepted new rate: a day after the last change, within the bounds, and stamped with the
block time. -/
theorem UpdateValidatorCommission_eq_ok {hdr : Header} {c c' : Commission} {newRate : Dec} :
    UpdateValidatorCommission hdr c newRate = .ok c' ↔
      (c.UpdateTime + 24 * Hour ≤ hdr.time ∧ 0 ≤ newRate ∧ newRate ≤ c.MaxRate ∧
        newRate - c.Rate ≤ c.MaxChangeRate) ∧
      c' = { c with Rate := newRate, UpdateTime := hdr.time } := by
  unfold UpdateValidatorCommission
  rw [Except.bind_eq_ok]
  constructor
  · rintro ⟨⟨⟩, hv, h⟩
    exact ⟨Commission.ValidateNewRate_eq_ok.1 hv, (Except.ok.inj h).symm⟩
  · rintro ⟨hv, rfl⟩
    exact ⟨(), Commission.ValidateNewRate_eq_ok.2 hv, rfl⟩

/-! ### The handlers -/

namespace State

variable {s s' : State} {hdr : Header}

/-- A created validator's commission is its valid rates, stamped with the block time. -/
theorem handleMsgCreateValidatorCommission_eq_ok {msg : MsgCreateValidator}
    {rates : CommissionRates} {c : Commission}
    (h : s.handleMsgCreateValidatorCommission hdr msg rates = .ok (s', c)) :
    s.handleMsgCreateValidator msg = .ok s' ∧ rates.Validate = .ok () ∧
      c = NewCommissionWithTime rates.Rate rates.MaxRate rates.MaxChangeRate hdr.time := by
  unfold handleMsgCreateValidatorCommission at h
  simp only [Except.throw_eq_error, Except.error_bind, Except.ite_error_eq_ok] at h
  obtain ⟨-, -, -, h⟩ := h
  obtain ⟨c₁, hc₁, h⟩ := Except.bind_eq_ok.1 h
  obtain ⟨s₁, hs₁, h⟩ := Except.bind_eq_ok.1 h
  obtain ⟨rfl, rfl⟩ := Prod.mk.inj (Except.ok.inj h)
  -- `SetInitialCommission` returned the commission it was given
  rw [Except.mapError_eq_ok] at hc₁
  obtain ⟨⟨⟩, hv, hc⟩ := Except.bind_eq_ok.1 hc₁
  exact ⟨hs₁, hv, (Except.ok.inj hc).symm⟩

end State

/-- One `MsgEditValidator` of a validator as its commission sees it: the block header, the
rate asked for, if any, and whether the rest of the handler (`handleMsgEditValidator`)
returns. -/
structure EditEvent where
  hdr : Header
  commissionRate : Option Dec
  othersPass : Bool
  deriving DecidableEq, Repr

namespace EditEvent

/-- The commission after the message: the updated one when the new rate is accepted and the
rest of the handler returns; otherwise the message is discarded with its writes. -/
def apply (c : Commission) (e : EditEvent) : Commission :=
  match e.commissionRate with
  | none => c
  | some rate =>
    match UpdateValidatorCommission e.hdr c rate with
    | .ok c' => if e.othersPass then c' else c
    | .error _ => c

/-- Whether the message changes the commission. -/
def updates (c : Commission) (e : EditEvent) : Bool :=
  match e.commissionRate with
  | none => false
  | some rate => (UpdateValidatorCommission e.hdr c rate).isOk && e.othersPass

/-- A message either leaves the commission or updates it by `UpdateValidatorCommission`. -/
theorem apply_cases (c : Commission) (e : EditEvent) :
    (e.updates c = false ∧ e.apply c = c) ∨
      (e.updates c = true ∧ ∃ rate, e.commissionRate = some rate ∧
        UpdateValidatorCommission e.hdr c rate = .ok (e.apply c)) := by
  rcases e with ⟨hdr, _ | rate, othersPass⟩
  · exact .inl ⟨rfl, rfl⟩
  · simp only [apply, updates]
    cases hu : UpdateValidatorCommission hdr c rate with
    | error err => exact .inl ⟨rfl, rfl⟩
    | ok c' =>
      cases othersPass with
      | false => exact .inl ⟨rfl, rfl⟩
      | true => exact .inr ⟨rfl, rate, rfl, hu⟩

/-- A message whose handler does not return leaves the commission. -/
theorem apply_of_othersPass_false {c : Commission} {e : EditEvent} (h : e.othersPass = false) :
    e.apply c = c := by
  rcases e with ⟨hdr, _ | rate, othersPass⟩
  · rfl
  · subst h
    simp only [apply]
    cases UpdateValidatorCommission hdr c rate <;> rfl

end EditEvent

/-- The commission after an edit message as the node keeps it: the handler's, when it
returns; `runMsgs` discards the writes of a message that does not. -/
def commissionAfterEdit (s : State) (hdr : Header) (c : Commission) (msg : MsgEditValidator)
    (commissionRate : Option Dec) : Commission :=
  match s.handleMsgEditValidatorCommission hdr c msg commissionRate with
  | .ok (_, c') => c'
  | .error _ => c

/-- An edit message is the `EditEvent` whose other checks are those of the handler of
`Handler`. -/
theorem commissionAfterEdit_eq (s : State) (hdr : Header) (c : Commission)
    (msg : MsgEditValidator) (commissionRate : Option Dec) :
    commissionAfterEdit s hdr c msg commissionRate =
      EditEvent.apply c ⟨hdr, commissionRate, (s.handleMsgEditValidator msg).isOk⟩ := by
  unfold commissionAfterEdit State.handleMsgEditValidatorCommission
  cases hv : s.GetValidator msg.validatorAddress with
  | none =>
    -- the handler of `Handler` fails on the missing validator as well
    have hbase : s.handleMsgEditValidator msg = .error (.err .noValidatorFound) := by
      simp [State.handleMsgEditValidator, hv]
    rw [hbase, EditEvent.apply_of_othersPass_false rfl]
    rfl
  | some v =>
    -- the commission is written when the update and the rest of the handler both return
    cases commissionRate with
    | none => cases s.handleMsgEditValidator msg <;> rfl
    | some rate =>
      simp only [EditEvent.apply]
      cases UpdateValidatorCommission hdr c rate <;> cases s.handleMsgEditValidator msg <;> rfl

/-! ### The commission over its edits -/

/-- The commission after the edits of `edits` at block times up to `t`, from `c₀`. -/
def commissionAt (c₀ : Commission) (edits : List EditEvent) (t : Time) : Commission :=
  (edits.filter fun e => e.hdr.time ≤ t).foldl EditEvent.apply c₀

/-- The block times at which the edits of `edits` change the commission, from `c₀`. -/
def changeTimes : Commission → List EditEvent → List Time
  | _, [] => []
  | c, e :: edits => (if e.updates c then [e.hdr.time] else []) ++ changeTimes (e.apply c) edits

/-- What a commission created from valid rates keeps. -/
structure Commission.Valid (rates : CommissionRates) (c : Commission) : Prop where
  maxRate : c.MaxRate = rates.MaxRate
  maxChangeRate : c.MaxChangeRate = rates.MaxChangeRate
  rate_nonneg : 0 ≤ c.Rate
  rate_le : c.Rate ≤ c.MaxRate

namespace Commission.Valid

variable {rates : CommissionRates}

theorem newCommission (h : rates.Validate = .ok ()) (t₀ : Time) :
    (NewCommissionWithTime rates.Rate rates.MaxRate rates.MaxChangeRate t₀).Valid rates := by
  obtain ⟨-, -, hr, hle, -, -⟩ := CommissionRates.Validate_eq_ok.1 h
  exact ⟨rfl, rfl, hr, hle⟩

theorem apply {c : Commission} (h : c.Valid rates) (e : EditEvent) : (e.apply c).Valid rates := by
  rcases e.apply_cases c with ⟨-, happly⟩ | ⟨-, rate, -, hupd⟩
  · rwa [happly]
  · -- an accepted rate is within `[0, MaxRate]`, and the maximum rates are kept
    obtain ⟨⟨-, hr, hle, -⟩, heq⟩ := UpdateValidatorCommission_eq_ok.1 hupd
    rw [heq]
    exact ⟨h.maxRate, h.maxChangeRate, hr, hle⟩

theorem foldl {c : Commission} (h : c.Valid rates) (edits : List EditEvent) :
    (edits.foldl EditEvent.apply c).Valid rates := by
  induction edits generalizing c with
  | nil => exact h
  | cons e edits ih => exact ih (h.apply e)

theorem commissionAt {c₀ : Commission} (h : c₀.Valid rates) (edits : List EditEvent) (t : Time) :
    (commissionAt c₀ edits t).Valid rates :=
  h.foldl _

end Commission.Valid

/-- Each accepted change comes a day after the one before, the first a day after the
commission's `UpdateTime`. -/
theorem changeTimes_isChain (c : Commission) (edits : List EditEvent) :
    (c.UpdateTime :: changeTimes c edits).IsChain fun a b => a + 24 * Hour ≤ b := by
  induction edits generalizing c with
  | nil => exact List.IsChain.singleton _
  | cons e edits ih =>
    rcases e.apply_cases c with ⟨hno, happly⟩ | ⟨hyes, rate, -, hupd⟩
    · simp only [changeTimes, hno, Bool.false_eq_true, if_false, List.nil_append]
      rw [happly]
      exact ih c
    · -- the change is a day after `UpdateTime`, and the next ones are a day after it
      obtain ⟨⟨hday, -⟩, heq⟩ := UpdateValidatorCommission_eq_ok.1 hupd
      have hrest := ih (e.apply c)
      simp only [changeTimes, hyes, if_true, List.singleton_append]
      rw [heq] at hrest ⊢
      exact List.isChain_cons_cons.2 ⟨hday, hrest⟩

/-- The changes are pairwise a day apart, and a day after `UpdateTime`. -/
theorem changeTimes_pairwise (c : Commission) (edits : List EditEvent) :
    (c.UpdateTime :: changeTimes c edits).Pairwise fun a b => a + 24 * Hour ≤ b := by
  have htrans : Trans (fun a b : Time => a + 24 * Hour ≤ b) (fun a b => a + 24 * Hour ≤ b)
      (fun a b => a + 24 * Hour ≤ b) :=
    ⟨fun {a b c} (h₁ : a + 24 * Hour ≤ b) (h₂ : b + 24 * Hour ≤ c) =>
      show a + 24 * Hour ≤ c by have := Hour_pos; linarith⟩
  exact List.isChain_iff_pairwise.1 (changeTimes_isChain c edits)

/-! ### The rise of the rate over a window -/

/-- The edits up to `t₂` of edits in order of block time are those up to `t₁` followed by
those in `(t₁, t₂]`. -/
theorem filter_time_split {edits : List EditEvent}
    (hsorted : (edits.map fun e => e.hdr.time).Pairwise (· ≤ ·)) {t₁ t₂ : Time} (ht : t₁ ≤ t₂) :
    edits.filter (fun e => e.hdr.time ≤ t₂) =
      edits.filter (fun e => e.hdr.time ≤ t₁) ++
        edits.filter (fun e => t₁ < e.hdr.time ∧ e.hdr.time ≤ t₂) := by
  induction edits with
  | nil => rfl
  | cons e edits ih =>
    rw [List.map_cons, List.pairwise_cons] at hsorted
    obtain ⟨hafter, hsorted⟩ := hsorted
    have hlater : ∀ e' ∈ edits, e.hdr.time ≤ e'.hdr.time := fun e' he' =>
      hafter _ (List.mem_map_of_mem he')
    by_cases h₁ : e.hdr.time ≤ t₁
    · -- `e` is before the window
      simp [h₁, le_trans h₁ ht, not_lt.mpr h₁, ih hsorted]
    · -- `e` and all later edits are after `t₁`
      have hnone : edits.filter (fun e' => e'.hdr.time ≤ t₁) = [] :=
        List.filter_eq_nil_iff.2 fun e' he' => by
          simp only [decide_eq_true_eq, not_le]
          exact lt_of_lt_of_le (not_le.mp h₁) (hlater e' he')
      have hsame : edits.filter (fun e' => e'.hdr.time ≤ t₂) =
          edits.filter (fun e' => t₁ < e'.hdr.time ∧ e'.hdr.time ≤ t₂) :=
        List.filter_congr fun e' he' => by
          have hlt : t₁ < e'.hdr.time := lt_of_lt_of_le (not_le.mp h₁) (hlater e' he')
          simp only [decide_eq_decide]
          exact ⟨fun h => ⟨hlt, h⟩, fun h => h.2⟩
      simp [List.filter_cons, h₁, hnone, hsame, not_le.mp h₁]

/-- After the edits of a window `(t₁, t₂]` so far, `c'` is `k` accepted changes above `c`: the
rate rose by at most `k · MaxChangeRate`, and when `k > 0` the changes, a day apart and the
first after `t₁`, end at `c'.UpdateTime ≤ t₂`. -/
def RiseBound (c : Commission) (t₁ t₂ : Time) (c' : Commission) (k : ℕ) : Prop :=
  c'.MaxChangeRate = c.MaxChangeRate ∧ (c'.Rate - c.Rate).i ≤ k * c.MaxChangeRate.i ∧
    (k = 0 ∨ (t₁ + k * (24 * Hour) ≤ c'.UpdateTime + 24 * Hour ∧ c'.UpdateTime ≤ t₂))

theorem RiseBound.apply {c c' : Commission} {t₁ t₂ : Time} {k : ℕ}
    (h : RiseBound c t₁ t₂ c' k) {e : EditEvent} (he : t₁ < e.hdr.time ∧ e.hdr.time ≤ t₂) :
    ∃ k', RiseBound c t₁ t₂ (e.apply c') k' := by
  obtain ⟨hM, hrise, hk⟩ := h
  rcases e.apply_cases c' with ⟨-, happly⟩ | ⟨-, rate, -, hupd⟩
  · exact ⟨k, by rw [happly]; exact ⟨hM, hrise, hk⟩⟩
  · -- one more change, a day after the last and inside the window
    obtain ⟨⟨hday, -, -, hstep⟩, heq⟩ := UpdateValidatorCommission_eq_ok.1 hupd
    rw [heq]
    refine ⟨k + 1, hM, ?_, .inr ⟨?_, he.2⟩⟩
    · rw [Dec.le_iff, Dec.sub_i] at hstep
      simp only [Dec.sub_i] at hrise ⊢
      push_cast
      rw [hM] at hstep
      linarith
    · dsimp only
      rcases hk with rfl | ⟨hfirst, -⟩
      · simp only [zero_add, Nat.cast_one, one_mul]
        linarith [he.1]
      · push_cast
        linarith

theorem RiseBound.foldl {c : Commission} {t₁ t₂ : Time} :
    ∀ (edits : List EditEvent) {c' : Commission} {k : ℕ},
      (∀ e ∈ edits, t₁ < e.hdr.time ∧ e.hdr.time ≤ t₂) → RiseBound c t₁ t₂ c' k →
        ∃ k', RiseBound c t₁ t₂ (edits.foldl EditEvent.apply c') k'
  | [], _, k, _, h => ⟨k, h⟩
  | e :: edits, _, _, hwin, h => by
    obtain ⟨k', h'⟩ := h.apply (hwin e List.mem_cons_self)
    exact RiseBound.foldl edits (fun e' he' => hwin e' (List.mem_cons_of_mem e he')) h'

/-- `k` changes a day apart inside `(t₁, t₂]` are at most the whole days of the window and
one more. -/
theorem RiseBound.le {c c' : Commission} {t₁ t₂ : Time} {k : ℕ} (hM : 0 ≤ c.MaxChangeRate)
    (ht : t₁ ≤ t₂) (h : RiseBound c t₁ t₂ c' k) :
    c'.Rate - c.Rate ≤ c.MaxChangeRate.mulInt ((t₂ - t₁) / (24 * Hour) + 1) := by
  obtain ⟨-, hrise, hk⟩ := h
  have hM' : 0 ≤ c.MaxChangeRate.i := hM
  have hdays : 0 ≤ (t₂ - t₁) / (24 * Hour) := Int.ediv_nonneg (sub_nonneg.mpr ht) (by decide)
  -- the number of changes is at most the days and one
  have hcount : (k : ℤ) ≤ (t₂ - t₁) / (24 * Hour) + 1 := by
    rcases hk with rfl | ⟨hfirst, hlast⟩
    · simp only [Nat.cast_zero]
      linarith
    · have hle : ((k : ℤ) - 1) * (24 * Hour) ≤ t₂ - t₁ := by linarith
      have := (Int.le_ediv_iff_mul_le (by decide)).2 hle
      linarith
  rw [Dec.le_iff, Dec.mulInt_i]
  calc (c'.Rate - c.Rate).i ≤ k * c.MaxChangeRate.i := hrise
    _ ≤ ((t₂ - t₁) / (24 * Hour) + 1) * c.MaxChangeRate.i := mul_le_mul_of_nonneg_right hcount hM'
    _ = c.MaxChangeRate.i * ((t₂ - t₁) / (24 * Hour) + 1) := mul_comm _ _

/-- Over the edits of a window `(t₁, t₂]`, the rate rises by at most `MaxChangeRate` for each
whole day of the window, and one more. -/
theorem rate_rise_le {c : Commission} (hM : 0 ≤ c.MaxChangeRate) {t₁ t₂ : Time} (ht : t₁ ≤ t₂)
    (edits : List EditEvent) (hwin : ∀ e ∈ edits, t₁ < e.hdr.time ∧ e.hdr.time ≤ t₂) :
    (edits.foldl EditEvent.apply c).Rate - c.Rate ≤
      c.MaxChangeRate.mulInt ((t₂ - t₁) / (24 * Hour) + 1) := by
  have hstart : RiseBound c t₁ t₂ c 0 := ⟨rfl, by simp, .inl rfl⟩
  obtain ⟨k, hk⟩ := RiseBound.foldl edits hwin hstart
  exact hk.le hM ht

theorem commission_changes_rate_limited (rates : CommissionRates) (hvalid : rates.Validate = .ok ())
    (t₀ : Time) (edits : List EditEvent)
    (hsorted : (edits.map fun e => e.hdr.time).Pairwise (· ≤ ·)) :
    let c₀ := NewCommissionWithTime rates.Rate rates.MaxRate rates.MaxChangeRate t₀
    (∀ t, (commissionAt c₀ edits t).MaxRate = rates.MaxRate ∧
      (commissionAt c₀ edits t).MaxChangeRate = rates.MaxChangeRate ∧
      0 ≤ (commissionAt c₀ edits t).Rate ∧
      (commissionAt c₀ edits t).Rate ≤ (commissionAt c₀ edits t).MaxRate) ∧
    (t₀ :: changeTimes c₀ edits).Pairwise (fun a b => a + 24 * Hour ≤ b) ∧
    ∀ t₁ t₂, t₁ ≤ t₂ →
      (commissionAt c₀ edits t₂).Rate - (commissionAt c₀ edits t₁).Rate ≤
        rates.MaxChangeRate.mulInt ((t₂ - t₁) / (24 * Hour) + 1) := by
  intro c₀
  have hc₀ : c₀.Valid rates := Commission.Valid.newCommission hvalid t₀
  refine ⟨fun t => ?_, changeTimes_pairwise c₀ edits, fun t₁ t₂ ht => ?_⟩
  · have hv := hc₀.commissionAt edits t
    exact ⟨hv.maxRate, hv.maxChangeRate, hv.rate_nonneg, hv.rate_le⟩
  · -- the rate at `t₂` continues from the rate at `t₁` over the edits of `(t₁, t₂]`
    have hv := hc₀.commissionAt edits t₁
    have hM : 0 ≤ (commissionAt c₀ edits t₁).MaxChangeRate := by
      rw [hv.maxChangeRate]
      exact (CommissionRates.Validate_eq_ok.1 hvalid).2.2.2.2.1
    have hwin : ∀ e ∈ edits.filter (fun e => t₁ < e.hdr.time ∧ e.hdr.time ≤ t₂),
        t₁ < e.hdr.time ∧ e.hdr.time ≤ t₂ := fun e he => by
      simpa using (List.mem_filter.1 he).2
    have hrise := rate_rise_le hM ht _ hwin
    rw [hv.maxChangeRate] at hrise
    unfold commissionAt at hrise ⊢
    rwa [filter_time_split hsorted ht, List.foldl_append]

theorem commission_changes_rate_limited_two_edits :
    let rates : CommissionRates :=
      ⟨Dec.newDecWithPrec 10 2, Dec.newDecWithPrec 20 2, Dec.newDecWithPrec 1 2⟩
    let edits : List EditEvent :=
      [⟨⟨2, 24 * Hour⟩, some (Dec.newDecWithPrec 11 2), true⟩,
        ⟨⟨3, 36 * Hour⟩, some (Dec.newDecWithPrec 12 2), true⟩]
    let c₀ := NewCommissionWithTime rates.Rate rates.MaxRate rates.MaxChangeRate 0
    rates.Validate = .ok () ∧ (edits.map fun e => e.hdr.time).Pairwise (· ≤ ·) ∧
      (∀ t, (commissionAt c₀ edits t).MaxRate = rates.MaxRate ∧
        (commissionAt c₀ edits t).MaxChangeRate = rates.MaxChangeRate ∧
        0 ≤ (commissionAt c₀ edits t).Rate ∧
        (commissionAt c₀ edits t).Rate ≤ (commissionAt c₀ edits t).MaxRate) ∧
      ((0 : Time) :: changeTimes c₀ edits).Pairwise (fun a b => a + 24 * Hour ≤ b) ∧
      ∀ t₁ t₂, t₁ ≤ t₂ →
        (commissionAt c₀ edits t₂).Rate - (commissionAt c₀ edits t₁).Rate ≤
          rates.MaxChangeRate.mulInt ((t₂ - t₁) / (24 * Hour) + 1) := by
  intro rates edits c₀
  have hvalid : rates.Validate = .ok () := by decide
  have hsorted : (edits.map fun e => e.hdr.time).Pairwise (· ≤ ·) := by decide
  exact ⟨hvalid, hsorted, commission_changes_rate_limited rates hvalid 0 edits hsorted⟩

end CosmosSdk.Staking
