import CosmosSdk.Staking.Types
import Mathlib.Tactic.Ring
import Mathlib.Tactic.Positivity
import Mathlib.Tactic.GCongr

/-!
# The exchange rate of a validator's shares

A validator holds `T` tokens against `S` delegator shares (`S` counted in units of
`10^-18` share, the integer `delegatorShares.i`).  Delegating issues shares by a
truncating division, and unbonding pays tokens by a rounding division followed by a
truncation.  Neither ever lets the rate rise above one token per share unit if it starts
at most one (`T ≤ S`): issued shares are at least the tokens delegated, and the tokens paid
for `x` shares are at least `T - S + x`.  That bound is what keeps newly issued shares
positive, and it is the part of the share ledger that the invariants of `Ledger` add to
the three the staking module checks.
-/

namespace CosmosSdk.Staking

open Dec

/-! ### Division bounds -/

theorem chopPrecisionAndRound_bounds {d : ℤ} (hd : 0 ≤ d) :
    d / precisionReuse ≤ chopPrecisionAndRound d ∧
      chopPrecisionAndRound d ≤ (d + precisionReuse - 1) / precisionReuse := by
  simp only [chopPrecisionAndRound, if_neg (not_lt.mpr hd)]
  exact ⟨chopPrecisionAndRoundNonneg_ge d, chopPrecisionAndRoundNonneg_le d⟩

theorem chopPrecisionAndRound_nonneg {d : ℤ} (hd : 0 ≤ d) : 0 ≤ chopPrecisionAndRound d :=
  le_trans (Int.ediv_nonneg hd precisionReuse_pos.le) (chopPrecisionAndRound_bounds hd).1

/-- Shares issued at a rate of at most one token per share unit are at least the tokens. -/
theorem le_issued {S T a : ℤ} (hT : 0 < T) (hTS : T ≤ S) (ha : 0 ≤ a) : a ≤ (S * a).tdiv T := by
  have hSa : 0 ≤ S * a := mul_nonneg (le_trans hT.le hTS) ha
  rw [Int.tdiv_eq_ediv_of_nonneg hSa, Int.le_ediv_iff_mul_le hT]
  nlinarith

/-- The tokens paid for `x ≥ 0` shares are never negative. -/
theorem payout_nonneg {x T S : ℤ} (hx : 0 ≤ x) (hT : 0 ≤ T) (hS : 0 ≤ S) :
    0 ≤ (chopPrecisionAndRound ((x * T * precisionReuse * precisionReuse).tdiv S)).tdiv
      precisionReuse := by
  have hp := precisionReuse_pos
  have hq0 : 0 ≤ (x * T * precisionReuse * precisionReuse).tdiv S :=
    Int.tdiv_nonneg (by positivity) hS
  exact Int.tdiv_nonneg (chopPrecisionAndRound_nonneg hq0) hp.le

/-- The tokens paid for `x` of `S` shares backed by `T` tokens are at most every whole number
of tokens `c` with `x·T ≤ c·S`: the quotient at thirty-six digits, its rounding to eighteen
and the truncation all stay at or below a whole `c`. -/
theorem payout_le {x T S c : ℤ} (hx : 0 ≤ x) (hT : 0 ≤ T) (hS : 0 < S) (hc : x * T ≤ c * S) :
    (chopPrecisionAndRound ((x * T * precisionReuse * precisionReuse).tdiv S)).tdiv
      precisionReuse ≤ c := by
  have hp := precisionReuse_pos
  set q := (x * T * precisionReuse * precisionReuse).tdiv S with hq
  have hnum : 0 ≤ x * T * precisionReuse * precisionReuse := by positivity
  have hq0 : 0 ≤ q := Int.tdiv_nonneg hnum hS.le
  have hqe : q = x * T * precisionReuse * precisionReuse / S := Int.tdiv_eq_ediv_of_nonneg hnum
  obtain ⟨-, hhi⟩ := chopPrecisionAndRound_bounds hq0
  have hr0 : 0 ≤ chopPrecisionAndRound q := chopPrecisionAndRound_nonneg hq0
  -- the quotient at thirty-six digits is at most `c·10^36`
  have h1 : q ≤ c * precisionReuse * precisionReuse := by
    rw [hqe]
    apply Int.ediv_le_of_le_mul hS
    calc x * T * precisionReuse * precisionReuse
        = x * T * (precisionReuse * precisionReuse) := by ring
      _ ≤ c * S * (precisionReuse * precisionReuse) := by gcongr
      _ = c * precisionReuse * precisionReuse * S := by ring
  -- and its rounding to eighteen digits at most `c·10^18`, a whole number of tokens
  have h2 : chopPrecisionAndRound q < c * precisionReuse + 1 := by
    apply lt_of_le_of_lt hhi
    apply Int.ediv_lt_of_lt_mul hp
    nlinarith
  rw [Int.tdiv_eq_ediv_of_nonneg hr0]
  apply Int.ediv_le_of_le_mul hp
  omega

/-- The tokens paid for `x` of `S` shares backed by `T ≤ S` tokens: at least what keeps the
rate at most one, at most all the tokens. -/
theorem removed_bounds {x T S : ℤ} (hx : 0 ≤ x) (hxS : x ≤ S) (hT : 0 ≤ T) (hTS : T ≤ S)
    (hS : 0 < S) :
    0 ≤ (chopPrecisionAndRound ((x * T * precisionReuse * precisionReuse).tdiv S)).tdiv
        precisionReuse ∧
    T - S + x ≤ (chopPrecisionAndRound ((x * T * precisionReuse * precisionReuse).tdiv S)).tdiv
        precisionReuse ∧
    (chopPrecisionAndRound ((x * T * precisionReuse * precisionReuse).tdiv S)).tdiv
        precisionReuse ≤ T := by
  have hp := precisionReuse_pos
  refine ⟨payout_nonneg hx hT hS.le, ?_,
    payout_le hx hT hS ((mul_le_mul_of_nonneg_right hxS hT).trans_eq (mul_comm S T))⟩
  -- the rate stays at most one: `(T - S)(S - x) ≤ 0`
  set q := (x * T * precisionReuse * precisionReuse).tdiv S with hq
  have hnum : 0 ≤ x * T * precisionReuse * precisionReuse := by positivity
  have hq0 : 0 ≤ q := Int.tdiv_nonneg hnum hS.le
  have hqe : q = x * T * precisionReuse * precisionReuse / S := Int.tdiv_eq_ediv_of_nonneg hnum
  obtain ⟨hlo, -⟩ := chopPrecisionAndRound_bounds hq0
  have hr0 : 0 ≤ chopPrecisionAndRound q := chopPrecisionAndRound_nonneg hq0
  rw [Int.tdiv_eq_ediv_of_nonneg hr0]
  have key : (T - S + x) * S ≤ x * T := by nlinarith
  have h1 : (T - S + x) * (precisionReuse * precisionReuse) ≤ q := by
    rw [hqe, Int.le_ediv_iff_mul_le hS]
    calc (T - S + x) * (precisionReuse * precisionReuse) * S
        = (T - S + x) * S * (precisionReuse * precisionReuse) := by ring
      _ ≤ x * T * (precisionReuse * precisionReuse) := by gcongr
      _ = x * T * precisionReuse * precisionReuse := by ring
  have h2 : (T - S + x) * precisionReuse ≤ q / precisionReuse := by
    rw [Int.le_ediv_iff_mul_le hp]; nlinarith
  rw [Int.le_ediv_iff_mul_le hp]
  exact le_trans h2 hlo

/-- The product of two nonnegative decimals is nonnegative. -/
theorem mul_i_nonneg {d d2 : Dec} (hd : 0 ≤ d.i) (hd2 : 0 ≤ d2.i) : 0 ≤ (d.mul d2).i :=
  chopPrecisionAndRound_nonneg (mul_nonneg hd hd2)

/-! ### The conversions of a validator -/

namespace Validator

theorem SharesFromTokens_eq_ok {v : Validator} {amt : ℤ} {d : Dec} :
    v.SharesFromTokens amt = .ok d ↔
      v.tokens ≠ 0 ∧ d = ⟨(v.delegatorShares.i * amt).tdiv v.tokens⟩ := by
  unfold SharesFromTokens
  by_cases h : v.tokens = 0
  · simp [h]
  · simp only [h, quoInt_of_ne h, if_false, ne_eq, not_false_eq_true, true_and]
    simpa using eq_comm

theorem TokensFromShares_eq_ok {v : Validator} {x d : Dec} :
    v.TokensFromShares x = .ok d ↔
      v.delegatorShares.i ≠ 0 ∧
        d = ⟨chopPrecisionAndRound
          ((x.i * v.tokens * precisionReuse * precisionReuse).tdiv v.delegatorShares.i)⟩ := by
  unfold TokensFromShares
  by_cases h : v.delegatorShares.i = 0
  · simp [h, Dec.quo]
  · simp only [h, quo_of_ne h, ne_eq, not_false_eq_true, true_and]
    simpa using eq_comm

/-- Delegating `amount > 0` to a validator whose rate is at most one issues at least
`amount` shares. -/
theorem AddTokensFromDel_rate {v v' : Validator} {pool pool' : Pool} {amount : ℤ} {sh : Dec}
    (hT : 0 ≤ v.tokens) (hTS : v.tokens ≤ v.delegatorShares.i) (ha : 0 < amount) (h : v.AddTokensFromDel pool amount = .ok (v', pool', sh)) :
    amount ≤ sh.i ∧ v'.tokens = v.tokens + amount ∧
      v'.delegatorShares.i = v.delegatorShares.i + sh.i := by
  obtain ⟨rfl, hzero, hpos, -⟩ := AddTokensFromDel_eq_ok h
  refine ⟨?_, rfl, rfl⟩
  cases hz : v.delegatorShares.isZero
  · -- shares outstanding: the tokens are positive, or the rate would be invalid
    obtain ⟨hT0, rfl⟩ := SharesFromTokens_eq_ok.mp (hpos hz)
    have : 0 < v.tokens := lt_of_le_of_ne hT (Ne.symm hT0)
    exact le_issued this hTS ha.le
  · -- the first delegation sets the rate to one
    rw [hzero hz, ofInt_i, precisionReuse_eq]
    omega

/-- Removing `0 ≤ x ≤ S` shares from a validator whose rate is at most one keeps the rate at
most one, and pays out between nothing and all of its tokens. -/
theorem RemoveDelShares_rate {v v' : Validator} {pool pool' : Pool} {x : Dec} {amt : ℤ}
    (hx : 0 ≤ x.i) (hxS : x.i ≤ v.delegatorShares.i) (hT : 0 ≤ v.tokens)
    (hTS : v.tokens ≤ v.delegatorShares.i) (h : v.RemoveDelShares pool x = .ok (v', pool', amt)) :
    v'.delegatorShares.i = v.delegatorShares.i - x.i ∧ v'.tokens = v.tokens - amt ∧
      0 ≤ amt ∧ 0 ≤ v'.tokens ∧ v'.tokens ≤ v'.delegatorShares.i := by
  obtain ⟨rfl, hzero, hpos, -⟩ := RemoveDelShares_eq_ok h
  refine ⟨rfl, rfl, ?_⟩
  show 0 ≤ amt ∧ 0 ≤ v.tokens - amt ∧ v.tokens - amt ≤ v.delegatorShares.i - x.i
  cases hz : (v.delegatorShares - x).isZero
  · -- shares remain: the payout is the rounded worth of the shares
    obtain ⟨d, hd, rfl, -⟩ := hpos hz
    obtain ⟨hS, rfl⟩ := TokensFromShares_eq_ok.mp hd
    have hz' : v.delegatorShares.i - x.i ≠ 0 := by simpa using hz
    obtain ⟨h0, hlo, hhi⟩ :=
      removed_bounds hx hxS hT hTS (lt_of_le_of_ne (le_trans hx hxS) (Ne.symm hS))
    simp only [truncateInt, chopPrecisionAndTruncate]
    omega
  · -- the last shares take every token
    have hz' : v.delegatorShares.i - x.i = 0 := by simpa using hz
    rw [hzero hz]
    omega

/-- `RemoveDelShares` of `0 ≤ x ≤ S` shares returns when the pool holds the tokens of a bonded
validator: the payout is at most the tokens, so neither of its panics is reached. -/
theorem RemoveDelShares_ok {v : Validator} {pool : Pool} {x : Dec} (hx : 0 ≤ x.i)
    (hxS : x.i ≤ v.delegatorShares.i) (hT : 0 ≤ v.tokens)
    (hpool : v.IsBonded → v.tokens ≤ pool.bondedTokens) :
    ∃ v' pool' amt, v.RemoveDelShares pool x = .ok (v', pool', amt) := by
  -- the pool step succeeds for every payout up to the tokens
  have hstep : ∀ amt, amt ≤ v.tokens → ∃ pool',
      (if v.status = .bonded then pool.bondedTokensToNotBonded amt else pure pool) =
        Except.ok pool' := by
    intro amt hle
    split_ifs with hbonded
    · exact ⟨_, Pool.bondedTokensToNotBonded_eq_ok.2
        ⟨le_trans hle (hpool (IsBonded_eq_true.2 hbonded)), rfl⟩⟩
    · exact ⟨pool, rfl⟩
  unfold RemoveDelShares
  dsimp only
  by_cases hz : (v.delegatorShares - x).isZero = true
  · -- the last shares take every token
    obtain ⟨pool', hpool'⟩ := hstep v.tokens le_rfl
    simp only [hz, if_true, pure_bind, IsBonded_eq_true, hpool']
    exact ⟨_, _, _, rfl⟩
  · -- shares remain, so some were outstanding, and the payout is at most the tokens
    have hS : v.delegatorShares.i ≠ 0 := by
      intro h0
      simp at hz
      omega
    have hle := payout_le hx hT (lt_of_le_of_ne (le_trans hx hxS) (Ne.symm hS)) (c := v.tokens) (by nlinarith)
    obtain ⟨pool', hpool'⟩ := hstep _ hle
    rw [if_neg hz, (TokensFromShares_eq_ok (v := v) (x := x)).2 ⟨hS, rfl⟩]
    simp only [truncateInt, chopPrecisionAndTruncate] at hpool' ⊢
    have hpay : ¬ v.tokens - (chopPrecisionAndRound ((x.i * v.tokens * precisionReuse *
        precisionReuse).tdiv v.delegatorShares.i)).tdiv precisionReuse < 0 := by omega
    simp only [Except.ok_bind, hpay, if_false, pure_bind, IsBonded_eq_true, hpool']
    exact ⟨_, _, _, rfl⟩

/-- What `RemoveDelShares` pays for `x ≥ 0` shares is at most every whole number of tokens
`c ≥ 0` with `x·T ≤ c·S`. -/
theorem RemoveDelShares_le {v v' : Validator} {pool pool' : Pool} {x : Dec} {amt c : ℤ}
    (hx : 0 ≤ x.i) (hS : 0 ≤ v.delegatorShares.i) (hT : 0 ≤ v.tokens)
    (hzero : v.delegatorShares.i = 0 → v.tokens = 0) (hc0 : 0 ≤ c)
    (hc : x.i * v.tokens ≤ c * v.delegatorShares.i)
    (h : v.RemoveDelShares pool x = .ok (v', pool', amt)) : 0 ≤ amt ∧ amt ≤ c := by
  obtain ⟨-, hlast, hrest, -⟩ := RemoveDelShares_eq_ok h
  cases hz : (v.delegatorShares - x).isZero
  · -- shares remain: the payout is the truncated worth of the shares
    obtain ⟨d, hd, rfl, -⟩ := hrest hz
    obtain ⟨hS0, rfl⟩ := TokensFromShares_eq_ok.mp hd
    simp only [truncateInt, chopPrecisionAndTruncate]
    exact ⟨payout_nonneg hx hT hS, payout_le hx hT (lt_of_le_of_ne hS (Ne.symm hS0)) hc⟩
  · -- the last shares take all the tokens, which `x = S` bounds by `c`
    rw [hlast hz]
    have hxS : x.i = v.delegatorShares.i := by
      simp only [isZero_iff, sub_i] at hz
      omega
    refine ⟨hT, ?_⟩
    rcases hS.lt_or_eq with hpos | h0
    · rw [hxS, mul_comm] at hc
      exact le_of_mul_le_mul_right hc hpos
    · rw [hzero h0.symm]
      exact hc0

end Validator

end CosmosSdk.Staking
