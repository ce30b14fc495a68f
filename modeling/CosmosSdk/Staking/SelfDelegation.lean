import CosmosSdk.Staking.PowerSteps
import CosmosSdk.Staking.SupplySafety

/-!
# The minimum self-delegation

A validator's operator must keep a self-delegation worth at least the validator's minimum.
`handleMsgCreateValidator` checks the first self-bond, and `unbond` jails a validator whose
operator undelegates below the minimum.  `handleMsgEditValidator` raises the minimum
against the validator's tokens, which count every delegator's bond: an operator whose
validator holds others' delegations can raise its minimum above its own stake and stay
unjailed (`editValidator_minSelfDelegation_above_selfBond`).
-/

namespace CosmosSdk.Staking

/-- From a genesis that funds `A` and `B` with 100 each, `A` creates a validator with a
self-bond of 10 and a minimum of 1, `B` delegates 100 to it, and `A` raises the minimum to
50, which the 110 tokens of the validator allow: the validator is not jailed and its
operator's self-delegation is worth 10. -/
theorem editValidator_minSelfDelegation_above_selfBond :
    let A : AccAddress := List.replicate AddrLen 4
    let B : AccAddress := List.replicate AddrLen 5
    let genesis := fundedGenesis ⟨0, 1, 7, "stake"⟩
      (((∅ : SortedMap AccAddress ℤ).insert A 100).insert B 100)
    ∃ s, Relation.ReflTransGen Step genesis s ∧
      ∃ v d t, s.GetValidator A = some v ∧ v.jailed = false ∧ s.GetDelegation A A = some d ∧
        v.TokensFromShares d.shares = .ok t ∧ t.truncateInt = 10 ∧ v.minSelfDelegation = 50 := by
  intro A B genesis
  refine ⟨_, .tail (.tail (.single
    ⟨⟨0, 0⟩, .createValidator ⟨A, A, ⟨[7], [8]⟩, ⟨"stake", 10⟩, 1⟩, ⟨rfl, by decide⟩, rfl⟩)
    ⟨⟨0, 0⟩, .delegate ⟨B, A, ⟨"stake", 100⟩⟩, ⟨rfl, by decide⟩, rfl⟩)
    ⟨⟨0, 0⟩, .editValidator ⟨A, some 50⟩, ⟨rfl, by decide⟩, rfl⟩, ?_⟩
  exact ⟨_, _, _, rfl, rfl, rfl, rfl, rfl, rfl⟩

end CosmosSdk.Staking
