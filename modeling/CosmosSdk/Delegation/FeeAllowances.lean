import CosmosSdk.Delegation.Keeper
import CosmosSdk.Types.CoinsSpec

/-!
# Fee allowances

`DelegateFeeAllowance` stores a granter's allowance for a grantee under
`FeeAllowanceKey(grantee, granter)`, that is `f/<grantee>/<granter>`; `AllowDelegatedFees`
lets the allowance accept a fee and writes back what is left, or deletes it when nothing is
left; `RevokeFeeAllowance` deletes it.  The calls are run one after another from the empty
store of the module's genesis (`runFeeCalls`).

* Distinct pairs have distinct keys (`FeeAllowanceKey_injective`): the digits of an address
  have no slash.
* After `DelegateFeeAllowance` of a `BasicFeeAllowance` of `L`, the stored limit is `L` less
  the fees approved since, and a fee is approved only when it leaves no amount negative, so
  the approved fees stay within `L` of each denomination, or within nothing where `L` is
  negative (`approvedFees_le_limit`).
* `GetFeeAllowances` iterates the prefix `g/<grantee>/`, which no allowance key has, so it
  lists nothing whatever is stored (`GetFeeAllowances_lists_nothing`).
-/

namespace CosmosSdk.Delegation

/-- The calls of the keeper on fee allowances. -/
inductive FeeCall
  | DelegateFeeAllowance (grantee granter : AccAddress) (allowance : FeeAllowance)
  | RevokeFeeAllowance (grantee granter : AccAddress)
  | AllowDelegatedFees (hdr : Header) (grantee granter : AccAddress) (fee : Coins)

namespace FeeCall

/-- A call on the store, and whether it approved a fee. -/
def run (s : State) : FeeCall → Bool × State
  | DelegateFeeAllowance grantee granter allowance =>
    (false, s.DelegateFeeAllowance grantee granter allowance)
  | RevokeFeeAllowance grantee granter => (false, s.RevokeFeeAllowance grantee granter)
  | AllowDelegatedFees hdr grantee granter fee => s.AllowDelegatedFees hdr grantee granter fee

/-- The fee the call approved for the pair: the fee of an `AllowDelegatedFees` of the pair
that approved it, or nothing. -/
def approvedFor (grantee granter : AccAddress) (approved : Bool) : FeeCall → Coins
  | AllowDelegatedFees _ g r fee => if approved ∧ g = grantee ∧ r = granter then fee else []
  | _ => []

/-- The call gives the pair a new allowance. -/
def delegatesTo (grantee granter : AccAddress) : FeeCall → Prop
  | DelegateFeeAllowance g r _ => g = grantee ∧ r = granter
  | _ => False

end FeeCall

/-- The calls one after another. -/
def runFeeCalls : State → List FeeCall → State
  | s, [] => s
  | s, c :: calls => runFeeCalls (c.run s).2 calls

/-- The fees approved for the pair along the calls. -/
def approvedFees (grantee granter : AccAddress) : State → List FeeCall → Coins
  | _, [] => []
  | s, c :: calls =>
    c.approvedFor grantee granter (c.run s).1 ++ approvedFees grantee granter (c.run s).2 calls

/-! ### Keys -/

/-- The key names its pair. -/
theorem FeeAllowanceKey_injective {grantee granter grantee' granter' : AccAddress}
    (h : FeeAllowanceKey grantee granter = FeeAllowanceKey grantee' granter') :
    grantee = grantee' ∧ granter = granter' := by
  have hsplit : (hexString grantee).toList ++ '/' :: (hexString granter).toList =
      (hexString grantee').toList ++ '/' :: (hexString granter').toList := by
    simpa [FeeAllowanceKey] using h
  obtain ⟨h₁, h₂⟩ := append_cons_cancel_of_not_mem (slash_not_mem_hexString grantee)
    (slash_not_mem_hexString grantee') hsplit
  exact ⟨hexString_injective (String.toList_inj.1 h₁), hexString_injective (String.toList_inj.1 h₂)⟩

/-- What `AllowDelegatedFees` can write: nothing, the deletion of the pair's allowance, or a
new allowance for the pair. -/
theorem State.AllowDelegatedFees_cases (s : State) (hdr : Header) (grantee granter : AccAddress)
    (fee : Coins) :
    (s.AllowDelegatedFees hdr grantee granter fee).2 = s ∨
      (s.AllowDelegatedFees hdr grantee granter fee).2 = s.RevokeFeeAllowance grantee granter ∨
      ∃ allowance, (s.AllowDelegatedFees hdr grantee granter fee).2 =
        s.DelegateFeeAllowance grantee granter allowance := by
  unfold State.AllowDelegatedFees
  split
  · exact .inl rfl
  · rename_i allowance _
    rcases allowance.Accept fee hdr with ⟨allow, updated, delete⟩
    dsimp only
    split_ifs
    · exact .inl rfl
    · exact .inr (.inl rfl)
    · cases updated with
      | none => exact .inl rfl
      | some updated => exact .inr (.inr ⟨updated, rfl⟩)

/-! ### The allowance of one pair -/

section Spent

variable {grantee granter : AccAddress} {L : Coins}

/-- What a `BasicFeeAllowance` of `L` for the pair has after approving `spent`: no more than
`L` of a denomination approved (nothing where `L` is negative), and a stored basic allowance
holds `L` less what was approved. -/
structure Spent (grantee granter : AccAddress) (L spent : Coins) (s : State) : Prop where
  le : ∀ denom, Coins.amount spent denom ≤ max (Coins.amount L denom) 0
  left : ∀ left, s.allowances.get? (FeeAllowanceKey grantee granter) = some (.BasicFeeAllowance left) →
    ∀ denom, Coins.amount left denom = Coins.amount L denom - Coins.amount spent denom

/-- A call that writes the key of another pair, or no key, leaves the pair's allowance. -/
theorem Spent.of_get? {spent : Coins} {s s' : State} (h : Spent grantee granter L spent s)
    (hget : s'.allowances.get? (FeeAllowanceKey grantee granter) =
      s.allowances.get? (FeeAllowanceKey grantee granter)) :
    Spent grantee granter L spent s' :=
  ⟨h.le, fun left hleft => h.left left (hget ▸ hleft)⟩

/-- `AllowDelegatedFees` of the pair approves a fee only if it leaves the limit nonnegative. -/
theorem Spent.AllowDelegatedFees {spent : Coins} {s : State} (h : Spent grantee granter L spent s)
    (hdr : Header) (fee : Coins) :
    Spent grantee granter L (spent ++ if (s.AllowDelegatedFees hdr grantee granter fee).1 then fee else [])
      (s.AllowDelegatedFees hdr grantee granter fee).2 := by
  unfold State.AllowDelegatedFees
  cases hget : s.allowances.get? (FeeAllowanceKey grantee granter) with
  | none => simpa using h
  | some allowance =>
    obtain ⟨limit⟩ := allowance
    have hleft := h.left limit hget
    -- what is left after the fee, and whether an amount of it is negative
    rcases hsub : Coins.SafeSub limit fee with ⟨left', invalid⟩
    have hamount : ∀ denom, Coins.amount left' denom =
        Coins.amount L denom - Coins.amount (spent ++ fee) denom := by
      intro denom
      have := Coins.amount_SafeSub denom limit fee
      rw [hsub] at this
      rw [this, hleft, Coins.amount_append]
      omega
    dsimp only
    cases invalid with
    | true => simpa [FeeAllowance.Accept, hsub] using h
    | false =>
      -- the approved fee leaves no amount negative
      have hfst := congrArg Prod.fst hsub
      have hsnd := congrArg Prod.snd hsub
      simp only [Coins.SafeSub] at hfst hsnd
      rw [hfst] at hsnd
      have hle : ∀ denom, Coins.amount (spent ++ fee) denom ≤ max (Coins.amount L denom) 0 := by
        intro denom
        have hrest := hamount denom
        have hnonneg := Coins.amount_nonneg denom hsnd
        exact le_max_of_le_left (by omega)
      by_cases hzero : left'.IsZero = true
      · -- nothing is left: the allowance is deleted
        simp only [FeeAllowance.Accept, hsub, hzero, Bool.false_eq_true, ↓reduceIte, Bool.not_true]
        refine ⟨hle, fun left hget' => ?_⟩
        simp [State.RevokeFeeAllowance] at hget'
      · simp only [FeeAllowance.Accept, hsub, hzero, Bool.false_eq_true, ↓reduceIte, Bool.not_true]
        refine ⟨hle, fun left hget' => ?_⟩
        simp only [State.DelegateFeeAllowance, SortedMap.get?_insert_self, Option.some.injEq,
          FeeAllowance.BasicFeeAllowance.injEq] at hget'
        rw [← hget']
        exact hamount

/-- The step lemma: every call but a new allowance for the pair keeps `Spent`, with the fee it
approved for the pair added. -/
theorem Spent.run {spent : Coins} {s : State} (h : Spent grantee granter L spent s) (c : FeeCall)
    (hc : ¬ c.delegatesTo grantee granter) :
    Spent grantee granter L (spent ++ c.approvedFor grantee granter (c.run s).1) (c.run s).2 := by
  cases c with
  | DelegateFeeAllowance g r allowance =>
    -- another pair's key
    have hne : FeeAllowanceKey grantee granter ≠ FeeAllowanceKey g r := fun heq =>
      hc (by obtain ⟨rfl, rfl⟩ := FeeAllowanceKey_injective heq; exact ⟨rfl, rfl⟩)
    simpa [FeeCall.approvedFor] using
      h.of_get? (by simp [FeeCall.run, State.DelegateFeeAllowance, hne])
  | RevokeFeeAllowance g r =>
    simp only [FeeCall.run, FeeCall.approvedFor, List.append_nil]
    by_cases hpair : g = grantee ∧ r = granter
    · obtain ⟨rfl, rfl⟩ := hpair
      exact ⟨h.le, fun left hget => by simp [State.RevokeFeeAllowance] at hget⟩
    · have hne : FeeAllowanceKey grantee granter ≠ FeeAllowanceKey g r := fun heq =>
        hpair (by obtain ⟨rfl, rfl⟩ := FeeAllowanceKey_injective heq; exact ⟨rfl, rfl⟩)
      exact h.of_get? (by simp [State.RevokeFeeAllowance, hne])
  | AllowDelegatedFees hdr g r fee =>
    by_cases hpair : g = grantee ∧ r = granter
    · obtain ⟨rfl, rfl⟩ := hpair
      simpa [FeeCall.run, FeeCall.approvedFor] using h.AllowDelegatedFees hdr fee
    · -- the call reads and writes the other pair's key only
      have hne : FeeAllowanceKey grantee granter ≠ FeeAllowanceKey g r := fun heq =>
        hpair (by obtain ⟨rfl, rfl⟩ := FeeAllowanceKey_injective heq; exact ⟨rfl, rfl⟩)
      have hget : ((s.AllowDelegatedFees hdr g r fee).2).allowances.get? (FeeAllowanceKey grantee granter) =
          s.allowances.get? (FeeAllowanceKey grantee granter) := by
        rcases s.AllowDelegatedFees_cases hdr g r fee with hs | hs | ⟨a, hs⟩ <;> rw [hs]
        · simp [State.RevokeFeeAllowance, hne]
        · simp [State.DelegateFeeAllowance, hne]
      simpa [FeeCall.run, FeeCall.approvedFor, hpair] using h.of_get? hget

/-- The run lemma: calls that give the pair no new allowance keep `Spent`, with the fees they
approved for the pair added. -/
theorem Spent.runFeeCalls : ∀ {spent : Coins} {s : State} (calls : List FeeCall),
    Spent grantee granter L spent s → (∀ c ∈ calls, ¬ c.delegatesTo grantee granter) →
      Spent grantee granter L (spent ++ approvedFees grantee granter s calls) (runFeeCalls s calls)
  | _, _, [], h, _ => by simpa [approvedFees, Delegation.runFeeCalls] using h
  | _, s, c :: calls, h, hcalls => by
    have hstep := h.run c (hcalls c List.mem_cons_self)
    have hrest := Spent.runFeeCalls calls hstep fun c' hc' => hcalls c' (List.mem_cons_of_mem c hc')
    simpa [approvedFees, Delegation.runFeeCalls, List.append_assoc] using hrest

/-- A new allowance of `L` has approved nothing. -/
theorem spent_DelegateFeeAllowance (s : State) :
    Spent grantee granter L [] (s.DelegateFeeAllowance grantee granter (.BasicFeeAllowance L)) where
  le _ := by simp
  left left hget _ := by
    simp only [State.DelegateFeeAllowance, SortedMap.get?_insert_self, Option.some.injEq,
      FeeAllowance.BasicFeeAllowance.injEq] at hget
    simp [hget]

/-- The calls after a new `BasicFeeAllowance` of `L` for the pair, up to its next one, approve
for the pair no more than `L` of a denomination, and nothing where `L` is negative. -/
theorem approvedFees_le_limit (s : State) (L : Coins) (calls : List FeeCall)
    (hcalls : ∀ c ∈ calls, ¬ c.delegatesTo grantee granter) (denom : String) :
    Coins.amount (approvedFees grantee granter
      (s.DelegateFeeAllowance grantee granter (.BasicFeeAllowance L)) calls) denom ≤
        max (Coins.amount L denom) 0 := by
  simpa using ((spent_DelegateFeeAllowance s).runFeeCalls calls hcalls).le denom

end Spent

/-! ### Listing the allowances of a grantee -/

/-- Every allowance is stored under the key of a pair. -/
def AllowanceKeys (s : State) : Prop :=
  ∀ key allowance, s.allowances.get? key = some allowance →
    ∃ grantee granter, key = FeeAllowanceKey grantee granter

theorem allowanceKeys_empty : AllowanceKeys ⟨∅, ∅⟩ := fun _ _ h => by cases h

/-- The step lemma: each call stores allowances under the key of their pair. -/
theorem AllowanceKeys.run {s : State} (h : AllowanceKeys s) (c : FeeCall) :
    AllowanceKeys (c.run s).2 := by
  -- the three writes: an insert and a delete under a pair's key, or nothing
  have hinsert : ∀ {s : State} g r a, AllowanceKeys s → AllowanceKeys (s.DelegateFeeAllowance g r a) :=
    fun {s} g r a h key allowance hget => by
      simp only [State.DelegateFeeAllowance, SortedMap.get?_insert] at hget
      split_ifs at hget with hkey
      · exact ⟨g, r, hkey⟩
      · exact h key allowance hget
  have herase : ∀ {s : State} g r, AllowanceKeys s → AllowanceKeys (s.RevokeFeeAllowance g r) :=
    fun {s} g r h key allowance hget => by
      simp only [State.RevokeFeeAllowance, SortedMap.get?_erase] at hget
      split_ifs at hget
      exact h key allowance hget
  cases c with
  | DelegateFeeAllowance g r a => exact hinsert g r a h
  | RevokeFeeAllowance g r => exact herase g r h
  | AllowDelegatedFees hdr g r fee =>
    rcases s.AllowDelegatedFees_cases hdr g r fee with hs | hs | ⟨a, hs⟩ <;>
      simp only [FeeCall.run, hs]
    · exact h
    · exact herase g r h
    · exact hinsert g r a h

/-- The run lemma. -/
theorem AllowanceKeys.runFeeCalls : ∀ {s : State} (calls : List FeeCall), AllowanceKeys s →
    AllowanceKeys (runFeeCalls s calls)
  | _, [], h => h
  | _, c :: calls, h => AllowanceKeys.runFeeCalls calls (h.run c)

/-- An allowance key starts with `f`, never with the `g` that `GetFeeAllowances` looks for. -/
theorem GetFeeAllowances_eq_nil {s : State} (h : AllowanceKeys s) (grantee : AccAddress) :
    s.GetFeeAllowances grantee = [] := by
  unfold State.GetFeeAllowances
  rw [List.map_eq_nil_iff, List.filter_eq_nil_iff]
  rintro ⟨key, allowance⟩ he
  obtain ⟨g, r, rfl⟩ := h key allowance ((s.allowances.mem_entries_iff).1 he)
  simp [FeeAllowanceKey, List.isPrefixOf]

/-- From the empty store of genesis, after any calls and a new allowance for a pair,
`GetFeeAllowances` of the grantee lists nothing, though the allowance is stored. -/
theorem GetFeeAllowances_lists_nothing (calls : List FeeCall) (grantee granter : AccAddress)
    (allowance : FeeAllowance) :
    let s := (runFeeCalls ⟨∅, ∅⟩ calls).DelegateFeeAllowance grantee granter allowance
    s.allowances.get? (FeeAllowanceKey grantee granter) = some allowance ∧
      s.GetFeeAllowances grantee = [] := by
  intro s
  -- `s` is reached by the calls and one more
  have hkeys : AllowanceKeys s :=
    (allowanceKeys_empty.runFeeCalls calls).run (.DelegateFeeAllowance grantee granter allowance)
  exact ⟨by simp [s, State.DelegateFeeAllowance], GetFeeAllowances_eq_nil hkeys grantee⟩

end CosmosSdk.Delegation
