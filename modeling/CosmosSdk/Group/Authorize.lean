import CosmosSdk.Group.Registry

/-!
# Group authorization

`Authorize` is meant to be a weighted threshold over the membership graph: the signers
authorize a group when the members that signed, directly or as a group the signers
authorize, weigh at least its `DecisionThreshold` (`Authorized`).

* A created group reads back (`GetGroupInfo_CreateGroup`): the member index is written under
  other keys (`KeyGroupIDByMemberAddress_ne_KeyGroupID`).
* The inner loop asks for each signer whether it is the member, or whether the signers
  authorize the member (`signedBy_of_ok`); the outer loop adds the weights of the members
  that signed until the running sum reaches the threshold (`go_of_signedBy`).
* When every group counts only nonnegative weights against a positive threshold
  (`WellWeighted`) and the membership graph below a group is acyclic (`Bounded`), `Authorize`
  with more fuel than its depth computes `Authorized` (`Authorize_eq_Authorized`).
* Weights are not validated, and the outer loop returns as soon as the running sum reaches
  the threshold, so a negative weight behind it is not counted
  (`Authorize_stops_before_negative_weight`).
* A group that lists itself runs out of fuel whatever the fuel (`Authorize_of_self_member`);
  `CreateGroup` lets a group list itself, since its address is the counter's
  (`Authorize_self_member_runs_out`).
-/

namespace CosmosSdk.Group

/-! ## Keys -/

/-- A member index key is never a record key: it has a slash after the member's digits. -/
theorem KeyGroupIDByMemberAddress_ne_KeyGroupID (addr id id' : AccAddress) :
    KeyGroupIDByMemberAddress addr id ≠ KeyGroupID id' := by
  intro h
  have hdrop := congrArg (List.drop 2) h
  simp [KeyGroupIDByMemberAddress, KeyGroupID] at hdrop
  have hslash : '/' ∈ (hexString id').toList := by
    rw [← hdrop]
    simp
  exact slash_not_mem_hexString id' hslash

/-! ## The weighted threshold -/

/-- A group whose members' weights can only raise the running sum, and whose threshold no
empty vote reaches. -/
structure WellWeighted (info : Group) : Prop where
  threshold_pos : 0 < info.decisionThreshold
  weight_nonneg : ∀ m ∈ info.members, 0 ≤ m.weight

/-- What `Authorize` is for: the weight of the members that signed, or that are groups the
signers authorize, reaches the threshold.  `groups` reads the group records, and the
recursion follows nested groups `depth` levels down. -/
def Authorized (groups : AccAddress → Option Group) (signers : List AccAddress) :
    ℕ → AccAddress → Bool
  | 0, _ => false
  | depth + 1, g =>
    match groups g with
    | none => false
    | some info =>
      decide (info.decisionThreshold ≤ ((info.members.filter fun m =>
        decide (m.address ∈ signers) || Authorized groups signers depth m.address).map
          Member.weight).sum)

/-- Every chain of members from `g` through groups ends within `depth` steps: the membership
graph below `g` is acyclic. -/
def Bounded (groups : AccAddress → Option Group) : ℕ → AccAddress → Prop
  | 0, g => groups g = none
  | depth + 1, g =>
    ∀ info, groups g = some info → ∀ m ∈ info.members, Bounded groups depth m.address

section Spec

variable {groups : AccAddress → Option Group}

/-- No signers authorize a group whose threshold is positive. -/
theorem Authorized_nil (hwf : ∀ a info, groups a = some info → info.WellWeighted) :
    ∀ depth g, Authorized groups [] depth g = false
  | 0, _ => rfl
  | depth + 1, g => by
    unfold Authorized
    cases hg : groups g with
    | none => rfl
    | some info =>
      -- no member qualifies, so the sum is empty
      have hpos := (hwf g info hg).threshold_pos
      simp [Authorized_nil hwf depth, hpos]

end Spec

namespace Keeper

variable {σ : Type} (k : Keeper σ)

/-- The group records as `GetGroupInfo` reads them. -/
def groupsOf (ctx : σ) (a : AccAddress) : Option Group := (k.GetGroupInfo ctx a).toOption

@[simp] theorem groupsOf_eq_some {ctx : σ} {a : AccAddress} {info : Group} :
    k.groupsOf ctx a = some info ↔ k.GetGroupInfo ctx a = .ok info := by
  unfold groupsOf
  cases k.GetGroupInfo ctx a <;> simp [Except.toOption]

@[simp] theorem groupsOf_eq_none {ctx : σ} {a : AccAddress} :
    k.groupsOf ctx a = none ↔ ∀ info, k.GetGroupInfo ctx a ≠ .ok info := by
  unfold groupsOf
  cases k.GetGroupInfo ctx a <;> simp [Except.toOption]

/-- An address that does not start with `G` is no group. -/
theorem groupsOf_of_head_ne {ctx : σ} {a : AccAddress} (h : a.head? ≠ some 71) :
    k.groupsOf ctx a = none := by
  simp [groupsOf, GetGroupInfo, h, throw, throwThe, MonadExceptOf.throw, Except.toOption]

/-- A group `CreateGroup` makes at a fresh address reads back as the record it was given, with
its address as id. -/
theorem GetGroupInfo_CreateGroup (ctx : σ) (info : Group)
    (hnew : (k.accounts ctx).GetAccount (addrFromUint64 (k.store ctx).newGroupID) = none) :
    let id := addrFromUint64 (k.store ctx).newGroupID
    k.GetGroupInfo (k.CreateGroup ctx info).2 id = .ok { info with id } := by
  intro id
  obtain ⟨-, -, hkv⟩ := k.CreateGroup_store ctx info hnew
  apply k.GetGroupInfo_of_get? rfl
  rw [hkv]
  -- the member index entries are written under other keys
  refine (SortedMap.get?_foldl_of_forall_ne
    (fun member : Member => KeyGroupIDByMemberAddress member.address id)
    (fun kv member => kv.insert (KeyGroupIDByMemberAddress member.address id) id)
    (fun m member key hk => SortedMap.get?_insert_ne m id hk) ?_ _).trans ?_
  · intro member _
    exact KeyGroupIDByMemberAddress_ne_KeyGroupID member.address id id
  · exact SortedMap.get?_insert_self _ _ _

/-! ## The two loops of `AuthorizeGroupInfo` -/

section Loops

variable (authorize : AccAddress → Except Panic Bool)

/-- The inner loop, when the nested `Authorize` of the member returns `b`: the member signed
when it is a signer, or when there are signers and they authorize it. -/
theorem signedBy_of_ok {mem : Member} {b : Bool} (h : authorize mem.address = .ok b) :
    ∀ signers, AuthorizeGroupInfo.signedBy authorize mem signers =
      .ok (decide (mem.address ∈ signers) || (b && !signers.isEmpty))
  | [] => by simp [AuthorizeGroupInfo.signedBy, pure, Except.pure]
  | signer :: rest => by
    unfold AuthorizeGroupInfo.signedBy
    by_cases hs : mem.address = signer
    · simp [hs]
    · cases b with
      | true => simp [hs, h]
      | false =>
        have ih := signedBy_of_ok h rest
        simp_all

/-- The inner loop, when the nested `Authorize` of a member that is not a signer fails: the
first signer already asks for it. -/
theorem signedBy_of_error {mem : Member} {e : Panic} (h : authorize mem.address = .error e)
    {signers : List AccAddress} (hne : signers ≠ []) (hmem : mem.address ∉ signers) :
    AuthorizeGroupInfo.signedBy authorize mem signers = .error e := by
  obtain ⟨signer, rest, rfl⟩ := List.exists_cons_of_ne_nil hne
  have hs : mem.address ≠ signer := fun hs => hmem (by simp [hs])
  simp [AuthorizeGroupInfo.signedBy, hs, h]

/-- The outer loop, when each member's inner loop returns `q` of it: with nonnegative weights
and a running sum still below the threshold, it returns whether the weights of all the
members that signed reach the threshold. -/
theorem go_of_signedBy (info : Group) (signers : List AccAddress) (q : Member → Bool) :
    ∀ (members : List Member) (voteCount : ℤ),
      (∀ m ∈ members, AuthorizeGroupInfo.signedBy authorize m signers = .ok (q m)) →
      (∀ m ∈ members, 0 ≤ m.weight) → voteCount < info.decisionThreshold →
      AuthorizeGroupInfo.go authorize info signers members voteCount =
        .ok (decide (info.decisionThreshold ≤ voteCount + ((members.filter q).map Member.weight).sum))
  | [], voteCount, _, _, hlt => by
    simp [AuthorizeGroupInfo.go, pure, Except.pure, not_le.2 hlt]
  | m :: members, voteCount, hq, hw, hlt => by
    have hqm := hq m List.mem_cons_self
    have hrest := fun voteCount => go_of_signedBy info signers q members voteCount
      (fun m' hm' => hq m' (List.mem_cons_of_mem m hm'))
      (fun m' hm' => hw m' (List.mem_cons_of_mem m hm'))
    unfold AuthorizeGroupInfo.go
    simp only [hqm, bind, Except.bind]
    cases hm : q m with
    | false =>
      -- the member did not sign: its weight is not counted
      simp [hrest voteCount hlt, hm]
    | true =>
      -- the member signed: the running sum either reaches the threshold here, and the rest
      -- can only add to it, or stays below it
      have hsum : 0 ≤ ((members.filter q).map Member.weight).sum :=
        List.sum_nonneg fun w hw' => by
          obtain ⟨m', hm', rfl⟩ := List.mem_map.1 hw'
          exact hw m' (List.mem_cons_of_mem m (List.mem_filter.1 hm').1)
      by_cases hreach : 0 ≤ voteCount + m.weight - info.decisionThreshold
      · have hle : info.decisionThreshold ≤
            voteCount + (m.weight + ((members.filter q).map Member.weight).sum) := by omega
        rw [if_pos rfl, if_pos hreach, List.filter_cons_of_pos hm, List.map_cons, List.sum_cons]
        simp [hle, pure, Except.pure]
      · rw [if_pos rfl, if_neg hreach, hrest (voteCount + m.weight) (by omega)]
        simp [hm, add_assoc]

end Loops

/-! ## `Authorize` against the weighted threshold -/

/-- With well-weighted groups and a membership graph of depth at most `depth` below `g`,
`Authorize` with more fuel than that computes the weighted threshold, whatever the fuel. -/
theorem Authorize_eq_Authorized (ctx : σ) (signers : List AccAddress)
    (hwf : ∀ a info, k.GetGroupInfo ctx a = .ok info → info.WellWeighted) :
    ∀ (depth : ℕ) (g : AccAddress) (fuel : ℕ), Bounded (k.groupsOf ctx) depth g → depth < fuel →
      k.Authorize ctx fuel g signers = .ok (Authorized (k.groupsOf ctx) signers (depth + 1) g) := by
  have hwf' : ∀ a info, k.groupsOf ctx a = some info → info.WellWeighted := fun a info h =>
    hwf a info ((k.groupsOf_eq_some).1 h)
  intro depth
  induction depth with
  | zero =>
    -- `g` is no group
    intro g fuel hb hfuel
    obtain ⟨fuel, rfl⟩ := Nat.exists_eq_add_of_lt hfuel
    have hnone : k.groupsOf ctx g = none := hb
    cases hg : k.GetGroupInfo ctx g with
    | error e => simp [Authorize, hg, Authorized, hnone, pure, Except.pure]
    | ok info => simp [hg] at hnone
  | succ depth ih =>
    intro g fuel hb hfuel
    obtain ⟨fuel, rfl⟩ := Nat.exists_eq_add_of_lt hfuel
    cases hg : k.GetGroupInfo ctx g with
    | error e =>
      have hnone : k.groupsOf ctx g = none := by simp [hg]
      simp [Authorize, hg, Authorized, hnone, pure, Except.pure]
    | ok info =>
      have hsome : k.groupsOf ctx g = some info := by simp [hg]
      have hinfo := hwf g info hg
      -- each member's nested `Authorize` is the threshold one level down
      have hmember : ∀ m ∈ info.members, k.Authorize ctx (depth + 1 + fuel) m.address signers =
          .ok (Authorized (k.groupsOf ctx) signers (depth + 1) m.address) := fun m hm =>
        ih m.address _ (hb info hsome m hm) (by omega)
      have hq : ∀ m ∈ info.members,
          AuthorizeGroupInfo.signedBy (fun addr => k.Authorize ctx (depth + 1 + fuel) addr signers)
            m signers = .ok (decide (m.address ∈ signers) ||
              Authorized (k.groupsOf ctx) signers (depth + 1) m.address) := by
        intro m hm
        rw [signedBy_of_ok _ (hmember m hm)]
        cases signers with
        | nil => simp [Authorized_nil hwf']
        | cons s rest => simp
      rw [Authorize, hg]
      simp only [AuthorizeGroupInfo]
      rw [go_of_signedBy _ info signers _ info.members 0 hq hinfo.weight_nonneg
        hinfo.threshold_pos, Authorized, hsome, zero_add]

/-- From an empty group store and no accounts, `CreateGroup` of a group that `ValidateBasic`
accepts, with members `[1]` of weight 5 and `[2]` of weight -10 and threshold 5.  Neither
member is a group, so the membership graph has depth one; the signers `[1]` and `[2]` weigh
-5 together, below the threshold, yet `Authorize` returns true, whatever the fuel, having
stopped after the first member. -/
theorem Authorize_stops_before_negative_weight (ctx : σ) :
    let info : Group :=
      { members := [⟨[1], 5⟩, ⟨[2], -10⟩], decisionThreshold := 5, memo := "", id := [] }
    let ctx₀ := k.setStore (k.setAccounts ctx ⟨SortedMap.empty, 0⟩) ⟨SortedMap.empty, 0, 0⟩
    let ctx₁ := (k.CreateGroup ctx₀ info).2
    info.ValidateBasic = none ∧ (k.CreateGroup ctx₀ info).1 = .ok (addrFromUint64 0) ∧
      Bounded (k.groupsOf ctx₁) 1 (addrFromUint64 0) ∧
      Authorized (k.groupsOf ctx₁) [[1], [2]] 2 (addrFromUint64 0) = false ∧
      ∀ fuel, k.Authorize ctx₁ (fuel + 1) (addrFromUint64 0) [[1], [2]] = .ok true := by
  intro info ctx₀ ctx₁
  have hnew : (k.accounts ctx₀).GetAccount (addrFromUint64 (k.store ctx₀).newGroupID) = none := by
    simp [ctx₀]
    rfl
  have hid := (k.CreateGroup_store ctx₀ info hnew).1
  have hinfo := k.GetGroupInfo_CreateGroup ctx₀ info hnew
  simp only [ctx₀, store_setStore] at hid hinfo
  have hsome : k.groupsOf ctx₁ (addrFromUint64 0) = some { info with id := addrFromUint64 0 } := by
    simp [groupsOf, ctx₁, ctx₀, hinfo, Except.toOption]
  have hleaf : ∀ b : UInt8, b ≠ 71 → k.groupsOf ctx₁ [b] = none := fun b hb =>
    k.groupsOf_of_head_ne (by simpa using hb)
  refine ⟨by decide, hid, ?_, ?_, ?_⟩
  · -- the members are no groups
    intro g hg m hm
    rw [hsome, Option.some.injEq] at hg
    subst hg
    simp only [info, List.mem_cons, List.not_mem_nil, or_false] at hm
    rcases hm with rfl | rfl
    · exact hleaf 1 (by decide)
    · exact hleaf 2 (by decide)
  · -- both members are signers: -5 is below 5
    simp [Authorized, hsome, info]
  · -- the first member is a signer, and its weight alone reaches the threshold
    intro fuel
    simp [Authorize, ctx₁, ctx₀, hinfo, AuthorizeGroupInfo, AuthorizeGroupInfo.go,
      AuthorizeGroupInfo.signedBy, info, pure, Except.pure, bind, Except.bind]

/-! ## A group that lists itself -/

/-- A group whose first member is itself, asked by signers that do not hold it: each
`Authorize` of the group asks the next, so no fuel suffices. -/
theorem Authorize_of_self_member {ctx : σ} {g : AccAddress} {info : Group} {w : ℤ}
    {rest : List Member} (hinfo : k.GetGroupInfo ctx g = .ok info)
    (hmem : info.members = ⟨g, w⟩ :: rest) {signers : List AccAddress} (hne : signers ≠ [])
    (hg : g ∉ signers) :
    ∀ fuel, k.Authorize ctx fuel g signers = throw ⟨"out of gas in location: group auth"⟩
  | 0 => rfl
  | fuel + 1 => by
    have hsigned : AuthorizeGroupInfo.signedBy (fun addr => k.Authorize ctx fuel addr signers)
        ⟨g, w⟩ signers = .error ⟨"out of gas in location: group auth"⟩ :=
      signedBy_of_error _ (Authorize_of_self_member hinfo hmem hne hg fuel) hne hg
    simp only [Authorize, hinfo, AuthorizeGroupInfo, hmem]
    unfold AuthorizeGroupInfo.go
    rw [hsigned]
    rfl

/-- From an empty group store and no accounts, `CreateGroup` of a group that `ValidateBasic`
accepts and whose one member is the address the counter gives the group: the signer `[1]`
makes `Authorize` of the group run out of fuel, whatever the fuel. -/
theorem Authorize_self_member_runs_out (ctx : σ) :
    let info : Group :=
      { members := [⟨addrFromUint64 0, 1⟩], decisionThreshold := 1, memo := "", id := [] }
    let ctx₀ := k.setStore (k.setAccounts ctx ⟨SortedMap.empty, 0⟩) ⟨SortedMap.empty, 0, 0⟩
    let ctx₁ := (k.CreateGroup ctx₀ info).2
    info.ValidateBasic = none ∧ (k.CreateGroup ctx₀ info).1 = .ok (addrFromUint64 0) ∧
      ∀ fuel, k.Authorize ctx₁ fuel (addrFromUint64 0) [[1]] =
        throw ⟨"out of gas in location: group auth"⟩ := by
  intro info ctx₀ ctx₁
  have hnew : (k.accounts ctx₀).GetAccount (addrFromUint64 (k.store ctx₀).newGroupID) = none := by
    simp [ctx₀]
    rfl
  have hid := (k.CreateGroup_store ctx₀ info hnew).1
  have hinfo := k.GetGroupInfo_CreateGroup ctx₀ info hnew
  simp only [ctx₀, store_setStore] at hid hinfo
  refine ⟨by decide, hid, k.Authorize_of_self_member hinfo rfl (by simp) ?_⟩
  -- the signer is not the group
  simp only [List.mem_singleton]
  decide

end Keeper

end CosmosSdk.Group
