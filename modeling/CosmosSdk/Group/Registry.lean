import CosmosSdk.Group.Proposals

/-!
# The group registry

A group's record is stored under `g/<id>` and, for each member, the group's id under
`g/<member>/<id>` (`CreateGroup_store`).  Both live under the prefix `g/` that `GetGroups`
iterates, so it decodes the member index as groups too (`GetGroups_length`); and
`UpdateGroupInfo` rewrites the record only, so the member index keeps naming the group for
members it no longer has (`groupRegistry_keeps_member_index`).  The group's account is a
`BaseAccount` with only its address: account number 0, whatever numbers are taken
(`CreateGroup_reuses_accountNumber`).
-/

namespace CosmosSdk.Group

/-- A write under a key outside the prefix is not iterated. -/
theorem prefixEntries_insert_outside {kv : SortedMap (List Char) Bytes} {pre : String}
    {key : List Char} (h : pre.toList.isPrefixOf key = false) (bz : Bytes) :
    prefixEntries (kv.insert key bz) pre = prefixEntries kv pre :=
  SortedMap.filter_insertL_of_not h bz kv.entries

/-- A write under the prefix, where nothing was, is all that is iterated. -/
theorem prefixEntries_insert_inside {kv : SortedMap (List Char) Bytes} {pre : String}
    {key : List Char} (h : pre.toList.isPrefixOf key = true) (bz : Bytes)
    (hnil : prefixEntries kv pre = []) :
    prefixEntries (kv.insert key bz) pre = [(key, bz)] :=
  SortedMap.filter_insertL_of_filter_eq_nil h bz hnil

namespace Keeper

variable {σ : Type} (k : Keeper σ)

/-- Writes in a loop are inserts in the same loop. -/
theorem store_foldl_set {α : Type} (key : α → List Char) (bz : α → Bytes) :
    ∀ (l : List α) (ctx : σ),
      (k.store (l.foldl (fun ctx a => k.set ctx (key a) (bz a)) ctx)).kv =
        l.foldl (fun kv a => kv.insert (key a) (bz a)) (k.store ctx).kv
  | [], _ => rfl
  | a :: l, ctx => by
    simp only [List.foldl_cons]
    rw [store_foldl_set key bz l]
    simp

/-- The accounts are not written by the group store's writes. -/
theorem accounts_foldl_set {α : Type} (key : α → List Char) (bz : α → Bytes) :
    ∀ (l : List α) (ctx : σ),
      k.accounts (l.foldl (fun ctx a => k.set ctx (key a) (bz a)) ctx) = k.accounts ctx
  | [], _ => rfl
  | a :: l, ctx => by
    simp only [List.foldl_cons]
    rw [accounts_foldl_set key bz l]
    simp [set]

/-- `CreateGroup` at a fresh address: the group account, the record under `g/<id>`, then one
member index entry per member. -/
theorem CreateGroup_store (ctx : σ) (info : Group)
    (hnew : (k.accounts ctx).GetAccount (addrFromUint64 (k.store ctx).newGroupID) = none) :
    let id := addrFromUint64 (k.store ctx).newGroupID
    (k.CreateGroup ctx info).1 = .ok id ∧
      k.accounts (k.CreateGroup ctx info).2 = (k.accounts ctx).SetAccount (.group { address := id }) ∧
      (k.store (k.CreateGroup ctx info).2).kv =
        info.members.foldl (fun kv member => kv.insert (KeyGroupIDByMemberAddress member.address id) id)
          ((k.store ctx).kv.insert (KeyGroupID id) (k.cdc.MarshalGroup { info with id }))
      := by
  intro id
  -- the address is kept opaque: its varint is never computed
  have hgetNew : k.getNewGroupId ctx =
      (id, k.setStore ctx { k.store ctx with newGroupID := (k.store ctx).newGroupID + 1 }) := rfl
  replace hnew : (k.accounts ctx).GetAccount id = none := hnew
  clear_value id
  simp only [CreateGroup, hgetNew, setGroupInfo, accounts_set, accounts_setStore, hnew, ne_eq,
    not_true_eq_false, if_false]
  refine ⟨trivial, ?_, ?_⟩
  · rw [accounts_foldl_set]
    simp
  · rw [store_foldl_set]
    simp

/-- `GetGroups` returns one group for each entry under `g/`. -/
theorem GetGroups_length {ctx : σ} {groups : List Group} (h : k.GetGroups ctx = .ok groups) :
    groups.length = (prefixEntries (k.store ctx).kv "g/").length :=
  Except.length_of_mapM_eq_ok h

/-- A group id whose record is stored reads back as the record. -/
theorem GetGroupInfo_of_get? {ctx : σ} {id : AccAddress} {info : Group}
    (hid : id.head? = some 71)
    (hget : (k.store ctx).kv.get? (KeyGroupID id) = some (k.cdc.MarshalGroup info)) :
    k.GetGroupInfo ctx id = .ok info := by
  have hlen : ¬ id.length < 1 := by
    cases id with
    | nil => simp at hid
    | cons b bz => simp
  simp [GetGroupInfo, hid, hget, hlen, k.cdc.unmarshal_marshal_group]

/-- From an empty group store and no accounts, `[1]` creates a group of which it is the only
member: `GetGroups` finds two entries under `g/` for the one group.  The group is then updated
to any record, and `GetGroupsByMemberAddress` of `[1]` still returns it. -/
theorem groupRegistry_keeps_member_index (ctx : σ) (info' : Group) :
    let ctx₀ := k.setStore (k.setAccounts ctx ⟨SortedMap.empty, 0⟩) ⟨SortedMap.empty, 0, 0⟩
    let info : Group := { members := [⟨[1], 1⟩], decisionThreshold := 1, memo := "", id := [] }
    let ctx₁ := (k.CreateGroup ctx₀ info).2
    (k.CreateGroup ctx₀ info).1 = .ok (addrFromUint64 0) ∧
      (∀ groups, k.GetGroups ctx₁ = .ok groups → groups.length = 2) ∧
      k.GetGroupsByMemberAddress (k.UpdateGroupInfo ctx₁ (addrFromUint64 0) info') [1] =
        .ok [info'] := by
  intro ctx₀ info ctx₁
  obtain ⟨hid, -, hkv⟩ := k.CreateGroup_store ctx₀ info (by simp [ctx₀]; rfl)
  simp only [ctx₀, store_setStore] at hid hkv
  refine ⟨hid, ?_, ?_⟩
  · -- the record and the member's index entry
    intro groups h
    have hlt : KeyGroupIDByMemberAddress [1] (addrFromUint64 0) < KeyGroupID (addrFromUint64 0) := by
      decide
    have hrecord : ['g', '/'].isPrefixOf (KeyGroupID (addrFromUint64 0)) = true := by decide
    have hindex : ['g', '/'].isPrefixOf (KeyGroupIDByMemberAddress [1] (addrFromUint64 0)) = true := by
      decide
    rw [k.GetGroups_length h, hkv]
    simp [info, prefixEntries, SortedMap.insert, SortedMap.empty, SortedMap.insertL, hlt, hrecord,
      hindex]
  · -- the member's index entry names the group, whose record is the update
    have hkv₂ : (k.store (k.UpdateGroupInfo ctx₁ (addrFromUint64 0) info')).kv =
        (k.store ctx₁).kv.insert (KeyGroupID (addrFromUint64 0)) (k.cdc.MarshalGroup info') := by
      simp [UpdateGroupInfo, setGroupInfo]
    have hidx : prefixEntries (k.store (k.UpdateGroupInfo ctx₁ (addrFromUint64 0) info')).kv
        ("g/" ++ hexString [1] ++ "/") =
          [(KeyGroupIDByMemberAddress [1] (addrFromUint64 0), addrFromUint64 0)] := by
      rw [hkv₂, prefixEntries_insert_outside (by decide), hkv]
      simp only [info, List.foldl_cons, List.foldl_nil]
      rw [prefixEntries_insert_inside (by decide)]
      rw [prefixEntries_insert_outside (by decide)]
      rfl
    have hinfo : k.GetGroupInfo (k.UpdateGroupInfo ctx₁ (addrFromUint64 0) info') (addrFromUint64 0) =
        .ok info' :=
      k.GetGroupInfo_of_get? rfl (by rw [hkv₂, SortedMap.get?_insert_self])
    simp [GetGroupsByMemberAddress, hidx, hinfo]

/-- A genesis whose one account `[1]` has account number 0, with the next number 1, and an
empty group store: the account of the group `CreateGroup` makes has account number 0 too. -/
theorem CreateGroup_reuses_accountNumber (ctx : σ) (info : Group) :
    let genesis : Auth.State := ⟨SortedMap.empty.insert [1] (.base { address := [1] }), 1⟩
    let ctx₀ := k.setStore (k.setAccounts ctx genesis) ⟨SortedMap.empty, 0, 0⟩
    let ctx₁ := (k.CreateGroup ctx₀ info).2
    ((k.accounts ctx₁).GetAccount [1]).map Auth.Account.GetAccountNumber = some 0 ∧
      ((k.accounts ctx₁).GetAccount (addrFromUint64 0)).map Auth.Account.GetAccountNumber =
        some 0 := by
  intro genesis ctx₀ ctx₁
  obtain ⟨-, hacc, -⟩ := k.CreateGroup_store ctx₀ info (by simp [ctx₀]; rfl)
  have hne : ([1] : AccAddress) ≠ addrFromUint64 0 := by decide
  have hacc₁ : k.accounts ctx₁ = genesis.SetAccount (.group { address := addrFromUint64 0 }) := by
    simpa [ctx₀] using hacc
  have hgenesis : genesis.GetAccount [1] = some (.base { address := [1] }) := rfl
  rw [hacc₁]
  simp [hne, hgenesis, Auth.Account.GetAddress, Auth.Account.GetAccountNumber,
    Auth.Account.baseAccount]

end Keeper

end CosmosSdk.Group
