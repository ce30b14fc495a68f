import CosmosSdk.Types.Basic
import CosmosSdk.Lib.SortedMap
import Mathlib.Data.List.Nodup
import Mathlib.Data.String.Basic

/-!
# Multistore proofs

`store/rootmulti`: the root hash of a multistore commits to the hash of each substore under
its name.  `commitInfo.Hash` puts each store info's hash into a map from names, where a later
store info of a name replaces an earlier one, and hashes the map.  A `MultiStoreProofOp` is
the proof that a substore hash is under a root: `Run` takes the hash, finds the first store
info of the operator's key, compares, and returns the root that the proof's store infos hash
to.

Both hashes belong to tendermint and are parameters (`Hasher`): the hash of a store's core
(`storeInfo.Hash`, the `tmhash` of its encoding) and `SimpleHashFromMap`, which sees only the
map.  The operator's key is the name's bytes; the model takes it as the name.

With distinct names a proof binds its root to the hash the root commits to (`Run_sound`).  The
list of a proof is not checked for distinct names, and the first store info of a name is the
one `Run` checks while the last is the one hashed: a proof listing a name twice binds the root
of the multistore whose substore has the second hash to the first
(`Run_accepts_shadowed_storeInfo`).
-/

namespace CosmosSdk.Store

/-- `types.CommitID`. -/
structure CommitID where
  Version : ℤ
  Hash : Bytes
  deriving DecidableEq, Repr

/-- `storeCore`. -/
structure storeCore where
  CommitID : CommitID
  deriving DecidableEq, Repr

/-- `storeInfo`: a substore's name and core, a leaf of the multistore's merkle tree. -/
structure storeInfo where
  Name : String
  Core : storeCore
  deriving DecidableEq, Repr

/-- The hashes of tendermint that the multistore uses. -/
structure Hasher where
  /-- `storeInfo.Hash`: the hash of the store's encoded core; the name is not hashed. -/
  storeInfoHash : storeCore → Bytes
  /-- `merkle.SimpleHashFromMap`. -/
  SimpleHashFromMap : SortedMap String Bytes → Bytes

/-- The map of `commitInfo.Hash`: the hash of each store info under its name, filled in the
list's order. -/
def commitMap (hasher : Hasher) (storeInfos : List storeInfo) : SortedMap String Bytes :=
  storeInfos.foldl (fun m si => m.insert si.Name (hasher.storeInfoHash si.Core)) SortedMap.empty

/-- `commitInfo.Hash`: the simple merkle root of the stores by name. -/
def commitInfo.Hash (hasher : Hasher) (storeInfos : List storeInfo) : Bytes :=
  hasher.SimpleHashFromMap (commitMap hasher storeInfos)

/-- `MultiStoreProof`. -/
structure MultiStoreProof where
  StoreInfos : List storeInfo
  deriving DecidableEq, Repr

/-- `ComputeRootHash`: the hash of a commit info of the proof's store infos (its version,
`-1`, is not hashed). -/
def MultiStoreProof.ComputeRootHash (hasher : Hasher) (proof : MultiStoreProof) : Bytes :=
  commitInfo.Hash hasher proof.StoreInfos

/-- `MultiStoreProofOp`. -/
structure MultiStoreProofOp where
  key : String
  Proof : MultiStoreProof
  deriving DecidableEq, Repr

/-- `Run`: the root hash, if the one value is the hash of the first store info of the key. -/
def MultiStoreProofOp.Run (hasher : Hasher) (op : MultiStoreProofOp) (args : List Bytes) :
    Except String (List Bytes) :=
  match args with
  | [value] =>
    let root := op.Proof.ComputeRootHash hasher
    match op.Proof.StoreInfos.find? (fun si => si.Name = op.key) with
    | some si =>
      if value = si.Core.CommitID.Hash then pure [root]
      else throw ("hash mismatch for substore " ++ si.Name ++ ": " ++
        hexString si.Core.CommitID.Hash ++ " vs " ++ hexString value)
    | none => throw ("key " ++ op.key ++ " not found in multistore proof")
  | _ => throw "Value size is not 1"

/-- The store info whose hash `commitInfo.Hash` puts under a name: the last one of the name. -/
def committedStoreInfo (storeInfos : List storeInfo) (name : String) : Option storeInfo :=
  storeInfos.reverse.find? fun si => si.Name = name

/-- The map of `commitInfo.Hash` holds, under each name, the hash of its committed store
info. -/
theorem commitMap_get? (hasher : Hasher) (storeInfos : List storeInfo) (name : String) :
    (commitMap hasher storeInfos).get? name =
      (committedStoreInfo storeInfos name).map fun si => hasher.storeInfoHash si.Core := by
  simp only [commitMap, committedStoreInfo, SortedMap.get?_foldl_insert, SortedMap.get?_empty,
    Option.or_none]

/-- `Run` returns the root exactly when the value is the hash of the key's first store
info. -/
theorem Run_eq_ok {hasher : Hasher} {op : MultiStoreProofOp} {value : Bytes}
    {out : List Bytes} :
    op.Run hasher [value] = .ok out ↔
      out = [op.Proof.ComputeRootHash hasher] ∧
        ∃ si, op.Proof.StoreInfos.find? (fun si => si.Name = op.key) = some si ∧
          si.Core.CommitID.Hash = value := by
  simp only [MultiStoreProofOp.Run]
  split
  · rename_i si hsi
    by_cases hv : value = si.Core.CommitID.Hash
    · subst hv
      rw [if_pos rfl]
      constructor
      · intro h
        exact ⟨(Except.ok.inj h).symm, si, hsi, rfl⟩
      · rintro ⟨rfl, -⟩
        rfl
    · simp [hv, hsi, Ne.symm hv, throw, throwThe, MonadExceptOf.throw]
  · rename_i hnone
    simp [hnone, throw, throwThe, MonadExceptOf.throw]

/-- With distinct names, the first store info of a name is its last. -/
theorem committedStoreInfo_eq_find? {storeInfos : List storeInfo}
    (hnodup : (storeInfos.map (·.Name)).Nodup) (name : String) :
    committedStoreInfo storeInfos name = storeInfos.find? fun si => si.Name = name := by
  unfold committedStoreInfo
  cases hfirst : storeInfos.find? (fun si => si.Name = name) with
  | none =>
    rw [List.find?_eq_none] at hfirst ⊢
    exact fun si hsi => hfirst si (List.mem_reverse.mp hsi)
  | some si =>
    have hsi : si.Name = name := by simpa using List.find?_some hfirst
    have hmem : si ∈ storeInfos := List.mem_of_find?_eq_some hfirst
    cases hlast : storeInfos.reverse.find? (fun si => si.Name = name) with
    | none =>
      rw [List.find?_eq_none] at hlast
      exact absurd (by simpa using hsi) (hlast si (List.mem_reverse.mpr hmem))
    | some si' =>
      -- both carry the name, which names one store info only
      have hsi' : si'.Name = name := by simpa using List.find?_some hlast
      have hmem' : si' ∈ storeInfos := List.mem_reverse.mp (List.mem_of_find?_eq_some hlast)
      exact congrArg some (List.inj_on_of_nodup_map hnodup hmem' hmem (hsi'.trans hsi.symm))

/-- A proof with distinct store names binds its root to the hash that the root commits to
under the key. -/
theorem Run_sound {hasher : Hasher} {op : MultiStoreProofOp}
    (hnodup : (op.Proof.StoreInfos.map (·.Name)).Nodup) {value : Bytes} {out : List Bytes}
    (h : op.Run hasher [value] = .ok out) :
    out = [op.Proof.ComputeRootHash hasher] ∧
      ∃ si, committedStoreInfo op.Proof.StoreInfos op.key = some si ∧
        si.Core.CommitID.Hash = value := by
  obtain ⟨hout, si, hfind, hvalue⟩ := Run_eq_ok.mp h
  exact ⟨hout, si, by rw [committedStoreInfo_eq_find? hnodup, hfind], hvalue⟩

/-- A proof that lists a name twice, with any two hashes: `Run` accepts the first hash,
while the root it returns commits to the second under the name, and is the root of the
proof that lists the name once with the second hash. -/
theorem Run_accepts_shadowed_storeInfo (hasher : Hasher) (name : String) (hash₁ hash₂ : Bytes) :
    let proof : MultiStoreProof := ⟨[⟨name, ⟨⟨0, hash₁⟩⟩⟩, ⟨name, ⟨⟨0, hash₂⟩⟩⟩]⟩
    (⟨name, proof⟩ : MultiStoreProofOp).Run hasher [hash₁] = .ok [proof.ComputeRootHash hasher] ∧
      committedStoreInfo proof.StoreInfos name = some ⟨name, ⟨⟨0, hash₂⟩⟩⟩ ∧
      proof.ComputeRootHash hasher =
        (⟨[⟨name, ⟨⟨0, hash₂⟩⟩⟩]⟩ : MultiStoreProof).ComputeRootHash hasher := by
  intro proof
  refine ⟨?_, ?_, ?_⟩
  · rw [Run_eq_ok]
    exact ⟨rfl, ⟨name, ⟨⟨0, hash₁⟩⟩⟩, by simp [proof], rfl⟩
  · simp [proof, committedStoreInfo]
  · -- the second insert under the name replaces the first
    simp [proof, MultiStoreProof.ComputeRootHash, commitInfo.Hash, commitMap]

end CosmosSdk.Store
