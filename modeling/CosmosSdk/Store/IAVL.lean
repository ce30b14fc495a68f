import Mathlib.Data.Finset.Basic

/-!
# Pruning of the IAVL store

`iavl.Store.Commit` (`store/iavl/store.go`) saves a new version of the tree and then
releases the version `numRecent` below the previous one, unless it is a multiple of
`storeEvery` (a state-sync waypoint).  The tree is modelled by its latest version and the
set of versions it still holds: `SaveVersion` adds the next version and `DeleteVersion`
removes the named one, as the IAVL library does for versions below the latest.  Hashes and
the tree's contents are not modelled.

From a tree at version 0 with pruning options `(keepRecent, keepEvery)`, both nonnegative,
`n` commits leave exactly the last `keepRecent + 1` versions and the multiples of
`keepEvery` (`Store.commitN_inv`): each commit releases the one version that leaves the
recent window.  `PruneNothing` keeps every version and `PruneEverything` the latest only.
-/

namespace CosmosSdk.IAVL

/-- `types.PruningOptions`. -/
structure PruningOptions where
  keepRecent : ℤ
  keepEvery : ℤ
  deriving DecidableEq, Repr

/-- `PruneEverything`. -/
def PruneEverything : PruningOptions := ⟨0, 0⟩

/-- `PruneNothing`. -/
def PruneNothing : PruningOptions := ⟨0, 1⟩

/-- `PruneSyncable`. -/
def PruneSyncable : PruningOptions := ⟨100, 10000⟩

/-- The versions an IAVL tree holds, and its latest version. -/
structure Tree where
  version : ℤ
  versions : Finset ℤ

/-- `SaveVersion`: the next version, saved. -/
def Tree.SaveVersion (t : Tree) : Tree × ℤ :=
  (⟨t.version + 1, insert (t.version + 1) t.versions⟩, t.version + 1)

/-- `DeleteVersion`. -/
def Tree.DeleteVersion (t : Tree) (version : ℤ) : Tree :=
  { t with versions := t.versions.erase version }

/-- `iavl.Store`: the tree, and how many old versions it keeps and which waypoints. -/
structure Store where
  tree : Tree
  numRecent : ℤ
  storeEvery : ℤ

namespace Store

/-- `SetPruning`. -/
def SetPruning (st : Store) (opt : PruningOptions) : Store :=
  { st with numRecent := opt.keepRecent, storeEvery := opt.keepEvery }

/-- `LoadStore` at version 0 with its pruning options: a tree with no version saved. -/
def LoadStore (pruning : PruningOptions) : Store :=
  (⟨⟨0, ∅⟩, 0, 0⟩ : Store).SetPruning pruning

/-- `Commit`, with the version of its `CommitID`.  Go's `%` is the remainder of truncated
division, `Int.tmod`. -/
def Commit (st : Store) : Store × ℤ :=
  let (tree, version) := st.tree.SaveVersion
  let st := { st with tree := tree }
  -- release an old version of history, if not a sync waypoint
  let previous := version - 1
  if st.numRecent < previous then
    let toRelease := previous - st.numRecent
    if st.storeEvery = 0 ∨ toRelease.tmod st.storeEvery ≠ 0 then
      ({ st with tree := st.tree.DeleteVersion toRelease }, version)
    else (st, version)
  else (st, version)

/-- `n` commits one after another. -/
def commitN (st : Store) : ℕ → Store
  | 0 => st
  | n + 1 => (st.commitN n).Commit.1

/-! ### The versions kept -/

/-- The versions `n` commits keep: the last `keepRecent + 1` and the multiples of
`keepEvery`. -/
def Retained (opt : PruningOptions) (n v : ℤ) : Prop :=
  (max 1 (n - opt.keepRecent) ≤ v ∧ v ≤ n) ∨
    (1 ≤ v ∧ v ≤ n ∧ 0 < opt.keepEvery ∧ v % opt.keepEvery = 0)

instance (opt : PruningOptions) (n v : ℤ) : Decidable (Retained opt n v) := by
  unfold Retained
  infer_instance

/-- What `n` commits under `opt` leave: the pruning numbers of `opt`, the latest version `n`,
and the versions `Retained`. -/
structure Inv (opt : PruningOptions) (n : ℤ) (st : Store) : Prop where
  numRecent : st.numRecent = opt.keepRecent
  storeEvery : st.storeEvery = opt.keepEvery
  version : st.tree.version = n
  versions : ∀ v, v ∈ st.tree.versions ↔ Retained opt n v

theorem LoadStore_inv (opt : PruningOptions) : Inv opt 0 (LoadStore opt) where
  numRecent := rfl
  storeEvery := rfl
  version := rfl
  versions v := by
    simp only [LoadStore, SetPruning, Finset.notMem_empty, false_iff, Retained]
    omega

section Commit

variable {opt : PruningOptions} {n : ℤ}

/-- A commit that releases no version keeps every version and adds the new one. -/
theorem Commit_keep (hn : 0 ≤ n) (hr₀ : 0 ≤ opt.keepRecent)
    (hkeep : ¬ opt.keepRecent < n ∨ (0 < opt.keepEvery ∧ (n - opt.keepRecent) % opt.keepEvery = 0))
    (v : ℤ) : v = n + 1 ∨ Retained opt n v ↔ Retained opt (n + 1) v := by
  unfold Retained
  rcases hkeep with hr | ⟨he', hmod⟩
  · -- the recent window still starts at the first version
    omega
  · -- the version leaving the window is a waypoint, and stays
    by_cases hv : v = n - opt.keepRecent
    · subst hv
      omega
    · omega

/-- A commit that releases `n - keepRecent` keeps every other version and adds the new
one. -/
theorem Commit_release (hr₀ : 0 ≤ opt.keepRecent) (hr : opt.keepRecent < n)
    (hrel : opt.keepEvery = 0 ∨ (n - opt.keepRecent) % opt.keepEvery ≠ 0) (v : ℤ) :
    v ≠ n - opt.keepRecent ∧ (v = n + 1 ∨ Retained opt n v) ↔ Retained opt (n + 1) v := by
  unfold Retained
  by_cases hv : v = n - opt.keepRecent
  · subst hv
    omega
  · omega

/-- The step lemma: a commit after `n` commits is the `n + 1`-st. -/
theorem Inv.Commit {st : Store} (hst : Inv opt n st) (hn : 0 ≤ n) (hr₀ : 0 ≤ opt.keepRecent)
    (he : 0 ≤ opt.keepEvery) : Inv opt (n + 1) st.Commit.1 := by
  obtain ⟨hrecent, hevery, hversion, hvs⟩ := hst
  have hprev : n + 1 - 1 = n := by omega
  unfold Store.Commit
  simp only [Tree.SaveVersion, hversion, hrecent, hevery, hprev]
  split_ifs with hr hrel
  · -- `n - keepRecent` leaves the recent window and is not a waypoint: it is released
    refine ⟨rfl, rfl, rfl, fun v => ?_⟩
    -- the remainder of Go is the one of the claim on the nonnegative version released
    rw [Int.tmod_eq_emod_of_nonneg (by omega)] at hrel
    rw [Tree.DeleteVersion, Finset.mem_erase, Finset.mem_insert, hvs]
    exact Commit_release hr₀ hr hrel v
  · refine ⟨rfl, rfl, rfl, fun v => ?_⟩
    rw [not_or, Int.tmod_eq_emod_of_nonneg (by omega), not_not] at hrel
    rw [Finset.mem_insert, hvs]
    exact Commit_keep hn hr₀ (.inr ⟨lt_of_le_of_ne he (Ne.symm hrel.1), hrel.2⟩) v
  · refine ⟨rfl, rfl, rfl, fun v => ?_⟩
    rw [Finset.mem_insert, hvs]
    exact Commit_keep hn hr₀ (.inl hr) v

end Commit

/-- The run lemma: `n` commits from a tree at version 0 leave what `Inv` says. -/
theorem commitN_inv {opt : PruningOptions} (hr : 0 ≤ opt.keepRecent) (he : 0 ≤ opt.keepEvery) :
    ∀ n : ℕ, Inv opt n ((LoadStore opt).commitN n)
  | 0 => LoadStore_inv opt
  | n + 1 => by
    have hcast : ((n + 1 : ℕ) : ℤ) = (n : ℤ) + 1 := by omega
    rw [hcast]
    exact (commitN_inv hr he n).Commit (by omega) hr he

/-- From version 0, `n` commits keep exactly the last `keepRecent + 1` versions and the
multiples of `keepEvery`. -/
theorem pruning_keeps_recent_and_waypoints (opt : PruningOptions) (hr : 0 ≤ opt.keepRecent)
    (he : 0 ≤ opt.keepEvery) (n : ℕ) :
    ((LoadStore opt).commitN n).tree.version = n ∧
      ∀ v, v ∈ ((LoadStore opt).commitN n).tree.versions ↔ Retained opt n v :=
  ⟨(commitN_inv hr he n).version, (commitN_inv hr he n).versions⟩

theorem pruning_keeps_recent_and_waypoints_syncable :
    0 ≤ PruneSyncable.keepRecent ∧ 0 ≤ PruneSyncable.keepEvery ∧
      ((LoadStore PruneSyncable).commitN 3).tree.version = (3 : ℕ) ∧
      ∀ v, v ∈ ((LoadStore PruneSyncable).commitN 3).tree.versions ↔ Retained PruneSyncable (3 : ℕ) v :=
  ⟨by decide, by decide, pruning_keeps_recent_and_waypoints PruneSyncable (by decide) (by decide) 3⟩

example : ((LoadStore ⟨1, 2⟩).commitN 5).tree.versions = {2, 4, 5} := by decide

/-- `PruneNothing` keeps every version saved. -/
theorem PruneNothing_versions (n : ℕ) (v : ℤ) :
    v ∈ ((LoadStore PruneNothing).commitN n).tree.versions ↔ 1 ≤ v ∧ v ≤ n := by
  rw [(commitN_inv (by decide) (by decide) n).versions, Retained]
  simp only [PruneNothing, max_le_iff, Int.emod_one, and_true]
  omega

/-- `PruneEverything` keeps the latest version only. -/
theorem PruneEverything_versions (n : ℕ) (v : ℤ) :
    v ∈ ((LoadStore PruneEverything).commitN n).tree.versions ↔ 1 ≤ v ∧ v = n := by
  rw [(commitN_inv (by decide) (by decide) n).versions, Retained]
  simp only [PruneEverything, max_le_iff]
  omega

end Store

end CosmosSdk.IAVL
