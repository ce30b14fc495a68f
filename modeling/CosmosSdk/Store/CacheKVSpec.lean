import CosmosSdk.Store.MergeIterator
import CosmosSdk.Store.Overlay

/-!
# The invariant of a cache-wrapped store

The writes since the last `Write` are the dirty entries of `cache` (`dirty`).  A store is
well formed (`WF`) when

* a clean entry holds its parent's value;
* a dirty entry is deleted exactly when its value is `nil`;
* a key waiting in `unsortedCache` is dirty;
* `sortedCache` is sorted, and holds the dirty value of every key not waiting in
  `unsortedCache`, and no other key.

Every call keeps it, given a lawful parent.  `dirtyItems` empties `unsortedCache` over the
domain of an iterator, so that the memory iterator then holds exactly the writes of the
domain (`lookupL_newMemIterator`).
-/

namespace CosmosSdk.CacheKV

open CosmosSdk.Store SortedMap

namespace Store

section Fields

variable {π : Type} (s : Store π) (key : Bytes) (value : Option Bytes) (deleted : Bool)

@[simp] theorem cache_setCacheValue (dirty : Bool) :
    (s.setCacheValue key value deleted dirty).cache = s.cache.insert key ⟨value, deleted, dirty⟩ := by
  cases dirty <;> rfl

@[simp] theorem unsortedCache_setCacheValue (dirty : Bool) :
    (s.setCacheValue key value deleted dirty).unsortedCache =
      if dirty then s.unsortedCache.insert key () else s.unsortedCache := by
  cases dirty <;> rfl

@[simp] theorem sortedCache_setCacheValue (dirty : Bool) :
    (s.setCacheValue key value deleted dirty).sortedCache = s.sortedCache := by
  cases dirty <;> rfl

@[simp] theorem parent_setCacheValue (dirty : Bool) :
    (s.setCacheValue key value deleted dirty).parent = s.parent := by
  cases dirty <;> rfl

@[simp] theorem cache_dirtyItems (start end_ : Option Bytes) :
    (s.dirtyItems start end_).cache = s.cache := rfl

@[simp] theorem parent_dirtyItems (start end_ : Option Bytes) :
    (s.dirtyItems start end_).parent = s.parent := rfl

end Fields

/-! ### The writes of a store -/

/-- The writes since the last `Write`: the value of each dirty key, `none` for a delete. -/
def dirty {π : Type} (s : Store π) : SortedMap Bytes (Option Bytes) :=
  s.cache.filterMap fun cv => if cv.dirty then some cv.value else none

theorem get?_dirty {π : Type} (s : Store π) (k : Bytes) :
    (dirty s).get? k = (s.cache.get? k).bind fun cv => if cv.dirty then some cv.value else none :=
  get?_filterMap _ _ k

theorem get?_dirty_setCacheValue {π : Type} (s : Store π) (key : Bytes) (value : Option Bytes)
    (deleted d : Bool) (k : Bytes) :
    (dirty (s.setCacheValue key value deleted d)).get? k =
      if k = key then (if d then some value else none) else (dirty s).get? k := by
  by_cases hk : k = key <;> simp [get?_dirty, hk]

section Invariant

variable {π : Type} (S : KVStore π)

/-- The invariant of a cache-wrapped store over the parent `S`. -/
structure WF (s : Store π) : Prop where
  clean : ∀ k cv, s.cache.get? k = some cv → cv.dirty = false →
    cv.value = (S.contents s.parent).get? k
  deleted : ∀ k cv, s.cache.get? k = some cv → cv.dirty = true →
    (cv.deleted = true ↔ cv.value = none)
  unsorted : ∀ k, s.unsortedCache.get? k = some () →
    ∃ cv, s.cache.get? k = some cv ∧ cv.dirty = true
  sorted : KeySorted s.sortedCache
  sortedCache : ∀ k, s.unsortedCache.get? k = none → lookupL k s.sortedCache = (dirty s).get? k

variable {S}

theorem WF_NewStore (parent : π) : WF S (NewStore parent) where
  clean _ _ h := by cases h
  deleted _ _ h := by cases h
  unsorted _ h := by cases h
  sorted := List.Pairwise.nil
  sortedCache _ _ := by simp [NewStore, get?_dirty]

/-- A write: a dirty value, deleted exactly when it is `nil`. -/
theorem WF_setCacheValue_dirty {s : Store π} (hs : WF S s) (key : Bytes) (value : Option Bytes)
    (deleted : Bool) (hdeleted : deleted = true ↔ value = none) :
    WF S (s.setCacheValue key value deleted true) where
  clean k cv h hd := by
    simp only [cache_setCacheValue, get?_insert] at h
    split_ifs at h
    · cases h
      cases hd
    · simpa using hs.clean k cv h hd
  deleted k cv h hd := by
    simp only [cache_setCacheValue, get?_insert] at h
    split_ifs at h
    · cases h
      exact hdeleted
    · exact hs.deleted k cv h hd
  unsorted k h := by
    simp only [unsortedCache_setCacheValue, if_true, get?_insert] at h
    simp only [cache_setCacheValue, get?_insert]
    split_ifs at h ⊢
    · exact ⟨_, rfl, rfl⟩
    · exact hs.unsorted k h
  sorted := by simpa using hs.sorted
  sortedCache k h := by
    simp only [unsortedCache_setCacheValue, if_true, get?_insert] at h
    split_ifs at h with hk
    rw [sortedCache_setCacheValue, get?_dirty_setCacheValue, if_neg hk]
    exact hs.sortedCache k h

/-- A read of the parent: a clean value of a key the cache did not hold, under a parent with
the same contents. -/
theorem WF_setCacheValue_clean {s : Store π} (hs : WF S s) {key : Bytes}
    (hkey : s.cache.get? key = none) (parent : π)
    (hparent : S.contents parent = S.contents s.parent) :
    WF S ({ s with parent }.setCacheValue key ((S.contents parent).get? key) false false) where
  clean k cv h hd := by
    simp only [cache_setCacheValue, get?_insert] at h
    simp only [parent_setCacheValue]
    split_ifs at h with hk
    · cases h
      rw [hk]
    · rw [hparent]
      exact hs.clean k cv h hd
  deleted k cv h hd := by
    simp only [cache_setCacheValue, get?_insert] at h
    split_ifs at h
    · cases h
      cases hd
    · exact hs.deleted k cv h hd
  unsorted k h := by
    -- the key was not cached, so it was not waiting either
    obtain ⟨cv, hcv, hd⟩ := hs.unsorted k h
    have hk : k ≠ key := by
      rintro rfl
      rw [hkey] at hcv
      cases hcv
    exact ⟨cv, by simp [hk, hcv], hd⟩
  sorted := hs.sorted
  sortedCache k h := by
    simp only [unsortedCache_setCacheValue, Bool.false_eq_true, if_false] at h
    rw [sortedCache_setCacheValue, get?_dirty_setCacheValue]
    simp only [Bool.false_eq_true, if_false]
    rw [hs.sortedCache k h]
    split_ifs with hk
    · subst hk
      rw [get?_dirty, hkey]
      rfl
    · rfl

/-- The invariant reads the parent only through its contents. -/
theorem WF.parent_congr {s : Store π} (hs : WF S s) {parent : π}
    (hparent : S.contents parent = S.contents s.parent) : WF S { s with parent } where
  clean k cv h hd := hparent ▸ hs.clean k cv h hd
  deleted := hs.deleted
  unsorted := hs.unsorted
  sorted := hs.sorted
  sortedCache := hs.sortedCache

end Invariant

/-! ### `dirtyItems` -/

theorem mem_mergeDirty (unsorted sorted : List KVPair) :
    ∀ x ∈ mergeDirty unsorted sorted, x ∈ unsorted ∨ x ∈ sorted := by
  fun_induction mergeDirty unsorted sorted with
  | case1 sorted => exact fun x hx => .inr hx
  | case2 uitem unsorted => exact fun x hx => .inl hx
  | case3 uitem unsorted sitem sorted _ ih =>
    intro x hx
    rcases List.mem_cons.1 hx with rfl | hx
    · exact .inl List.mem_cons_self
    · exact (ih x hx).imp_left (List.mem_cons_of_mem _)
  | case4 uitem unsorted sitem sorted _ ih =>
    intro x hx
    rcases List.mem_cons.1 hx with rfl | hx
    · exact .inr List.mem_cons_self
    · exact (ih x hx).imp_right (List.mem_cons_of_mem _)
  | case5 uitem unsorted sitem sorted _ ih =>
    intro x hx
    rcases List.mem_cons.1 hx with rfl | hx
    · exact .inl List.mem_cons_self
    · exact (ih x hx).imp (List.mem_cons_of_mem _) (List.mem_cons_of_mem _)

/-- A key below the head of a key-sorted list is below all of it. -/
theorem lt_of_lt_head {α : Type} {k : Bytes} {x : Bytes × α} {l : List (Bytes × α)}
    (h : KeySorted (x :: l)) (hk : k < x.1) : ∀ y ∈ x :: l, k < y.1 := by
  intro y hy
  rcases List.mem_cons.1 hy with rfl | hy
  · exact hk
  · exact hk.trans ((List.pairwise_cons.1 h).1 y hy)

/-- The loop of `dirtyItems` merges two sorted lists, the first one winning on a tie. -/
theorem mergeDirty_spec (unsorted sorted : List KVPair) :
    KeySorted unsorted → KeySorted sorted →
      KeySorted (mergeDirty unsorted sorted) ∧
        ∀ k, lookupL k (mergeDirty unsorted sorted) =
          (lookupL k unsorted).or (lookupL k sorted) := by
  fun_induction mergeDirty unsorted sorted with
  | case1 sorted => exact fun _ hs => ⟨hs, fun _ => rfl⟩
  | case2 uitem unsorted => exact fun hu _ => ⟨hu, fun _ => Option.or_none.symm⟩
  | case3 uitem unsorted sitem sorted hc ih =>
    -- the unsorted item comes first
    intro hu hs
    have hlt : uitem.1 < sitem.1 := bytesCompare_eq_lt.1 hc
    obtain ⟨huitem, hu⟩ := List.pairwise_cons.1 hu
    obtain ⟨hmerge, hlookup⟩ := ih hu hs
    refine ⟨List.Pairwise.cons (fun x hx => ?_) hmerge, fun k => ?_⟩
    · rcases mem_mergeDirty _ _ x hx with hx | hx
      · exact huitem x hx
      · exact lt_of_lt_head hs hlt x hx
    · rw [lookupL_cons k uitem, hlookup, lookupL_cons k uitem unsorted]
      split_ifs <;> rfl
  | case4 uitem unsorted sitem sorted hc ih =>
    -- the sorted item comes first; the unsorted list does not hold its key
    intro hu hs
    have hlt : sitem.1 < uitem.1 := bytesCompare_eq_gt.1 hc
    obtain ⟨hsitem, hs'⟩ := List.pairwise_cons.1 hs
    obtain ⟨hmerge, hlookup⟩ := ih hu hs'
    refine ⟨List.Pairwise.cons (fun x hx => ?_) hmerge, fun k => ?_⟩
    · rcases mem_mergeDirty _ _ x hx with hx | hx
      · exact lt_of_lt_head hu hlt x hx
      · exact hsitem x hx
    · rw [lookupL_cons k sitem, hlookup, lookupL_cons k sitem sorted]
      split_ifs with hk
      · rw [← hk, lookupL_eq_none_of_lt (lt_of_lt_head hu hlt)]
        rfl
      · rfl
  | case5 uitem unsorted sitem sorted hc ih =>
    -- equal keys: the unsorted item replaces the sorted one
    intro hu hs
    have heq : uitem.1 = sitem.1 := bytesCompare_eq_eq.1 hc
    obtain ⟨huitem, hu⟩ := List.pairwise_cons.1 hu
    obtain ⟨hsitem, hs⟩ := List.pairwise_cons.1 hs
    obtain ⟨hmerge, hlookup⟩ := ih hu hs
    refine ⟨List.Pairwise.cons (fun x hx => ?_) hmerge, fun k => ?_⟩
    · rcases mem_mergeDirty _ _ x hx with hx | hx
      · exact huitem x hx
      · exact heq ▸ hsitem x hx
    · rw [lookupL_cons k uitem, hlookup, lookupL_cons k uitem unsorted,
        lookupL_cons k sitem sorted]
      by_cases hk : uitem.1 = k
      · rw [if_pos hk, if_pos hk]
        rfl
      · rw [if_neg hk, if_neg hk, if_neg (heq ▸ hk)]

/-- The items of the memory iterator over a sorted list are the list's items in the domain. -/
theorem itemsInDomain_eq_filter (start end_ : Option Bytes) :
    ∀ (entered : Bool) (items : List KVPair), KeySorted items →
      (entered = true → ∀ x ∈ items, ¬ x.1 < start.getD []) →
      itemsInDomain start end_ entered items = items.filter fun x => IsKeyInDomain x.1 start end_
  | _, [], _, _ => rfl
  | entered, item :: items, hsorted, hentered => by
    obtain ⟨hitem, hsorted⟩ := List.pairwise_cons.1 hsorted
    rw [itemsInDomain]
    by_cases hin : IsKeyInDomain item.1 start end_ = true
    · -- in the domain: kept, and every later item is past the start
      rw [if_neg (by simp [hin]),
        List.filter_cons_of_pos (p := fun x : KVPair => IsKeyInDomain x.1 start end_) hin,
        itemsInDomain_eq_filter start end_ true items hsorted fun _ x hx =>
          fun hlt => not_lt_of_IsKeyInDomain hin (lt_trans (hitem x hx) hlt)]
    · rw [Bool.not_eq_true] at hin
      have hout : (!IsKeyInDomain item.1 start end_) = true := by simp [hin]
      rw [if_pos hout,
        List.filter_cons_of_neg (p := fun x : KVPair => IsKeyInDomain x.1 start end_) (by simp [hin])]
      cases entered
      · rw [if_neg Bool.false_ne_true]
        exact itemsInDomain_eq_filter start end_ false items hsorted fun h => by cases h
      · -- past the end of the domain: so is every later item
        have hstart := hentered rfl item List.mem_cons_self
        rw [if_pos rfl]
        symm
        refine List.filter_eq_nil_iff.2 fun x hx => ?_
        simp [IsKeyInDomain_eq_false_of_le hin hstart (le_of_lt (hitem x hx))]

section DirtyItems

variable {π : Type} {S : KVStore π}

/-- The keys `dirtyItems` moves: those waiting in `unsortedCache` within the domain. -/
theorem mem_dirtyKeys {s : Store π} {start end_ : Option Bytes} {k : Bytes} :
    k ∈ (s.unsortedCache.entries.map Prod.fst).filter (fun key => IsKeyInDomain key start end_) ↔
      s.unsortedCache.get? k = some () ∧ IsKeyInDomain k start end_ = true := by
  rw [List.mem_filter, mem_keys_iff]
  constructor
  · rintro ⟨⟨⟨⟩, h⟩, hk⟩
    exact ⟨h, hk⟩
  · rintro ⟨h, hk⟩
    exact ⟨⟨(), h⟩, hk⟩

/-- `dirtyItems` leaves no key of the domain waiting. -/
theorem get?_unsortedCache_dirtyItems (s : Store π) (start end_ : Option Bytes) (k : Bytes) :
    (s.dirtyItems start end_).unsortedCache.get? k =
      if IsKeyInDomain k start end_ then none else s.unsortedCache.get? k := by
  have hnodup := (s.unsortedCache.nodup_keys).filter fun key => IsKeyInDomain key start end_
  simp only [dirtyItems]
  by_cases hk : k ∈ (s.unsortedCache.entries.map Prod.fst).filter
      (fun key => IsKeyInDomain key start end_)
  · -- the key is moved
    rw [if_pos (mem_dirtyKeys.1 hk).2]
    exact get?_foldl_of_mem id (fun m key => m.erase key) (fun _ _ => none)
      (fun m key => get?_erase_self m key) (fun m key k hk => get?_erase_ne m hk)
      (by rw [List.map_id]; exact hnodup) hk s.unsortedCache
  · rw [get?_foldl_of_forall_ne id (fun m key => m.erase key)
      (fun m key k hk => get?_erase_ne m hk) (fun key hkey heq => hk (by rw [← heq]; exact hkey))]
    split_ifs with hdom
    · cases hU : s.unsortedCache.get? k with
      | none => rfl
      | some u => exact absurd (mem_dirtyKeys.2 ⟨hU, hdom⟩) hk
    · rfl

theorem WF_dirtyItems {s : Store π} (hs : WF S s) (start end_ : Option Bytes) :
    WF S (s.dirtyItems start end_) where
  clean := hs.clean
  deleted := hs.deleted
  unsorted k h := by
    rw [get?_unsortedCache_dirtyItems] at h
    split_ifs at h
    exact hs.unsorted k h
  sorted := by
    refine (mergeDirty_spec _ _ ?_ hs.sorted).1
    exact List.pairwise_map.2 ((List.pairwise_map.2 s.unsortedCache.sorted).filter _)
  sortedCache k h := by
    have hsortedA : KeySorted ((((s.unsortedCache.entries.map Prod.fst).filter fun key =>
        IsKeyInDomain key start end_)).map fun key => (key, (s.cache.get? key).bind cValue.value)) :=
      List.pairwise_map.2 ((List.pairwise_map.2 s.unsortedCache.sorted).filter _)
    simp only [dirtyItems]
    rw [(mergeDirty_spec _ _ hsortedA hs.sorted).2 k, lookupL_map_pair]
    rw [get?_unsortedCache_dirtyItems] at h
    split_ifs with hk
    · -- a moved key: its cached value, which is dirty
      obtain ⟨cv, hcv, hd⟩ := hs.unsorted k (mem_dirtyKeys.1 hk).1
      simp [get?_dirty, hcv, hd]
    · -- a key that did not wait: `sortedCache` already held its write
      have hU : s.unsortedCache.get? k = none := by
        split_ifs at h with hdom
        · cases hU : s.unsortedCache.get? k with
          | none => rfl
          | some u => exact absurd (mem_dirtyKeys.2 ⟨hU, hdom⟩) hk
        · exact h
      exact hs.sortedCache k hU

/-- After `dirtyItems`, `sortedCache` holds the write of every key of the domain. -/
theorem lookupL_sortedCache_dirtyItems {s : Store π} (hs : WF S s) {start end_ : Option Bytes}
    {k : Bytes} (hk : IsKeyInDomain k start end_ = true) :
    lookupL k (s.dirtyItems start end_).sortedCache = (dirty s).get? k :=
  (WF_dirtyItems hs start end_).sortedCache k (by rw [get?_unsortedCache_dirtyItems, if_pos hk])

end DirtyItems

end Store

end CosmosSdk.CacheKV
