import CosmosSdk.Store.CacheKVSpec

/-!
# The cache-wrapped store refines the map overlay

A well-formed cache-wrapped store over a lawful parent stands for the overlay of its writes
on its parent's contents (`toOverlay`).  Every call returns what the same call on that
overlay returns, and leaves a store that stands for the overlay the call leaves
(`runOp_refines`); from a fresh store, so does every sequence of calls (`runOps_refines`).
The store is then a lawful store in its own right (`cacheKVStore_lawful`), so that it can be
the parent of another cache.
-/

namespace CosmosSdk.CacheKV

open CosmosSdk.Store SortedMap cacheMergeIterator

namespace Store

/-- The overlay a store stands for: its parent's contents, and its writes. -/
def toOverlay {π : Type} (S : KVStore π) (s : Store π) : Overlay :=
  ⟨S.contents s.parent, dirty s⟩

section Refinement

variable {π : Type} {S : KVStore π}

theorem toOverlay_NewStore (parent : π) :
    toOverlay S (NewStore parent) = ⟨S.contents parent, ∅⟩ := rfl

/-- A write of the cache is a write of the overlay. -/
theorem toOverlay_setCacheValue_dirty (s : Store π) (key : Bytes) (value : Option Bytes)
    (deleted : Bool) :
    toOverlay S (s.setCacheValue key value deleted true) =
      { toOverlay S s with writes := (toOverlay S s).writes.insert key value } := by
  simp only [toOverlay, parent_setCacheValue, Overlay.mk.injEq, true_and]
  refine SortedMap.ext fun k => ?_
  by_cases hk : k = key <;> simp [get?_dirty_setCacheValue, hk]

theorem Get_refines (hS : S.Lawful) {s : Store π} (hs : WF S s) (key : Bytes) :
    (Get S s key).1 = (toOverlay S s).get key ∧
      toOverlay S (Get S s key).2 = toOverlay S s ∧ WF S (Get S s key).2 := by
  unfold Get
  cases hc : s.cache.get? key with
  | some cv =>
    -- a cached value: the write, or the parent's value read before
    refine ⟨?_, rfl, hs⟩
    simp only [toOverlay, Overlay.get, get?_dirty, hc, Option.bind_some]
    cases hd : cv.dirty
    · exact hs.clean key cv hc hd
    · rfl
  | none =>
    -- a read of the parent, cached clean
    rcases hg : S.Get s.parent key with ⟨value, parent⟩
    have hv : value = (S.contents s.parent).get? key := by
      simpa [hg] using hS.get s.parent key
    have hp : S.contents parent = S.contents s.parent := by
      simpa [hg] using hS.contents_get s.parent key
    refine ⟨?_, ?_, ?_⟩
    · simp [toOverlay, Overlay.get, get?_dirty, hc, hv]
    · simp only [toOverlay, parent_setCacheValue, Overlay.mk.injEq]
      refine ⟨hp, SortedMap.ext fun k => ?_⟩
      rw [get?_dirty_setCacheValue]
      by_cases hk : k = key
      · subst hk
        simp [get?_dirty, hc]
      · rw [if_neg hk]
        rfl
    · rw [hv, ← hp]
      exact WF_setCacheValue_clean hs hc parent hp

theorem Set_refines {s : Store π} (hs : WF S s) (key value : Bytes) :
    toOverlay S (Set s key value) =
        { toOverlay S s with writes := (toOverlay S s).writes.insert key (some value) } ∧
      WF S (Set s key value) :=
  ⟨toOverlay_setCacheValue_dirty s key (some value) false,
    WF_setCacheValue_dirty hs key (some value) false (by simp)⟩

theorem Delete_refines {s : Store π} (hs : WF S s) (key : Bytes) :
    toOverlay S (Delete s key) =
        { toOverlay S s with writes := (toOverlay S s).writes.insert key none } ∧
      WF S (Delete s key) :=
  ⟨toOverlay_setCacheValue_dirty s key none true, WF_setCacheValue_dirty hs key none true (by simp)⟩

/-- `Write` through a lawful parent writes the keys into the parent's contents. -/
theorem contents_foldl_writeKey (hS : S.Lawful) (l : List (Bytes × cValue)) (parent : π) :
    S.contents (l.foldl (writeKey S) parent) = l.foldl (writeKey ofMap) (S.contents parent) := by
  induction l generalizing parent with
  | nil => rfl
  | cons e l ih =>
    rw [List.foldl_cons, List.foldl_cons, ih]
    congr 1
    unfold writeKey
    split_ifs
    · exact hS.delete parent e.1
    · split
      · rfl
      · exact hS.set parent e.1 _

/-- What one key of `Write` makes of the key it writes. -/
theorem get?_writeKey_self (m : SortedMap Bytes Bytes) (e : Bytes × cValue) :
    (writeKey ofMap m e).get? e.1 =
      if e.2.deleted then none else match e.2.value with
        | none => m.get? e.1
        | some value => some value := by
  obtain ⟨key, ⟨value, deleted, dirty⟩⟩ := e
  cases deleted
  · cases value <;> simp [writeKey, ofMap]
  · simp [writeKey, ofMap]

theorem get?_writeKey_ne (m : SortedMap Bytes Bytes) (e : Bytes × cValue) {k : Bytes}
    (hk : k ≠ e.1) : (writeKey ofMap m e).get? k = m.get? k := by
  obtain ⟨key, ⟨value, deleted, dirty⟩⟩ := e
  cases deleted
  · cases value <;> simp [writeKey, ofMap, hk]
  · simp [writeKey, ofMap, hk]

theorem Write_refines (hS : S.Lawful) {s : Store π} (hs : WF S s) :
    toOverlay S (Write S s) = ⟨(toOverlay S s).view, ∅⟩ ∧ WF S (Write S s) := by
  refine ⟨?_, WF_NewStore _⟩
  rw [Write, toOverlay_NewStore, contents_foldl_writeKey hS]
  simp only [Overlay.mk.injEq, and_true]
  refine SortedMap.ext fun k => ?_
  rw [Overlay.get?_view]
  have hnodup : ((s.cache.entries.filter fun e => e.2.dirty).map Prod.fst).Nodup :=
    (s.cache.nodup_keys).sublist ((List.filter_sublist).map Prod.fst)
  cases hc : s.cache.get? k with
  | none =>
    -- a key the cache does not hold is the parent's
    rw [get?_foldl_of_forall_ne Prod.fst (writeKey ofMap) (fun m e k hk => get?_writeKey_ne m e hk)
      ?_]
    · simp [toOverlay, Overlay.get, get?_dirty, hc]
    · rintro ⟨k', cv⟩ he rfl
      rw [List.mem_filter, mem_entries_iff, hc] at he
      cases he.1
  | some cv =>
    cases hd : cv.dirty
    · -- a clean key is the parent's
      rw [get?_foldl_of_forall_ne Prod.fst (writeKey ofMap) (fun m e k hk => get?_writeKey_ne m e hk)
        ?_]
      · simp [toOverlay, Overlay.get, get?_dirty, hc, hd]
      · rintro ⟨k', cv'⟩ he rfl
        rw [List.mem_filter, mem_entries_iff, hc] at he
        obtain ⟨hcv, hdirty⟩ := he
        cases hcv
        rw [hd] at hdirty
        cases hdirty
    · -- a dirty key holds its write
      have hmem : (k, cv) ∈ s.cache.entries.filter fun e => e.2.dirty := by
        rw [List.mem_filter, mem_entries_iff]
        exact ⟨hc, hd⟩
      have hwrite := get?_foldl_of_mem Prod.fst (writeKey ofMap)
        (fun e o => if e.2.deleted then none else match e.2.value with
          | none => o
          | some value => some value)
        (fun m e => get?_writeKey_self m e) (fun m e k hk => get?_writeKey_ne m e hk) hnodup hmem
        (S.contents s.parent)
      simp only at hwrite
      rw [hwrite]
      simp only [toOverlay, Overlay.get, get?_dirty, hc, hd, Option.bind_some, if_true]
      have hdel := hs.deleted k cv hc hd
      cases hv : cv.value with
      | none => simp [hdel.2 hv]
      | some value =>
        have : cv.deleted = false := by simpa [hv] using hdel
        simp [this]

/-! ### Iterators -/

/-- The entries of a key-sorted list in the order of a direction. -/
theorem sorted_directed {α : Type} (ascending : Bool) {l : List (Bytes × α)} (h : KeySorted l) :
    Sorted ascending (if ascending then l else l.reverse) := by
  cases ascending
  · simp only [Bool.false_eq_true, if_false]
    exact List.pairwise_reverse.2 (h.imp fun hlt => by simpa [rel] using hlt)
  · simp only [if_true]
    exact h.imp fun hlt => by simpa [rel] using hlt

theorem lookupL_directed {α : Type} (ascending : Bool) {l : List (Bytes × α)} (h : KeySorted l)
    (k : Bytes) : lookupL k (if ascending then l else l.reverse) = lookupL k l := by
  cases ascending
  · exact lookupL_reverse (pairwise_ne_of_keySorted h) k
  · rfl

/-- A list in the order of a direction with the entries of a range is the range, in that
order. -/
theorem eq_directed_range {ascending : Bool} {l : List (Bytes × Bytes)}
    (m : SortedMap Bytes Bytes) (lo hi : Option Bytes) (hl : Sorted ascending l)
    (hmem : ∀ k v, (k, v) ∈ l ↔ (k, v) ∈ m.range lo hi) :
    l = if ascending then m.range lo hi else (m.range lo hi).reverse := by
  cases ascending
  · -- descending: the reversed list is key-sorted
    have hrev : l.reverse = m.range lo hi :=
      eq_of_mem_iff (List.pairwise_reverse.2 (hl.imp fun h => by simpa [rel] using h))
        (keySorted_range m lo hi) (by simpa using hmem)
    simp [← hrev]
  · exact eq_of_mem_iff (hl.imp fun h => by simpa [rel] using h) (keySorted_range m lo hi) hmem

theorem lookupL_range (m : SortedMap Bytes Bytes) (lo hi : Option Bytes) (k : Bytes) :
    lookupL k (m.range lo hi) = if IsKeyInDomain k lo hi then m.get? k else none := by
  rw [range, lookupL_filter_key, IsKeyInDomain_eq]
  rfl

theorem iterator_refines (hS : S.Lawful) {s : Store π} (hs : WF S s) (start end_ : Option Bytes)
    (ascending : Bool) :
    (iterator S s start end_ ascending).1 =
        some ((if ascending then (toOverlay S s).view.range start end_
          else ((toOverlay S s).view.range start end_).reverse).map fun e => (e.1, some e.2)) ∧
      toOverlay S (iterator S s start end_ ascending).2 = toOverlay S s ∧
      WF S (iterator S s start end_ ascending).2 := by
  rcases hpi : (if ascending then S.Iterator s.parent start end_
    else S.ReverseIterator s.parent start end_) with ⟨parent, p⟩
  -- the parent's iterator yields its range, and leaves its contents
  have hparent : parent = if ascending then (S.contents s.parent).range start end_
      else ((S.contents s.parent).range start end_).reverse := by
    cases ascending <;> simpa [hS.iterator, hS.reverseIterator] using (congrArg Prod.fst hpi).symm
  have hp : S.contents p = S.contents s.parent := by
    have := congrArg (fun r => S.contents r.2) hpi
    cases ascending <;> simpa [hS.contents_iterator, hS.contents_reverseIterator] using this.symm
  have hs₀ : WF S { s with parent := p } := hs.parent_congr hp
  have hs₁ := WF_dirtyItems hs₀ start end_
  simp only [iterator, hpi]
  refine ⟨?_, ?_, hs₁⟩
  · -- the cache's part: the writes of the domain, in the direction
    set items := ({ s with parent := p }.dirtyItems start end_).sortedCache
    have hitems : itemsInDomain start end_ false items =
        items.filter fun x => IsKeyInDomain x.1 start end_ :=
      itemsInDomain_eq_filter start end_ false items hs₁.sorted fun h => by cases h
    have hsortedP : Sorted ascending parent := hparent ▸ sorted_directed ascending (keySorted_range _ _ _)
    have hsortedC : Sorted ascending (newMemIterator start end_ items ascending) := by
      simp only [newMemIterator, hitems]
      exact sorted_directed ascending (hs₁.sorted.filter _)
    obtain ⟨entries, hyields, hsorted, hmem⟩ := yields_spec ascending parent _ hsortedP hsortedC
    rw [hyields]
    congr 2
    -- what the two rests stand for is the overlay over the domain
    have hmerged : ∀ k, merged parent (newMemIterator start end_ items ascending) k =
        if IsKeyInDomain k start end_ then (toOverlay S s).get k else none := by
      intro k
      have hC : lookupL k (newMemIterator start end_ items ascending) =
          if IsKeyInDomain k start end_ then lookupL k items else none := by
        simp only [newMemIterator, hitems]
        rw [lookupL_directed ascending (hs₁.sorted.filter _),
          lookupL_filter_key (fun key => IsKeyInDomain key start end_)]
      have hP : lookupL k parent =
          if IsKeyInDomain k start end_ then (S.contents s.parent).get? k else none := by
        rw [hparent, lookupL_directed ascending (keySorted_range _ _ _), lookupL_range]
      rw [merged, hC, hP]
      by_cases hk : IsKeyInDomain k start end_ = true
      · rw [if_pos hk, if_pos hk, if_pos hk, lookupL_sortedCache_dirtyItems hs₀ hk]
        rfl
      · rw [if_neg hk, if_neg hk, if_neg hk]
    refine eq_directed_range _ start end_ hsorted fun k v => ?_
    rw [hmem, hmerged, mem_range, Overlay.get?_view, ← IsKeyInDomain_eq]
    split_ifs with hk <;> simp [hk]
  · simp only [toOverlay, Overlay.mk.injEq]
    exact ⟨hp, rfl⟩

/-! ### Calls -/

theorem runOp_refines (hS : S.Lawful) {s : Store π} (hs : WF S s) (op : Op) :
    (runOp S s op).1 = ((toOverlay S s).runOp op).1 ∧
      toOverlay S (runOp S s op).2 = ((toOverlay S s).runOp op).2 ∧ WF S (runOp S s op).2 := by
  cases op with
  | get key =>
    obtain ⟨hvalue, hoverlay, hwf⟩ := Get_refines hS hs key
    exact ⟨by simp [runOp, Overlay.runOp, hvalue], hoverlay, hwf⟩
  | set key value =>
    obtain ⟨hoverlay, hwf⟩ := Set_refines hs key value
    exact ⟨rfl, hoverlay, hwf⟩
  | delete key =>
    obtain ⟨hoverlay, hwf⟩ := Delete_refines hs key
    exact ⟨rfl, hoverlay, hwf⟩
  | has key =>
    obtain ⟨hvalue, hoverlay, hwf⟩ := Get_refines hS hs key
    exact ⟨by simp [runOp, Has, Overlay.runOp, hvalue], hoverlay, hwf⟩
  | iterator start end_ =>
    obtain ⟨hentries, hoverlay, hwf⟩ := iterator_refines hS hs start end_ true
    exact ⟨by simpa [runOp, Iterator, Overlay.runOp] using hentries, hoverlay, hwf⟩
  | reverseIterator start end_ =>
    obtain ⟨hentries, hoverlay, hwf⟩ := iterator_refines hS hs start end_ false
    exact ⟨by simpa [runOp, ReverseIterator, Overlay.runOp] using hentries, hoverlay, hwf⟩
  | write =>
    obtain ⟨hoverlay, hwf⟩ := Write_refines hS hs
    exact ⟨rfl, hoverlay, hwf⟩

/-- A run of calls on a well-formed store returns what the run on its overlay returns. -/
theorem runOps_refines (hS : S.Lawful) (ops : List Op) :
    ∀ {s : Store π}, WF S s →
      (runOps S s ops).1 = ((toOverlay S s).runOps ops).1 ∧
        toOverlay S (runOps S s ops).2 = ((toOverlay S s).runOps ops).2 ∧ WF S (runOps S s ops).2 := by
  induction ops with
  | nil => exact fun hs => ⟨rfl, rfl, hs⟩
  | cons op ops ih =>
    intro s hs
    obtain ⟨hresult, hoverlay, hwf⟩ := runOp_refines hS hs op
    obtain ⟨hresults, hoverlay', hwf'⟩ := ih hwf
    simp only [runOps, Overlay.runOps]
    rw [← hoverlay]
    exact ⟨by rw [hresult, hresults], hoverlay', hwf'⟩

end Refinement

/-! ### The cache as a store -/

section Nesting

variable {π : Type} (S : KVStore π) (hS : S.Lawful)

/-- The entries of an iterator run, for a parent that expects values. -/
def entriesOf (entries : Option (List KVPair)) : List (Bytes × Bytes) :=
  (entries.getD []).filterMap fun e => e.2.map (e.1, ·)

theorem entriesOf_some_map (l : List (Bytes × Bytes)) :
    entriesOf (some (l.map fun e => (e.1, some e.2))) = l := by
  induction l with
  | nil => rfl
  | cons e l ih =>
    simp only [entriesOf, Option.getD_some, List.map_cons, List.filterMap_cons, Option.map_some]
    exact congrArg (e :: ·) ih

/-- A cache-wrapped store as a store: its well-formed states, standing for their overlay. -/
def cacheKVStore : KVStore { s : Store π // WF S s } where
  contents s := (toOverlay S s.1).view
  Get s key := ((Get S s.1 key).1, ⟨(Get S s.1 key).2, (Get_refines hS s.2 key).2.2⟩)
  Set s key value := ⟨Set s.1 key value, (Set_refines s.2 key value).2⟩
  Delete s key := ⟨Delete s.1 key, (Delete_refines s.2 key).2⟩
  Iterator s start end_ := (entriesOf (Iterator S s.1 start end_).1,
    ⟨(Iterator S s.1 start end_).2, (iterator_refines hS s.2 start end_ true).2.2⟩)
  ReverseIterator s start end_ := (entriesOf (ReverseIterator S s.1 start end_).1,
    ⟨(ReverseIterator S s.1 start end_).2, (iterator_refines hS s.2 start end_ false).2.2⟩)

theorem view_insert (o : Overlay) (key : Bytes) (value : Option Bytes) :
    { o with writes := o.writes.insert key value }.view =
      Overlay.apply o.view (key, value) := by
  refine SortedMap.ext fun k => ?_
  rw [Overlay.get?_view]
  by_cases hk : k = key
  · subst hk
    rw [Overlay.get?_apply_self]
    simp [Overlay.get]
  · rw [Overlay.get?_apply_ne _ _ hk, Overlay.get?_view]
    simp [Overlay.get, hk]

theorem cacheKVStore_lawful : (cacheKVStore S hS).Lawful where
  get s key := (Get_refines hS s.2 key).1.trans (Overlay.get?_view _ key).symm
  contents_get s key := congrArg Overlay.view (Get_refines hS s.2 key).2.1
  set s key value := by
    show (toOverlay S (Set s.1 key value)).view = _
    rw [(Set_refines s.2 key value).1, view_insert]
    rfl
  delete s key := by
    show (toOverlay S (Delete s.1 key)).view = _
    rw [(Delete_refines s.2 key).1, view_insert]
    rfl
  iterator s start end_ := by
    show entriesOf (iterator S s.1 start end_ true).1 = _
    rw [(iterator_refines hS s.2 start end_ true).1, if_pos rfl, entriesOf_some_map]
    rfl
  contents_iterator s start end_ :=
    congrArg Overlay.view (iterator_refines hS s.2 start end_ true).2.1
  reverseIterator s start end_ := by
    show entriesOf (iterator S s.1 start end_ false).1 = _
    rw [(iterator_refines hS s.2 start end_ false).1, if_neg Bool.false_ne_true,
      entriesOf_some_map]
    rfl
  contents_reverseIterator s start end_ :=
    congrArg Overlay.view (iterator_refines hS s.2 start end_ false).2.1

end Nesting

/-- A cache-wrapped store over any lawful parent refines the map overlay: from a fresh store,
every run of calls returns what the same run returns on the overlay of no writes on the
parent's contents, and leaves a store that stands for the overlay the run leaves; and the
cache is itself a lawful store, so that all this holds again of a cache wrapped around it. -/
theorem cacheKV_refines_overlay {π : Type} (S : KVStore π) (hS : S.Lawful) :
    (∀ (parent : π) (ops : List Op),
      (runOps S (NewStore parent) ops).1 = (Overlay.runOps ⟨S.contents parent, ∅⟩ ops).1 ∧
        toOverlay S (runOps S (NewStore parent) ops).2 =
          (Overlay.runOps ⟨S.contents parent, ∅⟩ ops).2) ∧
      (cacheKVStore S hS).Lawful :=
  ⟨fun parent ops => (runOps_refines hS ops (WF_NewStore parent)).imp_right And.left,
    cacheKVStore_lawful S hS⟩

/-- A cache over a plain map. -/
theorem cacheKV_refines_overlay_ofMap :
    (∀ (parent : SortedMap Bytes Bytes) (ops : List Op),
      (runOps ofMap (NewStore parent) ops).1 = (Overlay.runOps ⟨parent, ∅⟩ ops).1 ∧
        toOverlay ofMap (runOps ofMap (NewStore parent) ops).2 =
          (Overlay.runOps ⟨parent, ∅⟩ ops).2) ∧
      (cacheKVStore ofMap ofMap_lawful).Lawful :=
  cacheKV_refines_overlay ofMap ofMap_lawful

end Store

end CosmosSdk.CacheKV
