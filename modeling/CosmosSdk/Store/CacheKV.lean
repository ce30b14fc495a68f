import CosmosSdk.Store.KVStore

/-!
# The cache-wrapped store

`store/cachekv`: a store that keeps the writes to its parent in memory until `Write`.

* `cache`: every key read or written, with its value, whether it was deleted, and whether it
  is dirty (written); a read of the parent is cached clean;
* `unsortedCache`: the dirty keys not yet placed in `sortedCache`;
* `sortedCache`: dirty entries in ascending key order, a deleted one with a `nil` value.
  An iterator first moves the dirty keys of its domain from `unsortedCache` into it
  (`dirtyItems`), then merges its entries in the domain (`newMemIterator`) with the parent's
  iterator (`cacheMergeIterator`), the cache shadowing the parent and a `nil` value hiding
  the key.

Go's maps are modelled by maps sorted by key: `Write` and `dirtyItems` sort what they read
from a map, so the order of Go's map iteration is never seen.  An iterator is modelled by
the entries it yields when it is run to its end right after it is made (`Valid`, `Key`,
`Value`, `Next` until `Valid` is false), or `none` where it panics; the parent's part is
the list its own iterator yields, and the cache's part is the snapshot of the memory
iterator.  Keys and values are never `nil` here (`AssertValidKey`, `AssertValidValue`), a
key of `unsortedCache` is always in `cache` (`setCacheValue` writes both), so these checks
and the `nil` dereference they guard are not modelled.
-/

namespace CosmosSdk.CacheKV

open Store

/-- `cValue`: a cached value, `none` for a `nil` one. -/
structure cValue where
  value : Option Bytes
  deleted : Bool
  dirty : Bool
  deriving DecidableEq, Repr

/-- `cmn.KVPair`, with a `nil` value as `none`. -/
abbrev KVPair := Bytes × Option Bytes

/-- `Store`, over a parent store with state `π`. -/
structure Store (π : Type) where
  cache : SortedMap Bytes cValue
  unsortedCache : SortedMap Bytes Unit
  sortedCache : List KVPair
  parent : π

/-- `NewStore`. -/
def NewStore {π : Type} (parent : π) : Store π := ⟨∅, ∅, [], parent⟩

namespace Store

variable {π : Type} (S : KVStore π)

/-- `setCacheValue`: the only write of `cache`; a dirty key also goes to `unsortedCache`. -/
def setCacheValue (s : Store π) (key : Bytes) (value : Option Bytes) (deleted dirty : Bool) :
    Store π :=
  let s := { s with cache := s.cache.insert key ⟨value, deleted, dirty⟩ }
  if dirty then { s with unsortedCache := s.unsortedCache.insert key () } else s

/-- `Get`: the cached value, or the parent's, which is then cached clean. -/
def Get (s : Store π) (key : Bytes) : Option Bytes × Store π :=
  match s.cache.get? key with
  | none =>
    let (value, parent) := S.Get s.parent key
    (value, setCacheValue { s with parent } key value false false)
  | some cacheValue => (cacheValue.value, s)

/-- `Set`. -/
def Set (s : Store π) (key value : Bytes) : Store π :=
  s.setCacheValue key (some value) false true

/-- `Has`: whether `Get` returns a value. -/
def Has (s : Store π) (key : Bytes) : Bool × Store π :=
  let (value, s) := Get S s key
  (value.isSome, s)

/-- `Delete`. -/
def Delete (s : Store π) (key : Bytes) : Store π :=
  s.setCacheValue key none true true

/-- One key of `Write`: a deleted key is deleted from the parent, a `nil` value is skipped
(the parent does not have the key), any other value is set. -/
def writeKey (parent : π) (e : Bytes × cValue) : π :=
  if e.2.deleted then S.Delete parent e.1
  else match e.2.value with
    | none => parent
    | some value => S.Set parent e.1 value

/-- `Write`: the dirty keys in sorted order written to the parent, then the cache cleared. -/
def Write (s : Store π) : Store π :=
  NewStore ((s.cache.entries.filter fun e => e.2.dirty).foldl (writeKey S) s.parent)

/-- The loop of `dirtyItems` that merges the sorted dirty items into `sortedCache`: an item
below the current element is inserted before it, one equal to it replaces it, and the rest
is pushed at the back once the list is passed. -/
def mergeDirty : List KVPair → List KVPair → List KVPair
  | [], sorted => sorted
  | uitem :: unsorted, [] => uitem :: unsorted
  | uitem :: unsorted, sitem :: sorted =>
    match bytesCompare uitem.1 sitem.1 with
    | .lt => uitem :: mergeDirty unsorted (sitem :: sorted)
    | .gt => sitem :: mergeDirty (uitem :: unsorted) sorted
    | .eq => uitem :: mergeDirty unsorted sorted
termination_by unsorted sorted => unsorted.length + sorted.length

/-- `dirtyItems(start, end)`: the unsorted dirty keys of the domain, with their cached
values, sorted and merged into `sortedCache`. -/
def dirtyItems (s : Store π) (start end_ : Option Bytes) : Store π :=
  let keys := (s.unsortedCache.entries.map Prod.fst).filter fun key =>
    IsKeyInDomain key start end_
  let unsorted : List KVPair := keys.map fun key => (key, (s.cache.get? key).bind cValue.value)
  { s with
    unsortedCache := keys.foldl (fun m key => m.erase key) s.unsortedCache
    sortedCache := mergeDirty unsorted s.sortedCache }

/-- The items of `newMemIterator`: the elements of the domain, up to the first element after
it (`entered` once one was in the domain). -/
def itemsInDomain (start end_ : Option Bytes) : Bool → List KVPair → List KVPair
  | _, [] => []
  | entered, item :: items =>
    if !IsKeyInDomain item.1 start end_ then
      if entered then [] else itemsInDomain start end_ false items
    else item :: itemsInDomain start end_ true items

/-- `newMemIterator`: its items in the order it yields them, from the end when
descending. -/
def newMemIterator (start end_ : Option Bytes) (items : List KVPair) (ascending : Bool) :
    List KVPair :=
  let itemsInDomain := itemsInDomain start end_ false items
  if ascending then itemsInDomain else itemsInDomain.reverse

end Store

/-! ### The merge iterator

`cacheMergeIterator`: its state is the rest of the parent's entries, the rest of the
cache's, and the direction. -/

namespace cacheMergeIterator

/-- `compare`: `bytes.Compare`, reversed when descending. -/
def compare (ascending : Bool) (a b : Bytes) : Ordering :=
  if ascending then bytesCompare a b else (bytesCompare a b).swap

theorem compare_swap (ascending : Bool) (a b : Bytes) :
    compare ascending b a = (compare ascending a b).swap := by
  cases ascending
  · simp only [compare, Bool.false_eq_true, if_false]
    rw [bytesCompare_swap a b]
  · simp only [compare, if_true]
    exact bytesCompare_swap a b

/-- `skipCacheDeletes(until)`: skip the deleted cache items below `until` (all of them for
`nil`). -/
def skipCacheDeletes (ascending : Bool) (until_ : Option Bytes) (cache : List KVPair) :
    List KVPair :=
  cache.dropWhile fun item =>
    item.2.isNone && until_.all fun u => compare ascending item.1 u == .lt

/-- `skipUntilExistsOrInvalid`: move past deleted items, and the parent's items they hide,
until the current item exists; whether the iterator is valid, and the rests. -/
def skipUntilExistsOrInvalid (ascending : Bool) :
    List (Bytes × Bytes) → List KVPair → Bool × List (Bytes × Bytes) × List KVPair
  | [], cache =>
    let cache := skipCacheDeletes ascending none cache
    (!cache.isEmpty, [], cache)
  | keyP :: parent, [] => (true, keyP :: parent, [])
  | keyP :: parent, keyC :: cache =>
    match hc : compare ascending keyP.1 keyC.1 with
    | .lt => (true, keyP :: parent, keyC :: cache)
    | .eq =>
      if keyC.2 = none then skipUntilExistsOrInvalid ascending parent cache
      else (true, keyP :: parent, keyC :: cache)
    | .gt =>
      if hv : keyC.2 = none then
        skipUntilExistsOrInvalid ascending (keyP :: parent)
          (skipCacheDeletes ascending (some keyP.1) (keyC :: cache))
      else (true, keyP :: parent, keyC :: cache)
termination_by parent cache => parent.length + cache.length
decreasing_by
  · simp only [List.length_cons]; omega
  · -- the current cache item is a delete below the parent's key, so it is skipped
    have hlt : compare ascending keyC.1 keyP.1 = .lt := by
      rw [compare_swap, hc]; rfl
    have hskip : skipCacheDeletes ascending (some keyP.1) (keyC :: cache) =
        skipCacheDeletes ascending (some keyP.1) cache :=
      List.dropWhile_cons_of_pos (by simp [hv, hlt])
    have hle := (List.dropWhile_suffix (l := cache) fun item =>
      item.2.isNone && (some keyP.1).all fun u => compare ascending item.1 u == .lt).length_le
    rw [hskip]
    simp only [skipCacheDeletes, List.length_cons] at hle ⊢
    omega

theorem length_skipCacheDeletes_le (ascending : Bool) (until_ : Option Bytes)
    (cache : List KVPair) : (skipCacheDeletes ascending until_ cache).length ≤ cache.length :=
  (List.dropWhile_suffix _).length_le

theorem length_skipUntilExistsOrInvalid_le (ascending : Bool) (parent : List (Bytes × Bytes))
    (cache : List KVPair) :
    (skipUntilExistsOrInvalid ascending parent cache).2.1.length +
      (skipUntilExistsOrInvalid ascending parent cache).2.2.length ≤
        parent.length + cache.length := by
  fun_induction skipUntilExistsOrInvalid ascending parent cache with
  | case1 cache => simpa using length_skipCacheDeletes_le ascending none cache
  | case4 keyP parent keyC cache _ _ ih =>
    simp only [List.length_cons] at ih ⊢
    omega
  | case6 keyP parent keyC cache _ _ ih =>
    have := length_skipCacheDeletes_le ascending (some keyP.1) (keyC :: cache)
    omega
  | _ => simp

/-- `assertValid`: `Valid`, with `none` for its panic. -/
def assertValid (ascending : Bool) (parent : List (Bytes × Bytes)) (cache : List KVPair) :
    Option (List (Bytes × Bytes) × List KVPair) :=
  match skipUntilExistsOrInvalid ascending parent cache with
  | (true, parent, cache) => some (parent, cache)
  | (false, _, _) => none

theorem length_assertValid_le {ascending : Bool} {parent parent' : List (Bytes × Bytes)}
    {cache cache' : List KVPair}
    (h : assertValid ascending parent cache = some (parent', cache')) :
    parent'.length + cache'.length ≤ parent.length + cache.length := by
  have hle := length_skipUntilExistsOrInvalid_le ascending parent cache
  unfold assertValid at h
  split at h
  · next heq =>
    rw [heq] at hle
    cases h
    exact hle
  · cases h

/-- The first lines of `Key`, `Value` and `Next`: `skipUntilExistsOrInvalid()`, then
`assertValid()`. -/
def skipAndAssertValid (ascending : Bool) (parent : List (Bytes × Bytes))
    (cache : List KVPair) : Option (List (Bytes × Bytes) × List KVPair) :=
  let r := skipUntilExistsOrInvalid ascending parent cache
  assertValid ascending r.2.1 r.2.2

theorem length_skipAndAssertValid_le {ascending : Bool} {parent parent' : List (Bytes × Bytes)}
    {cache cache' : List KVPair}
    (h : skipAndAssertValid ascending parent cache = some (parent', cache')) :
    parent'.length + cache'.length ≤ parent.length + cache.length :=
  (length_assertValid_le h).trans (length_skipUntilExistsOrInvalid_le ascending parent cache)

/-- The body of `Key` once the iterator is valid: the smaller current key. -/
def currentKey (ascending : Bool) : List (Bytes × Bytes) → List KVPair → Option Bytes
  | [], [] => none
  | [], keyC :: _ => some keyC.1
  | keyP :: _, [] => some keyP.1
  | keyP :: _, keyC :: _ =>
    match compare ascending keyP.1 keyC.1 with
    | .gt => some keyC.1
    | _ => some keyP.1

/-- `Key`; `none` for a panic. -/
def Key (ascending : Bool) (parent : List (Bytes × Bytes)) (cache : List KVPair) :
    Option (Bytes × List (Bytes × Bytes) × List KVPair) :=
  (skipAndAssertValid ascending parent cache).bind fun rests =>
    (currentKey ascending rests.1 rests.2).map fun key => (key, rests)

/-- The body of `Value` once the iterator is valid: the value at the current key, the
cache's on a tie. -/
def currentValue (ascending : Bool) : List (Bytes × Bytes) → List KVPair → Option (Option Bytes)
  | [], [] => none
  | [], keyC :: _ => some keyC.2
  | keyP :: _, [] => some (some keyP.2)
  | keyP :: _, keyC :: _ =>
    match compare ascending keyP.1 keyC.1 with
    | .lt => some (some keyP.2)
    | _ => some keyC.2

/-- `Value`; `none` for a panic. -/
def Value (ascending : Bool) (parent : List (Bytes × Bytes)) (cache : List KVPair) :
    Option (Option Bytes × List (Bytes × Bytes) × List KVPair) :=
  (skipAndAssertValid ascending parent cache).bind fun rests =>
    (currentValue ascending rests.1 rests.2).map fun value => (value, rests)

/-- The body of `Next` once the iterator is valid: advance the side of the current key, both
on a tie. -/
def advance (ascending : Bool) : List (Bytes × Bytes) → List KVPair →
    Option (List (Bytes × Bytes) × List KVPair)
  | [], [] => none
  | [], _ :: cache => some ([], cache)
  | _ :: parent, [] => some (parent, [])
  | keyP :: parent, keyC :: cache =>
    match compare ascending keyP.1 keyC.1 with
    | .lt => some (parent, keyC :: cache)
    | .eq => some (parent, cache)
    | .gt => some (keyP :: parent, cache)

/-- `Next`; `none` for a panic. -/
def Next (ascending : Bool) (parent : List (Bytes × Bytes)) (cache : List KVPair) :
    Option (List (Bytes × Bytes) × List KVPair) :=
  (skipAndAssertValid ascending parent cache).bind fun rests =>
    advance ascending rests.1 rests.2

theorem skipAndAssertValid_of_Key {ascending : Bool} {parent parent' : List (Bytes × Bytes)}
    {cache cache' : List KVPair} {key : Bytes}
    (h : Key ascending parent cache = some (key, parent', cache')) :
    skipAndAssertValid ascending parent cache = some (parent', cache') := by
  obtain ⟨rests, h₁, h⟩ := Option.bind_eq_some_iff.1 h
  obtain ⟨_, -, h⟩ := Option.map_eq_some_iff.1 h
  cases h
  exact h₁

theorem skipAndAssertValid_of_Value {ascending : Bool} {parent parent' : List (Bytes × Bytes)}
    {cache cache' : List KVPair} {value : Option Bytes}
    (h : Value ascending parent cache = some (value, parent', cache')) :
    skipAndAssertValid ascending parent cache = some (parent', cache') := by
  obtain ⟨rests, h₁, h⟩ := Option.bind_eq_some_iff.1 h
  obtain ⟨_, -, h⟩ := Option.map_eq_some_iff.1 h
  cases h
  exact h₁

theorem length_advance_lt {ascending : Bool} :
    ∀ {parent : List (Bytes × Bytes)} {cache : List KVPair} {parent' : List (Bytes × Bytes)}
      {cache' : List KVPair},
      advance ascending parent cache = some (parent', cache') →
        parent'.length + cache'.length < parent.length + cache.length
  | [], [], _, _, h => by simp [advance] at h
  | [], _ :: _, _, _, h => by
    simp only [advance, Option.some.injEq, Prod.mk.injEq] at h
    obtain ⟨rfl, rfl⟩ := h
    simp
  | _ :: _, [], _, _, h => by
    simp only [advance, Option.some.injEq, Prod.mk.injEq] at h
    obtain ⟨rfl, rfl⟩ := h
    simp
  | keyP :: _, keyC :: _, _, _, h => by
    simp only [advance] at h
    split at h <;>
    · simp only [Option.some.injEq, Prod.mk.injEq] at h
      obtain ⟨rfl, rfl⟩ := h
      simp only [List.length_cons]
      omega

theorem length_Next_lt {ascending : Bool} {parent parent' : List (Bytes × Bytes)}
    {cache cache' : List KVPair} (h : Next ascending parent cache = some (parent', cache')) :
    parent'.length + cache'.length < parent.length + cache.length := by
  obtain ⟨⟨parent₁, cache₁⟩, h₁, h⟩ := Option.bind_eq_some_iff.1 h
  exact (length_advance_lt h).trans_le (length_skipAndAssertValid_le h₁)

/-- The entries an iterator yields to the loop `for ; Valid(); Next() { Key(); Value() }`,
or `none` where one of the calls panics. -/
def yields (ascending : Bool) (parent : List (Bytes × Bytes)) (cache : List KVPair) :
    Option (List KVPair) :=
  match hs : skipUntilExistsOrInvalid ascending parent cache with
  | (false, _, _) => some []
  | (true, parent₁, cache₁) =>
    match hk : Key ascending parent₁ cache₁ with
    | none => none
    | some (key, parent₂, cache₂) =>
      match hv : Value ascending parent₂ cache₂ with
      | none => none
      | some (value, parent₃, cache₃) =>
        match hn : Next ascending parent₃ cache₃ with
        | none => none
        | some (parent₄, cache₄) =>
          ((key, value) :: ·) <$> yields ascending parent₄ cache₄
termination_by parent.length + cache.length
decreasing_by
  have h₁ := length_skipUntilExistsOrInvalid_le ascending parent cache
  rw [hs] at h₁
  have h₂ := length_skipAndAssertValid_le (skipAndAssertValid_of_Key hk)
  have h₃ := length_skipAndAssertValid_le (skipAndAssertValid_of_Value hv)
  have h₄ := length_Next_lt hn
  simp only at h₁
  omega

end cacheMergeIterator

namespace Store

variable {π : Type} (S : KVStore π)

/-- `iterator(start, end, ascending)`: the parent's iterator, the dirty items of the domain
moved into `sortedCache`, the memory iterator over it, and the merge of the two, run to its
end. -/
def iterator (s : Store π) (start end_ : Option Bytes) (ascending : Bool) :
    Option (List KVPair) × Store π :=
  let (parent, p) :=
    if ascending then S.Iterator s.parent start end_ else S.ReverseIterator s.parent start end_
  let s := dirtyItems { s with parent := p } start end_
  let cache := newMemIterator start end_ s.sortedCache ascending
  (cacheMergeIterator.yields ascending parent cache, s)

/-- `Iterator`. -/
def Iterator (s : Store π) (start end_ : Option Bytes) : Option (List KVPair) × Store π :=
  iterator S s start end_ true

/-- `ReverseIterator`. -/
def ReverseIterator (s : Store π) (start end_ : Option Bytes) : Option (List KVPair) × Store π :=
  iterator S s start end_ false

end Store

/-! ### Sequences of calls -/

/-- A call on a cache-wrapped store. -/
inductive Op
  | get (key : Bytes)
  | set (key value : Bytes)
  | delete (key : Bytes)
  | has (key : Bytes)
  | iterator (start end_ : Option Bytes)
  | reverseIterator (start end_ : Option Bytes)
  | write
  deriving DecidableEq, Repr

/-- What a call returns: a value (`none` for `nil`), whether the key is there, the entries an
iterator yields (`none` where it panics), or nothing. -/
inductive Result
  | value (value : Option Bytes)
  | has (has : Bool)
  | entries (entries : Option (List KVPair))
  | done
  deriving DecidableEq, Repr

namespace Store

variable {π : Type} (S : KVStore π)

/-- One call. -/
def runOp (s : Store π) : Op → Result × Store π
  | .get key => let (value, s) := Get S s key; (.value value, s)
  | .set key value => (.done, Set s key value)
  | .delete key => (.done, Delete s key)
  | .has key => let (has, s) := Has S s key; (.has has, s)
  | .iterator start end_ => let (entries, s) := Iterator S s start end_; (.entries entries, s)
  | .reverseIterator start end_ =>
    let (entries, s) := ReverseIterator S s start end_; (.entries entries, s)
  | .write => (.done, Write S s)

/-- Calls one after another: what each returns, and the store after the last. -/
def runOps (s : Store π) : List Op → List Result × Store π
  | [] => ([], s)
  | op :: ops =>
    let (r, s) := runOp S s op
    let (rs, s) := runOps s ops
    (r :: rs, s)

end Store

end CosmosSdk.CacheKV
