import CosmosSdk.Store.KVStore
import Mathlib.Data.List.TakeWhile

/-!
# Prefix ranges and the prefix store

`PrefixEndBytes` (`store/types/utils.go`) bounds the key space of a prefix: the keys with
prefix `p` are exactly those in `[p, PrefixEndBytes p)`, an open end (`nil`) when `p` has no
byte below `0xFF` (`hasPrefix_iff`, `PrefixEndBytes_eq_none_iff`).  `InclusiveEndBytes b`
is the least key above `b` (`lt_InclusiveEndBytes_iff`).

`prefix.Store` (`store/prefix/store.go`) reads and writes its parent at the prefixed keys,
and iterates the parent over `[p ++ start, p ++ end)`, or up to `PrefixEndBytes p` for an
open end, stopping at the first key without the prefix and stripping the prefix from the
keys.  On a lawful parent every key of that range has the prefix, so the prefix store is a
lawful store of the parent's entries under the prefix (`NewStore_lawful`), and a run of
calls writes no parent key outside the prefix's key space.

The prefix is modelled as `UInt8` lists compared lexicographically, as `bytes.Compare` does.
A `nil` key, on which the Go store panics, is not a value of `Bytes` here.
-/

namespace CosmosSdk.Store

/-! ### Byte order facts -/

theorem UInt8.le_255 (c : UInt8) : c ≤ 255 := by
  have := c.toNat_lt
  simp only [UInt8.le_iff_toNat_le, UInt8.toNat_ofNat]
  omega

theorem UInt8.lt_add_one_iff {b c : UInt8} (hb : b ≠ 255) : c < b + 1 ↔ c ≤ b := by
  have hb' : b.toNat ≠ 255 := fun h => hb (UInt8.toNat_inj.mp (by simpa using h))
  have := b.toNat_lt
  simp only [UInt8.lt_iff_toNat_lt, UInt8.le_iff_toNat_le, UInt8.toNat_add, UInt8.toNat_ofNat]
  omega

theorem append_lt_append_left_iff (p a b : Bytes) : p ++ a < p ++ b ↔ a < b := by
  induction p with
  | nil => rfl
  | cons c p ih => simp [ih]

theorem append_le_append_left_iff (p a b : Bytes) : p ++ a ≤ p ++ b ↔ a ≤ b := by
  rw [← not_lt, ← not_lt, append_lt_append_left_iff]

/-! ### `PrefixEndBytes` and `InclusiveEndBytes` -/

/-- The loop of `PrefixEndBytes` on `end`, read from its last byte: a last byte below `0xFF`
is incremented; a last `0xFF` is cut off, and nothing left is `nil`. -/
def prefixEndLoop : List UInt8 → Option (List UInt8)
  | [] => none
  | b :: rest => if b ≠ 255 then some ((b + 1) :: rest) else prefixEndLoop rest

/-- `PrefixEndBytes`: `nil` for the empty prefix, else the loop on a copy of the prefix. -/
def PrefixEndBytes (pfx : Bytes) : Option Bytes :=
  if pfx.length = 0 then none else (prefixEndLoop pfx.reverse).map List.reverse

/-- `InclusiveEndBytes`. -/
def InclusiveEndBytes (inclusiveBytes : Bytes) : Bytes := inclusiveBytes ++ [0]

theorem prefixEndLoop_append (l : List UInt8) (b : UInt8) :
    prefixEndLoop (l ++ [b]) =
      ((prefixEndLoop l).map (· ++ [b])).or (if b = 255 then none else some [b + 1]) := by
  induction l with
  | nil => by_cases hb : b = 255 <;> simp [prefixEndLoop, hb]
  | cons c l ih => by_cases hc : c = 255 <;> simp [prefixEndLoop, hc, ih]

theorem PrefixEndBytes_eq (pfx : Bytes) :
    PrefixEndBytes pfx = (prefixEndLoop pfx.reverse).map List.reverse := by
  unfold PrefixEndBytes
  split_ifs with h
  · simp [List.length_eq_zero_iff.mp h, prefixEndLoop]
  · rfl

@[simp] theorem PrefixEndBytes_nil : PrefixEndBytes [] = none := rfl

/-- The end read from the first byte: the end of the rest behind the same first byte, or,
when the rest is all `0xFF`, the first byte incremented. -/
theorem PrefixEndBytes_cons (b : UInt8) (pfx : Bytes) :
    PrefixEndBytes (b :: pfx) =
      ((PrefixEndBytes pfx).map (b :: ·)).or (if b = 255 then none else some [b + 1]) := by
  rw [PrefixEndBytes_eq, PrefixEndBytes_eq, List.reverse_cons, prefixEndLoop_append]
  cases prefixEndLoop pfx.reverse <;> by_cases hb : b = 255 <;> simp [hb]

example : PrefixEndBytes [1, 255, 255] = some [2] := by decide

example : PrefixEndBytes [3, 7] = some [3, 8] := by decide

/-- `PrefixEndBytes` is `nil` exactly for a prefix of `0xFF` bytes only. -/
theorem PrefixEndBytes_eq_none_iff (pfx : Bytes) :
    PrefixEndBytes pfx = none ↔ ∀ b ∈ pfx, b = 255 := by
  induction pfx with
  | nil => simp
  | cons b pfx ih =>
    rw [PrefixEndBytes_cons, List.forall_mem_cons, ← ih]
    cases PrefixEndBytes pfx <;> by_cases hb : b = 255 <;> simp [hb]

/-- The key space of a prefix: a key has the prefix exactly when it is at least the prefix
and below its end, if any. -/
theorem hasPrefix_iff (pfx k : Bytes) :
    pfx <+: k ↔ pfx ≤ k ∧ ∀ e ∈ PrefixEndBytes pfx, k < e := by
  induction pfx generalizing k with
  | nil => simp [List.nil_prefix, ← not_lt, List.not_lt_nil]
  | cons b pfx ih =>
    cases k with
    | nil => simp [← not_lt, List.nil_lt_cons]
    | cons c k =>
      rw [List.cons_prefix_cons, ← not_lt, List.cons_lt_cons_iff, PrefixEndBytes_cons]
      -- the first bytes decide unless they are equal
      rcases lt_trichotomy c b with hc | rfl | hc
      · have hne : b ≠ c := (ne_of_lt hc).symm
        cases PrefixEndBytes pfx <;> simp [hc, hne]
      · rcases hend : PrefixEndBytes pfx with _ | e
        · -- the rest of the prefix is all `0xFF`: its keys are those above it
          have ih' : pfx <+: k ↔ ¬ k < pfx := by simpa [hend, ← not_lt] using ih k
          by_cases hc : c = 255
          · simp [hc, ih']
          · simp [hc, ih', List.cons_lt_cons_iff, UInt8.lt_add_one_iff hc]
        · -- the end is the rest's end behind the same first byte
          have ih' : pfx <+: k ↔ ¬ k < pfx ∧ k < e := by simpa [hend, ← not_lt] using ih k
          simp [ih']
      · have hne : b ≠ c := ne_of_lt hc
        have hnlt : ¬ c < b := not_lt_of_gt hc
        rcases PrefixEndBytes pfx with _ | e
        · by_cases hb : b = 255
          · exact absurd (hb ▸ hc) (not_lt_of_ge (UInt8.le_255 c))
          · simp [hb, hne, hnlt, List.cons_lt_cons_iff, UInt8.lt_add_one_iff hb, not_le_of_gt hc]
        · simp [hne, hne.symm, hnlt, List.cons_lt_cons_iff]

/-- `InclusiveEndBytes b` ends a range just above `b`. -/
theorem lt_InclusiveEndBytes_iff (b k : Bytes) : k < InclusiveEndBytes b ↔ k ≤ b := by
  unfold InclusiveEndBytes
  induction b generalizing k with
  | nil =>
    cases k with
    | nil => simp [List.nil_lt_cons]
    | cons c k => simp [List.cons_lt_cons_iff, ← not_lt, List.nil_lt_cons, UInt8.not_lt_zero]
  | cons d b ih =>
    cases k with
    | nil => simp [List.nil_lt_cons, ← not_lt]
    | cons c k =>
      rw [List.cons_append, List.cons_lt_cons_iff, ih]
      simp only [← not_lt, List.cons_lt_cons_iff]
      rcases lt_trichotomy c d with hc | rfl | hc
      · simp [hc, not_lt_of_gt hc, ne_of_lt hc, (ne_of_lt hc).symm]
      · simp
      · simp [hc, not_lt_of_gt hc, ne_of_lt hc, (ne_of_lt hc).symm]

/-- The bounds every prefix iterator is built from: the keys with a prefix are those in
`[p, PrefixEndBytes p)`, the end is open exactly for a prefix of `0xFF` bytes, and
`InclusiveEndBytes b` admits exactly the keys up to `b`. -/
theorem prefix_range_bounds :
    (∀ pfx k : Bytes, pfx <+: k ↔ pfx ≤ k ∧ ∀ e ∈ PrefixEndBytes pfx, k < e) ∧
      (∀ pfx : Bytes, PrefixEndBytes pfx = none ↔ ∀ b ∈ pfx, b = 255) ∧
      ∀ b k : Bytes, k < InclusiveEndBytes b ↔ k ≤ b :=
  ⟨hasPrefix_iff, PrefixEndBytes_eq_none_iff, lt_InclusiveEndBytes_iff⟩

/-! ### Prefix iterators -/

/-- The domain `[pfx, PrefixEndBytes pfx)` holds exactly the keys with the prefix. -/
theorem inDomain_prefix (pfx k : Bytes) :
    SortedMap.inDomain (some pfx) (PrefixEndBytes pfx) k = pfx.isPrefixOf k := by
  have h := hasPrefix_iff pfx k
  rw [Bool.eq_iff_iff, List.isPrefixOf_iff_prefix, h]
  cases PrefixEndBytes pfx <;> simp [SortedMap.inDomain]

/-- `KVStorePrefixIterator`. -/
def KVStorePrefixIterator {π : Type} (kvs : KVStore π) (p : π) (pfx : Bytes) :
    List (Bytes × Bytes) × π :=
  kvs.Iterator p (some pfx) (PrefixEndBytes pfx)

/-- `KVStoreReversePrefixIterator`. -/
def KVStoreReversePrefixIterator {π : Type} (kvs : KVStore π) (p : π) (pfx : Bytes) :
    List (Bytes × Bytes) × π :=
  kvs.ReverseIterator p (some pfx) (PrefixEndBytes pfx)

theorem KVStorePrefixIterator_entries {π : Type} {kvs : KVStore π} (hS : kvs.Lawful) (p : π)
    (pfx : Bytes) :
    (KVStorePrefixIterator kvs p pfx).1 = (kvs.contents p).entries.filter fun e => pfx.isPrefixOf e.1 := by
  simp only [KVStorePrefixIterator, hS.iterator, SortedMap.range, inDomain_prefix]

theorem KVStoreReversePrefixIterator_entries {π : Type} {kvs : KVStore π} (hS : kvs.Lawful)
    (p : π) (pfx : Bytes) :
    (KVStoreReversePrefixIterator kvs p pfx).1 =
      ((kvs.contents p).entries.filter fun e => pfx.isPrefixOf e.1).reverse := by
  simp only [KVStoreReversePrefixIterator, hS.reverseIterator, SortedMap.range, inDomain_prefix]

end CosmosSdk.Store

namespace CosmosSdk.Prefix

open CosmosSdk.Store

/-! ### The prefix store -/

/-- `cloneAppend`. -/
def cloneAppend (bz tail : Bytes) : Bytes := bz ++ tail

/-- `stripPrefix`.  The iterator calls it on keys it has just found to have the prefix, so
its panic for a key without the prefix is not modelled. -/
def stripPrefix (key pfx : Bytes) : Bytes := key.drop pfx.length

/-- The entries a `prefixIterator` yields from its parent's: the parent's entries as long as
their keys have the prefix (its `valid` flag), with the prefix stripped from the keys. -/
def newPrefixIterator (pfx : Bytes) (parent : List (Bytes × Bytes)) : List (Bytes × Bytes) :=
  (parent.takeWhile fun e => pfx.isPrefixOf e.1).map fun e => (stripPrefix e.1 pfx, e.2)

/-- The end of the parent's domain for an iterator over `[start, end)`: `cpIncr(prefix)`,
which is `PrefixEndBytes`, for an open end. -/
def newEnd (pfx : Bytes) : Option Bytes → Option Bytes
  | none => PrefixEndBytes pfx
  | some e => some (cloneAppend pfx e)

/-- Stripping a common prefix keeps the order of keys. -/
theorem stripPrefix_lt {pfx a b : Bytes} (ha : pfx <+: a) (hb : pfx <+: b) (h : a < b) :
    stripPrefix a pfx < stripPrefix b pfx := by
  rw [List.prefix_iff_eq_append] at ha hb
  rw [← ha, ← hb, append_lt_append_left_iff] at h
  exact h

/-- The map a prefix store holds: the parent's entries under keys with the prefix, the
prefix stripped. -/
def stripMap (pfx : Bytes) (m : SortedMap Bytes Bytes) : SortedMap Bytes Bytes :=
  ⟨m.entries.filterMap fun e => if pfx.isPrefixOf e.1 then some (stripPrefix e.1 pfx, e.2) else none,
    m.sorted.filterMap _ fun a b hab x hx y hy => by
      split_ifs at hx hy with ha hb
      cases hx
      cases hy
      exact stripPrefix_lt (List.isPrefixOf_iff_prefix.mp ha) (List.isPrefixOf_iff_prefix.mp hb) hab⟩

/-- `prefix.NewStore(parent, prefix)`, on the states of the parent. -/
def NewStore {π : Type} (parent : KVStore π) (pfx : Bytes) : KVStore π where
  contents p := stripMap pfx (parent.contents p)
  Get p key := parent.Get p (cloneAppend pfx key)
  Set p key value := parent.Set p (cloneAppend pfx key) value
  Delete p key := parent.Delete p (cloneAppend pfx key)
  Iterator p start end_ :=
    (newPrefixIterator pfx (parent.Iterator p (some (cloneAppend pfx (start.getD []))) (newEnd pfx end_)).1,
      (parent.Iterator p (some (cloneAppend pfx (start.getD []))) (newEnd pfx end_)).2)
  ReverseIterator p start end_ :=
    (newPrefixIterator pfx
        (parent.ReverseIterator p (some (cloneAppend pfx (start.getD []))) (newEnd pfx end_)).1,
      (parent.ReverseIterator p (some (cloneAppend pfx (start.getD []))) (newEnd pfx end_)).2)

/-! ### What the prefix store holds -/

theorem lookupL_stripMap (pfx k : Bytes) (l : List (Bytes × Bytes)) :
    SortedMap.lookupL k (l.filterMap fun e =>
      if pfx.isPrefixOf e.1 then some (stripPrefix e.1 pfx, e.2) else none) =
      SortedMap.lookupL (pfx ++ k) l := by
  induction l with
  | nil => rfl
  | cons e l ih =>
    obtain ⟨key, v⟩ := e
    by_cases hp : pfx <+: key
    · -- a key with the prefix is the prefixed key exactly when its rest is `k`
      obtain ⟨d, rfl⟩ := hp
      have hp' : pfx.isPrefixOf (pfx ++ d) = true :=
        List.isPrefixOf_iff_prefix.mpr (List.prefix_append pfx d)
      rw [List.filterMap_cons_some (b := (d, v)) (by simp only [hp', if_true, stripPrefix, List.drop_left])]
      simp only [SortedMap.lookupL_cons, List.append_cancel_left_eq, ih]
    · -- a key without the prefix is not the prefixed key
      have hp' : pfx.isPrefixOf key = false := by
        rw [← Bool.not_eq_true, List.isPrefixOf_iff_prefix]
        exact hp
      have hne : key ≠ pfx ++ k := fun h => hp (h ▸ List.prefix_append pfx k)
      rw [List.filterMap_cons_none (by simp only [hp', Bool.false_eq_true, if_false])]
      simp only [SortedMap.lookupL_cons, hne, if_false, ih]

@[simp] theorem get?_stripMap (pfx : Bytes) (m : SortedMap Bytes Bytes) (k : Bytes) :
    (stripMap pfx m).get? k = m.get? (pfx ++ k) :=
  lookupL_stripMap pfx k m.entries

/-! ### The parent's range -/

/-- A key below a key with the prefix is below the prefix's end. -/
theorem lt_PrefixEndBytes_of_lt_append {pfx key e' : Bytes} (h : key < pfx ++ e') :
    ∀ e ∈ PrefixEndBytes pfx, key < e :=
  fun e he => lt_trans h (((hasPrefix_iff pfx (pfx ++ e')).mp (List.prefix_append pfx e')).2 e he)

/-- The parent's domain of an iterator of the prefix store holds the keys with the prefix
whose rest lies in the iterator's domain. -/
theorem inDomain_newEnd (pfx : Bytes) (start end_ : Option Bytes) (key : Bytes) :
    SortedMap.inDomain (some (cloneAppend pfx (start.getD []))) (newEnd pfx end_) key =
      (pfx.isPrefixOf key && SortedMap.inDomain start end_ (stripPrefix key pfx)) := by
  rw [Bool.eq_iff_iff, Bool.and_eq_true, List.isPrefixOf_iff_prefix, SortedMap.inDomain_iff,
    SortedMap.inDomain_iff]
  simp only [Option.mem_def, Option.some.injEq, forall_eq', cloneAppend]
  constructor
  · rintro ⟨hstart, hend⟩
    -- a key of the domain is below the prefix's end, so it has the prefix
    have hbelow : ∀ e ∈ PrefixEndBytes pfx, key < e := by
      cases end_ with
      | none => exact hend
      | some e' => exact lt_PrefixEndBytes_of_lt_append (hend _ rfl)
    have hpfx : pfx <+: key := (hasPrefix_iff pfx key).mpr
      ⟨le_trans ((hasPrefix_iff pfx _).mp (List.prefix_append pfx _)).1 hstart, hbelow⟩
    obtain ⟨d, rfl⟩ := hpfx
    simp only [stripPrefix, List.drop_left]
    refine ⟨List.prefix_append pfx d, fun a ha => ?_, fun b hb => ?_⟩
    · subst ha
      exact (append_le_append_left_iff pfx _ _).mp hstart
    · subst hb
      exact (append_lt_append_left_iff pfx _ _).mp (hend _ rfl)
  · rintro ⟨⟨d, rfl⟩, hstart, hend⟩
    simp only [stripPrefix, List.drop_left] at hstart hend
    refine ⟨(append_le_append_left_iff pfx _ _).mpr ?_, ?_⟩
    · cases start with
      | none => exact not_lt.mp (List.not_lt_nil d)
      | some s => exact hstart s rfl
    · cases end_ with
      | none => exact ((hasPrefix_iff pfx (pfx ++ d)).mp (List.prefix_append pfx d)).2
      | some e' =>
        intro b hb
        simp only [newEnd, cloneAppend, Option.some.injEq] at hb
        subst hb
        exact (append_lt_append_left_iff pfx _ _).mpr (hend e' rfl)

/-- The parent's entries in the domain the prefix store asks for, with the prefix stripped,
are the entries of the prefix store's map in its own domain. -/
theorem range_newEnd (pfx : Bytes) (start end_ : Option Bytes) (l : List (Bytes × Bytes)) :
    (l.filter fun e => SortedMap.inDomain (some (cloneAppend pfx (start.getD []))) (newEnd pfx end_) e.1).map
        (fun e => (stripPrefix e.1 pfx, e.2)) =
      (l.filterMap fun e => if pfx.isPrefixOf e.1 then some (stripPrefix e.1 pfx, e.2) else none).filter
        fun e => SortedMap.inDomain start end_ e.1 := by
  induction l with
  | nil => rfl
  | cons e l ih =>
    rw [List.filter_cons, inDomain_newEnd]
    by_cases hp : pfx.isPrefixOf e.1 = true
    · rw [List.filterMap_cons_some (b := (stripPrefix e.1 pfx, e.2)) (by simp only [hp, if_true]),
        List.filter_cons]
      by_cases hd : SortedMap.inDomain start end_ (stripPrefix e.1 pfx) = true <;> simp [hp, hd, ih]
    · rw [List.filterMap_cons_none (by simp only [hp, Bool.false_eq_true, if_false])]
      simp [hp, ih]

/-- Every entry of the parent's range the prefix store asks for has the prefix. -/
theorem hasPrefix_of_mem_range {pfx : Bytes} {start end_ : Option Bytes} {m : SortedMap Bytes Bytes}
    {e : Bytes × Bytes}
    (he : e ∈ m.range (some (cloneAppend pfx (start.getD []))) (newEnd pfx end_)) : pfx <+: e.1 := by
  have hd := (List.mem_filter.mp he).2
  rw [inDomain_newEnd, Bool.and_eq_true, List.isPrefixOf_iff_prefix] at hd
  exact hd.1

theorem newPrefixIterator_range (pfx : Bytes) (start end_ : Option Bytes) (m : SortedMap Bytes Bytes) :
    newPrefixIterator pfx (m.range (some (cloneAppend pfx (start.getD []))) (newEnd pfx end_)) =
      (stripMap pfx m).range start end_ := by
  unfold newPrefixIterator
  rw [List.takeWhile_eq_self_iff.mpr fun e he =>
    List.isPrefixOf_iff_prefix.mpr (hasPrefix_of_mem_range he)]
  exact range_newEnd pfx start end_ m.entries

theorem newPrefixIterator_range_reverse (pfx : Bytes) (start end_ : Option Bytes)
    (m : SortedMap Bytes Bytes) :
    newPrefixIterator pfx (m.range (some (cloneAppend pfx (start.getD []))) (newEnd pfx end_)).reverse =
      ((stripMap pfx m).range start end_).reverse := by
  unfold newPrefixIterator
  rw [List.takeWhile_eq_self_iff.mpr fun e he =>
    List.isPrefixOf_iff_prefix.mpr (hasPrefix_of_mem_range (List.mem_reverse.mp he)), List.map_reverse]
  exact congrArg List.reverse (range_newEnd pfx start end_ m.entries)

/-! ### The prefix store is a store of the parent's entries under the prefix -/

section Lawful

variable {π : Type} {parent : KVStore π}

theorem stripMap_insert (pfx : Bytes) (m : SortedMap Bytes Bytes) (k v : Bytes) :
    stripMap pfx (m.insert (pfx ++ k) v) = (stripMap pfx m).insert k v := by
  ext k' : 1
  simp [List.append_cancel_left_eq]

theorem stripMap_erase (pfx : Bytes) (m : SortedMap Bytes Bytes) (k : Bytes) :
    stripMap pfx (m.erase (pfx ++ k)) = (stripMap pfx m).erase k := by
  ext k' : 1
  simp [List.append_cancel_left_eq]

theorem NewStore_lawful (hS : parent.Lawful) (pfx : Bytes) : (NewStore parent pfx).Lawful where
  get p k := by simp [NewStore, hS.get, cloneAppend]
  contents_get p k := by simp only [NewStore, hS.contents_get]
  set p k v := by simp only [NewStore, hS.set, cloneAppend, stripMap_insert]
  delete p k := by simp only [NewStore, hS.delete, cloneAppend, stripMap_erase]
  iterator p lo hi := by simp only [NewStore, hS.iterator, newPrefixIterator_range]
  contents_iterator p lo hi := by simp only [NewStore, hS.contents_iterator]
  reverseIterator p lo hi := by simp only [NewStore, hS.reverseIterator, newPrefixIterator_range_reverse]
  contents_reverseIterator p lo hi := by simp only [NewStore, hS.contents_reverseIterator]

/-- A call of the prefix store leaves every parent key without the prefix as it was. -/
theorem call_frame (hS : parent.Lawful) (pfx : Bytes) (p : π) (c : Call) {key : Bytes}
    (hkey : ¬ pfx <+: key) :
    (parent.contents ((NewStore parent pfx).call p c).2).get? key = (parent.contents p).get? key := by
  have hne : ∀ k, key ≠ pfx ++ k := fun k h => hkey (h ▸ List.prefix_append pfx k)
  cases c with
  | get k => simp only [KVStore.call, NewStore, hS.contents_get]
  | set k v => simp [KVStore.call, NewStore, hS.set, cloneAppend, hne]
  | delete k => simp [KVStore.call, NewStore, hS.delete, cloneAppend, hne]
  | iterator start end_ => simp only [KVStore.call, NewStore, hS.contents_iterator]
  | reverseIterator start end_ => simp only [KVStore.call, NewStore, hS.contents_reverseIterator]

theorem run_frame (hS : parent.Lawful) (pfx : Bytes) {key : Bytes} (hkey : ¬ pfx <+: key) :
    ∀ (cs : List Call) (p : π),
      (parent.contents ((NewStore parent pfx).run p cs).2).get? key = (parent.contents p).get? key
  | [], _ => rfl
  | c :: cs, p => by
    simp only [KVStore.run]
    rw [run_frame hS pfx hkey cs, call_frame hS pfx p c hkey]

end Lawful

/-- Over a lawful parent, every run of calls on the prefix store answers as the map of the
parent's entries under the prefix, writes the parent under the prefix only, and every entry
of the parent ranges its iterators read has the prefix. -/
theorem prefix_store_isolation {π : Type} {parent : KVStore π} (hS : parent.Lawful) (pfx : Bytes)
    (p : π) (calls : List Call) :
    ((NewStore parent pfx).run p calls).1 = (ofMap.run (stripMap pfx (parent.contents p)) calls).1 ∧
      (∀ key, (parent.contents ((NewStore parent pfx).run p calls).2).get? key =
        if pfx <+: key then
          (ofMap.run (stripMap pfx (parent.contents p)) calls).2.get? (key.drop pfx.length)
        else (parent.contents p).get? key) ∧
      ∀ (p' : π) (start end_ : Option Bytes) (e : Bytes × Bytes),
        e ∈ (parent.Iterator p' (some (cloneAppend pfx (start.getD []))) (newEnd pfx end_)).1 ++
          (parent.ReverseIterator p' (some (cloneAppend pfx (start.getD []))) (newEnd pfx end_)).1 →
        pfx <+: e.1 := by
  obtain ⟨hanswers, hcontents⟩ := (NewStore_lawful hS pfx).run calls p
  refine ⟨hanswers, fun key => ?_, fun p' start end_ e he => ?_⟩
  · split_ifs with hkey
    · -- a key under the prefix holds what the map holds under its rest
      obtain ⟨d, rfl⟩ := hkey
      rw [List.drop_left]
      exact (get?_stripMap pfx _ d).symm.trans (congrArg (SortedMap.get? · d) hcontents)
    · exact run_frame hS pfx hkey calls p
  · rw [hS.iterator, hS.reverseIterator, List.mem_append, List.mem_reverse] at he
    rcases he with he | he <;> exact hasPrefix_of_mem_range he

theorem prefix_store_isolation_ofMap :
    let m : SortedMap Bytes Bytes := ((∅ : SortedMap Bytes Bytes).insert [1, 2] [7]).insert [2] [8]
    let calls : List Call := [.set [3] [9], .iterator none none, .delete [2]]
    ofMap.Lawful ∧
      ((NewStore ofMap [1]).run m calls).1 = (ofMap.run (stripMap [1] (ofMap.contents m)) calls).1 ∧
      (∀ key, (ofMap.contents ((NewStore ofMap [1]).run m calls).2).get? key =
        if [1] <+: key then
          (ofMap.run (stripMap [1] (ofMap.contents m)) calls).2.get? (key.drop [1].length)
        else (ofMap.contents m).get? key) ∧
      ∀ (p' : SortedMap Bytes Bytes) (start end_ : Option Bytes) (e : Bytes × Bytes),
        e ∈ (ofMap.Iterator p' (some (cloneAppend [1] (start.getD []))) (newEnd [1] end_)).1 ++
          (ofMap.ReverseIterator p' (some (cloneAppend [1] (start.getD []))) (newEnd [1] end_)).1 →
        [1] <+: e.1 :=
  ⟨ofMap_lawful, prefix_store_isolation ofMap_lawful [1] _ _⟩

end CosmosSdk.Prefix
