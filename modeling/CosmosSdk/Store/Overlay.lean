import CosmosSdk.Store.CacheKV

/-!
# The map overlay

What a cache-wrapped store is for: a parent map and, since the last `Write`, the last write
of each key, a value set or a delete.  A read returns the last write of the key, or the
parent's value when there is none; an iterator yields the entries of the parent with the
writes applied whose keys lie in its domain, once each and in key order (`keySorted_range`,
`mem_range`); `Write` applies the writes to the parent and forgets them.
-/

namespace CosmosSdk.CacheKV

open CosmosSdk.Store SortedMap

/-- A parent map and the last write of each key: a value, or `none` for a delete. -/
structure Overlay where
  parent : SortedMap Bytes Bytes
  writes : SortedMap Bytes (Option Bytes)

namespace Overlay

/-- One write applied to a map. -/
def apply (m : SortedMap Bytes Bytes) (w : Bytes × Option Bytes) : SortedMap Bytes Bytes :=
  match w.2 with
  | some value => m.insert w.1 value
  | none => m.erase w.1

theorem get?_apply_self (m : SortedMap Bytes Bytes) (w : Bytes × Option Bytes) :
    (apply m w).get? w.1 = w.2 := by
  unfold apply
  split <;> simp_all

theorem get?_apply_ne (m : SortedMap Bytes Bytes) (w : Bytes × Option Bytes) {k : Bytes}
    (h : k ≠ w.1) : (apply m w).get? k = m.get? k := by
  unfold apply
  split <;> simp [h]

/-- The map the overlay stands for: the parent's, with the writes applied. -/
def view (o : Overlay) : SortedMap Bytes Bytes := o.writes.entries.foldl apply o.parent

/-- A read: the last write of the key, or else the parent's value. -/
def get (o : Overlay) (key : Bytes) : Option Bytes :=
  match o.writes.get? key with
  | some w => w
  | none => o.parent.get? key

@[simp] theorem get?_view (o : Overlay) (k : Bytes) : o.view.get? k = o.get k := by
  unfold view get
  cases hw : o.writes.get? k with
  | none =>
    -- no write names the key
    refine get?_foldl_of_forall_ne Prod.fst apply (fun m w k hk => get?_apply_ne m w hk) ?_ _
    rintro ⟨k', w⟩ hmem rfl
    rw [(mem_entries_iff _).1 hmem] at hw
    cases hw
  | some w =>
    -- the write of the key decides it
    have hmem : (k, w) ∈ o.writes.entries := (mem_entries_iff _).2 hw
    exact get?_foldl_of_mem Prod.fst apply (fun w _ => w.2) (fun m w => get?_apply_self m w)
      (fun m w k hk => get?_apply_ne m w hk) o.writes.nodup_keys hmem o.parent

/-- One call on the overlay. -/
def runOp (o : Overlay) : Op → Result × Overlay
  | .get key => (.value (o.get key), o)
  | .set key value => (.done, { o with writes := o.writes.insert key (some value) })
  | .delete key => (.done, { o with writes := o.writes.insert key none })
  | .has key => (.has (o.get key).isSome, o)
  | .iterator start end_ =>
    (.entries (some ((o.view.range start end_).map fun e => (e.1, some e.2))), o)
  | .reverseIterator start end_ =>
    (.entries (some ((o.view.range start end_).reverse.map fun e => (e.1, some e.2))), o)
  | .write => (.done, ⟨o.view, ∅⟩)

/-- Calls one after another. -/
def runOps (o : Overlay) : List Op → List Result × Overlay
  | [] => ([], o)
  | op :: ops =>
    let (r, o) := o.runOp op
    let (rs, o) := runOps o ops
    (r :: rs, o)

end Overlay

end CosmosSdk.CacheKV
