import CosmosSdk.Types.Basic
import CosmosSdk.Lib.SortedMap

/-!
# Key-value stores

`types.KVStore`: a store of byte values under byte keys, iterated in the order of
`bytes.Compare` over a half-open domain `[start, end)`, where a missing bound (a `nil` slice)
leaves that side open.  A Go `nil` value is `none`.

A store is given by its operations on a state `π` and by what it holds (`contents`); it is
lawful when the operations read and write `contents` as a map does, and reads leave it as it
was.  The parent of a cache is any lawful store (`KVStore.Lawful`): a map itself
(`ofMap`), or a cache of one.
-/

namespace CosmosSdk.Store

/-- `bytes.Compare`: byte slices in lexicographic order, the order of every store's keys. -/
def bytesCompare (a b : Bytes) : Ordering :=
  if a < b then .lt else if a = b then .eq else .gt

@[simp] theorem bytesCompare_eq_lt {a b : Bytes} : bytesCompare a b = .lt ↔ a < b := by
  unfold bytesCompare
  split_ifs <;> simp_all

@[simp] theorem bytesCompare_eq_eq {a b : Bytes} : bytesCompare a b = .eq ↔ a = b := by
  unfold bytesCompare
  split_ifs with h₁ h₂
  · simp [ne_of_lt h₁]
  · simp [h₂]
  · simp [h₂]

@[simp] theorem bytesCompare_eq_gt {a b : Bytes} : bytesCompare a b = .gt ↔ b < a := by
  unfold bytesCompare
  split_ifs with h₁ h₂
  · simp [le_of_lt h₁]
  · simp [h₂]
  · simp only [true_iff]
    exact lt_of_le_of_ne (not_lt.1 h₁) (Ne.symm h₂)

theorem bytesCompare_swap (a b : Bytes) : bytesCompare b a = (bytesCompare a b).swap := by
  rcases lt_trichotomy a b with h | rfl | h
  · rw [bytesCompare_eq_gt.2 h, bytesCompare_eq_lt.2 h]; rfl
  · rw [bytesCompare_eq_eq.2 rfl]; rfl
  · rw [bytesCompare_eq_lt.2 h, bytesCompare_eq_gt.2 h]; rfl

/-- `dbm.IsKeyInDomain`: `start ≤ key`, and `key < end` unless `end` is `nil`.  A `nil` start
compares as the empty slice, below every key. -/
def IsKeyInDomain (key : Bytes) (start end_ : Option Bytes) : Bool :=
  !decide (key < start.getD []) &&
    match end_ with
    | none => true
    | some e => !decide (e ≤ key)

theorem IsKeyInDomain_eq (key : Bytes) (start end_ : Option Bytes) :
    IsKeyInDomain key start end_ = SortedMap.inDomain start end_ key := by
  unfold IsKeyInDomain SortedMap.inDomain
  -- the empty slice is the least key
  have hnil : ¬ key < [] := List.not_lt_nil key
  rw [Bool.eq_iff_iff]
  cases start <;> cases end_ <;> simp [hnil, not_lt]

theorem not_lt_of_IsKeyInDomain {key : Bytes} {start end_ : Option Bytes}
    (h : IsKeyInDomain key start end_ = true) : ¬ key < start.getD [] := by
  unfold IsKeyInDomain at h
  simp only [Bool.and_eq_true, Bool.not_eq_true', decide_eq_false_iff_not] at h
  exact h.1

/-- A key past the end of a domain: every larger key is past it too. -/
theorem IsKeyInDomain_eq_false_of_le {key key' : Bytes} {start end_ : Option Bytes}
    (h : IsKeyInDomain key start end_ = false) (hstart : ¬ key < start.getD [])
    (hle : key ≤ key') : IsKeyInDomain key' start end_ = false := by
  cases end_ with
  | none => simp [IsKeyInDomain, hstart] at h
  | some e =>
    simp only [IsKeyInDomain, hstart, decide_false, Bool.not_false, Bool.true_and,
      Bool.not_eq_false', decide_eq_true_eq] at h
    simp [IsKeyInDomain, h.trans hle]

/-- A key-value store on states `π`. -/
structure KVStore (π : Type) where
  /-- What the store holds. -/
  contents : π → SortedMap Bytes Bytes
  Get : π → Bytes → Option Bytes × π
  Set : π → Bytes → Bytes → π
  Delete : π → Bytes → π
  /-- The entries an iterator over `[start, end)` yields, in order. -/
  Iterator : π → Option Bytes → Option Bytes → List (Bytes × Bytes) × π
  ReverseIterator : π → Option Bytes → Option Bytes → List (Bytes × Bytes) × π

/-- A store that behaves as the map it holds. -/
structure KVStore.Lawful {π : Type} (S : KVStore π) : Prop where
  get : ∀ p k, (S.Get p k).1 = (S.contents p).get? k
  contents_get : ∀ p k, S.contents (S.Get p k).2 = S.contents p
  set : ∀ p k v, S.contents (S.Set p k v) = (S.contents p).insert k v
  delete : ∀ p k, S.contents (S.Delete p k) = (S.contents p).erase k
  iterator : ∀ p lo hi, (S.Iterator p lo hi).1 = (S.contents p).range lo hi
  contents_iterator : ∀ p lo hi, S.contents (S.Iterator p lo hi).2 = S.contents p
  reverseIterator : ∀ p lo hi, (S.ReverseIterator p lo hi).1 = ((S.contents p).range lo hi).reverse
  contents_reverseIterator : ∀ p lo hi, S.contents (S.ReverseIterator p lo hi).2 = S.contents p

/-- A map as a store. -/
def ofMap : KVStore (SortedMap Bytes Bytes) where
  contents m := m
  Get m k := (m.get? k, m)
  Set m k v := m.insert k v
  Delete m k := m.erase k
  Iterator m lo hi := (m.range lo hi, m)
  ReverseIterator m lo hi := ((m.range lo hi).reverse, m)

theorem ofMap_lawful : ofMap.Lawful where
  get _ _ := rfl
  contents_get _ _ := rfl
  set _ _ _ := rfl
  delete _ _ := rfl
  iterator _ _ _ := rfl
  contents_iterator _ _ _ := rfl
  reverseIterator _ _ _ := rfl
  contents_reverseIterator _ _ _ := rfl

/-! ### Calls one after another -/

/-- A call of the store interface. -/
inductive Call
  | get (key : Bytes)
  | set (key value : Bytes)
  | delete (key : Bytes)
  | iterator (start end_ : Option Bytes)
  | reverseIterator (start end_ : Option Bytes)
  deriving DecidableEq, Repr

/-- What a call returns: a value (`nil` as `none`), nothing, or the entries an iterator
yields. -/
inductive Answer
  | value (v : Option Bytes)
  | done
  | entries (l : List (Bytes × Bytes))
  deriving DecidableEq, Repr

namespace KVStore

variable {π : Type} (S : KVStore π)

/-- One call. -/
def call (p : π) : Call → Answer × π
  | .get key => ((S.Get p key).1 |> .value, (S.Get p key).2)
  | .set key value => (.done, S.Set p key value)
  | .delete key => (.done, S.Delete p key)
  | .iterator start end_ => ((S.Iterator p start end_).1 |> .entries, (S.Iterator p start end_).2)
  | .reverseIterator start end_ =>
    ((S.ReverseIterator p start end_).1 |> .entries, (S.ReverseIterator p start end_).2)

/-- Calls one after another, with what each returned. -/
def run (p : π) : List Call → List Answer × π
  | [] => ([], p)
  | c :: cs => ((S.call p c).1 :: (run (S.call p c).2 cs).1, (run (S.call p c).2 cs).2)

variable {S}

/-- A lawful store answers each call as the map it holds, and then holds what the map
holds after the call. -/
theorem Lawful.call (hS : S.Lawful) (p : π) (c : Call) :
    (S.call p c).1 = (ofMap.call (S.contents p) c).1 ∧
      S.contents (S.call p c).2 = (ofMap.call (S.contents p) c).2 := by
  cases c with
  | get key => exact ⟨by simp [KVStore.call, ofMap, hS.get], hS.contents_get p key⟩
  | set key value => exact ⟨rfl, hS.set p key value⟩
  | delete key => exact ⟨rfl, hS.delete p key⟩
  | iterator start end_ =>
    exact ⟨by simp [KVStore.call, ofMap, hS.iterator], hS.contents_iterator p start end_⟩
  | reverseIterator start end_ =>
    exact ⟨by simp [KVStore.call, ofMap, hS.reverseIterator], hS.contents_reverseIterator p start end_⟩

/-- The run rule: a lawful store answers every sequence of calls as the map it holds. -/
theorem Lawful.run (hS : S.Lawful) :
    ∀ (cs : List Call) (p : π), (S.run p cs).1 = (ofMap.run (S.contents p) cs).1 ∧
      S.contents (S.run p cs).2 = (ofMap.run (S.contents p) cs).2
  | [], _ => ⟨rfl, rfl⟩
  | c :: cs, p => by
    obtain ⟨hc, hp⟩ := hS.call p c
    obtain ⟨hcs, hp'⟩ := hS.run cs (S.call p c).2
    simp only [KVStore.run]
    rw [hp] at hcs hp'
    exact ⟨by rw [hc, hcs], hp'⟩

end KVStore

end CosmosSdk.Store
