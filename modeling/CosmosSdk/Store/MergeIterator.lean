import CosmosSdk.Store.CacheKV

/-!
# What the merge iterator yields

`cacheMergeIterator` over a parent's entries and a cache's entries, both strictly ordered in
the iterator's direction, yields the entries of the cache laid over the parent: a key the
cache holds with a value has that value, a key it holds with `nil` is gone, and any other
key has the parent's value.  Each key is yielded once, in order, and no call panics
(`yields_spec`).

* `rel`: the order of the direction, so that `compare` is `bytes.Compare` for it;
* `merged`: what the rests of an iterator stand for;
* `AtItem`: the rests at which the current item exists; `skipUntilExistsOrInvalid` reaches
  one, or empties the iterator, and keeps what the rests stand for;
* at an `AtItem` state, `Key`, `Value` and `Next` read and remove the least key.
-/

namespace CosmosSdk.CacheKV.cacheMergeIterator

open CosmosSdk.Store SortedMap

/-- The order in which an iterator yields keys. -/
def rel (ascending : Bool) (a b : Bytes) : Prop := if ascending then a < b else b < a

section Rel

variable {ascending : Bool} {a b c : Bytes}

@[simp] theorem compare_eq_lt : compare ascending a b = .lt ↔ rel ascending a b := by
  cases ascending <;> simp [compare, rel, Ordering.swap_eq_lt]

@[simp] theorem compare_eq_eq : compare ascending a b = .eq ↔ a = b := by
  cases ascending <;> simp [compare, Ordering.swap_eq_eq]

@[simp] theorem compare_eq_gt : compare ascending a b = .gt ↔ rel ascending b a := by
  cases ascending <;> simp [compare, rel, Ordering.swap_eq_gt]

theorem rel_irrefl (a : Bytes) : ¬ rel ascending a a := by
  cases ascending <;> simp [rel]

theorem rel_trans (h₁ : rel ascending a b) (h₂ : rel ascending b c) : rel ascending a c := by
  cases ascending
  · simp only [rel, Bool.false_eq_true, if_false] at *
    exact h₂.trans h₁
  · simp only [rel, if_true] at *
    exact h₁.trans h₂

theorem ne_of_rel (h : rel ascending a b) : a ≠ b := by
  rintro rfl
  exact rel_irrefl a h

end Rel

/-- Entries in the order of the iterator. -/
abbrev Sorted {α : Type} (ascending : Bool) (l : List (Bytes × α)) : Prop :=
  l.Pairwise fun x y => rel ascending x.1 y.1

/-- A key below every key of a sorted list is not in it. -/
theorem lookupL_eq_none_of_rel {α : Type} {ascending : Bool} {l : List (Bytes × α)} {k : Bytes}
    (h : ∀ x ∈ l, rel ascending k x.1) : lookupL k l = none :=
  lookupL_eq_none_of_forall_ne fun x hx => (ne_of_rel (h x hx)).symm

/-- What an iterator with these rests stands for: the cache's value of a key, none for a
`nil` one, and otherwise the parent's. -/
def merged (parent : List (Bytes × Bytes)) (cache : List KVPair) (k : Bytes) : Option Bytes :=
  match lookupL k cache with
  | some value => value
  | none => lookupL k parent

theorem mem_of_merged_eq_some {parent : List (Bytes × Bytes)} {cache : List KVPair} {k : Bytes}
    {v : Bytes} (h : merged parent cache k = some v) :
    (∃ x ∈ parent, x.1 = k) ∨ ∃ x ∈ cache, x.1 = k := by
  unfold merged at h
  split at h
  · next value hc => exact .inr ⟨_, mem_of_lookupL_eq_some hc, rfl⟩
  · exact .inl ⟨_, mem_of_lookupL_eq_some h, rfl⟩

/-- A key below all the keys of both rests is not there. -/
theorem merged_eq_none_of_rel {ascending : Bool} {parent : List (Bytes × Bytes)}
    {cache : List KVPair} {k : Bytes} (hP : ∀ x ∈ parent, rel ascending k x.1)
    (hC : ∀ x ∈ cache, rel ascending k x.1) : merged parent cache k = none := by
  rw [merged, lookupL_eq_none_of_rel hC, lookupL_eq_none_of_rel hP]

section Skip

variable {ascending : Bool}

/-- Dropping a deleted cache item whose key the parent does not hold. -/
theorem merged_cons_delete {parent : List (Bytes × Bytes)} {item : KVPair} {cache : List KVPair}
    (hC : Sorted ascending (item :: cache)) (hv : item.2 = none)
    (hP : lookupL item.1 parent = none) :
    merged parent cache = merged parent (item :: cache) := by
  funext k
  by_cases hk : item.1 = k
  · subst hk
    have hnone : lookupL item.1 cache = none :=
      lookupL_eq_none_of_rel (List.pairwise_cons.1 hC).1
    rw [merged, merged, hnone, hP, lookupL_cons, if_pos rfl, hv]
  · rw [merged, merged, lookupL_cons, if_neg hk]

/-- Dropping a deleted cache item together with the parent's item of the same key. -/
theorem merged_cons_cons_delete {keyP : Bytes × Bytes} {parent : List (Bytes × Bytes)}
    {keyC : KVPair} {cache : List KVPair} (hP : Sorted ascending (keyP :: parent))
    (hC : Sorted ascending (keyC :: cache)) (heq : keyP.1 = keyC.1) (hv : keyC.2 = none) :
    merged parent cache = merged (keyP :: parent) (keyC :: cache) := by
  funext k
  by_cases hk : keyC.1 = k
  · subst hk
    have hnoneC : lookupL keyC.1 cache = none :=
      lookupL_eq_none_of_rel (List.pairwise_cons.1 hC).1
    have hnoneP : lookupL keyC.1 parent = none :=
      lookupL_eq_none_of_rel (heq ▸ (List.pairwise_cons.1 hP).1)
    rw [merged, merged, hnoneC, hnoneP, lookupL_cons, if_pos rfl, hv]
  · have hk' : keyP.1 ≠ k := heq ▸ hk
    rw [merged, merged, lookupL_cons, if_neg hk, lookupL_cons, if_neg hk']

/-- `skipCacheDeletes` drops deleted items whose keys the parent does not hold. -/
theorem merged_skipCacheDeletes {parent : List (Bytes × Bytes)} {until_ : Option Bytes}
    {cache : List KVPair} (hC : Sorted ascending cache)
    (hP : ∀ k, until_.all (fun u => compare ascending k u == .lt) = true →
      lookupL k parent = none) :
    merged parent (skipCacheDeletes ascending until_ cache) = merged parent cache := by
  induction cache with
  | nil => rfl
  | cons item cache ih =>
    unfold skipCacheDeletes
    by_cases hp : (item.2.isNone && until_.all fun u => compare ascending item.1 u == .lt) = true
    · rw [List.dropWhile_cons, if_pos hp]
      rw [Bool.and_eq_true, Option.isNone_iff_eq_none] at hp
      exact (ih (List.pairwise_cons.1 hC).2).trans (merged_cons_delete hC hp.1 (hP _ hp.2))
    · rw [List.dropWhile_cons, if_neg hp]

theorem sublist_skipCacheDeletes (until_ : Option Bytes) (cache : List KVPair) :
    (skipCacheDeletes ascending until_ cache).Sublist cache :=
  (List.dropWhile_suffix _).sublist

theorem sublist_skipUntilExistsOrInvalid (ascending : Bool) (parent : List (Bytes × Bytes)) (cache : List KVPair) :
    (skipUntilExistsOrInvalid ascending parent cache).2.1.Sublist parent ∧
      (skipUntilExistsOrInvalid ascending parent cache).2.2.Sublist cache := by
  fun_induction skipUntilExistsOrInvalid ascending parent cache with
  | case1 cache => exact ⟨List.Sublist.refl _, sublist_skipCacheDeletes none cache⟩
  | case4 keyP parent keyC cache _ _ ih => exact ⟨ih.1.cons keyP, ih.2.cons keyC⟩
  | case6 keyP parent keyC cache _ _ ih =>
    exact ⟨ih.1, ih.2.trans (sublist_skipCacheDeletes _ _)⟩
  | _ => exact ⟨List.Sublist.refl _, List.Sublist.refl _⟩

/-- The skip keeps what the rests stand for. -/
theorem merged_skipUntilExistsOrInvalid (ascending : Bool) (parent : List (Bytes × Bytes)) (cache : List KVPair) :
    Sorted ascending parent → Sorted ascending cache →
      merged (skipUntilExistsOrInvalid ascending parent cache).2.1
        (skipUntilExistsOrInvalid ascending parent cache).2.2 = merged parent cache := by
  fun_induction skipUntilExistsOrInvalid ascending parent cache with
  | case1 cache => exact fun _ hC => merged_skipCacheDeletes hC fun _ _ => rfl
  | case4 keyP parent keyC cache hc hv ih =>
    intro hP hC
    rw [ih (List.pairwise_cons.1 hP).2 (List.pairwise_cons.1 hC).2]
    exact merged_cons_cons_delete hP hC (compare_eq_eq.1 hc) hv
  | case6 keyP parent keyC cache hc hv ih =>
    intro hP hC
    rw [ih hP (hC.sublist (sublist_skipCacheDeletes _ _))]
    -- the skipped deletes lie below the parent's current key, so the parent lacks them
    refine merged_skipCacheDeletes hC fun k hk => ?_
    have hlt : rel ascending k keyP.1 := by simpa using hk
    have hbelow : ∀ x ∈ keyP :: parent, rel ascending k x.1 := by
      intro x hx
      rcases List.mem_cons.1 hx with rfl | hx
      · exact hlt
      · exact rel_trans hlt ((List.pairwise_cons.1 hP).1 x hx)
    exact lookupL_eq_none_of_rel hbelow
  | _ => exact fun _ _ => rfl

/-- After `skipCacheDeletes(nil)` the cache's current item is not a delete. -/
theorem ne_none_of_skipCacheDeletes_none {cache : List KVPair} {item : KVPair}
    {rest : List KVPair} (h : skipCacheDeletes ascending none cache = item :: rest) :
    item.2 ≠ none := by
  induction cache with
  | nil => cases h
  | cons x cache ih =>
    unfold skipCacheDeletes at h ih
    rw [List.dropWhile_cons] at h
    split_ifs at h with hx
    · exact ih h
    · cases h
      simpa using hx

/-- The rests at which the current item exists: the iterator is valid and the skip does
nothing. -/
def AtItem (ascending : Bool) : List (Bytes × Bytes) → List KVPair → Prop
  | [], [] => False
  | [], keyC :: _ => keyC.2 ≠ none
  | _ :: _, [] => True
  | keyP :: _, keyC :: _ => compare ascending keyP.1 keyC.1 = .lt ∨ keyC.2 ≠ none

/-- The skip stops at an existing item, or empties the iterator. -/
theorem AtItem_skipUntilExistsOrInvalid (ascending : Bool) (parent : List (Bytes × Bytes)) (cache : List KVPair) :
    if (skipUntilExistsOrInvalid ascending parent cache).1 then
      AtItem ascending (skipUntilExistsOrInvalid ascending parent cache).2.1
        (skipUntilExistsOrInvalid ascending parent cache).2.2
    else (skipUntilExistsOrInvalid ascending parent cache).2.1 = [] ∧
      (skipUntilExistsOrInvalid ascending parent cache).2.2 = [] := by
  fun_induction skipUntilExistsOrInvalid ascending parent cache with
  | case1 cache rest =>
    -- the cache's rest starts with an item that is not a delete, if any
    simp only [rest]
    cases hd : skipCacheDeletes ascending none cache with
    | nil => simp
    | cons item rest => simpa [AtItem] using ne_none_of_skipCacheDeletes_none hd
  | case2 => trivial
  | case3 _ _ _ _ hc => exact .inl hc
  | case4 _ _ _ _ _ _ ih => exact ih
  | case5 _ _ _ _ _ hv => exact .inr hv
  | case6 _ _ _ _ _ _ ih => exact ih
  | case7 _ _ _ _ _ hv => exact .inr hv

/-- At an existing item the skip does nothing. -/
theorem skipUntilExistsOrInvalid_of_AtItem {parent : List (Bytes × Bytes)} {cache : List KVPair}
    (h : AtItem ascending parent cache) :
    skipUntilExistsOrInvalid ascending parent cache = (true, parent, cache) := by
  match parent, cache, h with
  | [], keyC :: cache, h =>
    have hkeep : skipCacheDeletes ascending none (keyC :: cache) = keyC :: cache :=
      List.dropWhile_cons_of_neg (by simpa [AtItem] using h)
    simp [skipUntilExistsOrInvalid, hkeep]
  | keyP :: parent, [], _ => rw [skipUntilExistsOrInvalid]
  | keyP :: parent, keyC :: cache, h =>
    rw [skipUntilExistsOrInvalid]
    split
    · rfl
    · next hc => rw [if_neg (h.resolve_left (by rw [hc]; decide))]
    · next hc => rw [dif_neg (h.resolve_left (by rw [hc]; decide))]

theorem skipAndAssertValid_of_AtItem {parent : List (Bytes × Bytes)} {cache : List KVPair}
    (h : AtItem ascending parent cache) :
    skipAndAssertValid ascending parent cache = some (parent, cache) := by
  simp [skipAndAssertValid, assertValid, skipUntilExistsOrInvalid_of_AtItem h]

theorem Key_of_AtItem {parent : List (Bytes × Bytes)} {cache : List KVPair}
    (h : AtItem ascending parent cache) :
    Key ascending parent cache =
      (currentKey ascending parent cache).map fun key => (key, parent, cache) := by
  rw [Key, skipAndAssertValid_of_AtItem h]
  rfl

theorem Value_of_AtItem {parent : List (Bytes × Bytes)} {cache : List KVPair}
    (h : AtItem ascending parent cache) :
    Value ascending parent cache =
      (currentValue ascending parent cache).map fun value => (value, parent, cache) := by
  rw [Value, skipAndAssertValid_of_AtItem h]
  rfl

theorem Next_of_AtItem {parent : List (Bytes × Bytes)} {cache : List KVPair}
    (h : AtItem ascending parent cache) :
    Next ascending parent cache = advance ascending parent cache := by
  rw [Next, skipAndAssertValid_of_AtItem h]
  rfl

end Skip

/-! ### The current item -/

section Current

variable {ascending : Bool}

theorem eraseL_cons_self {α : Type} {x : Bytes × α} {l : List (Bytes × α)}
    (h : Sorted ascending (x :: l)) : eraseL x.1 (x :: l) = l := by
  rw [eraseL, List.filter_cons_of_neg (by simp),
    ← eraseL, eraseL_eq_self fun y hy => (ne_of_rel ((List.pairwise_cons.1 h).1 y hy)).symm]

/-- A key below the head of a sorted list is below all of it. -/
theorem rel_of_rel_head {α : Type} {k : Bytes} {x : Bytes × α} {l : List (Bytes × α)}
    (h : Sorted ascending (x :: l)) (hk : rel ascending k x.1) :
    ∀ y ∈ x :: l, rel ascending k y.1 := by
  intro y hy
  rcases List.mem_cons.1 hy with rfl | hy
  · exact hk
  · exact rel_trans hk ((List.pairwise_cons.1 h).1 y hy)

theorem eraseL_of_rel_head {α : Type} {k : Bytes} {x : Bytes × α} {l : List (Bytes × α)}
    (h : Sorted ascending (x :: l)) (hk : rel ascending k x.1) : eraseL k (x :: l) = x :: l :=
  eraseL_eq_self fun y hy => (ne_of_rel (rel_of_rel_head h hk y hy)).symm

/-- The head of a sorted list holds its least key. -/
theorem le_of_sorted_cons {α : Type} {x : Bytes × α} {l : List (Bytes × α)}
    (h : Sorted ascending (x :: l)) : ∀ y ∈ x :: l, y.1 = x.1 ∨ rel ascending x.1 y.1 := by
  intro y hy
  rcases List.mem_cons.1 hy with rfl | hy
  · exact .inl rfl
  · exact .inr ((List.pairwise_cons.1 h).1 y hy)

theorem le_of_rel_head {α : Type} {k : Bytes} {x : Bytes × α} {l : List (Bytes × α)}
    (h : Sorted ascending (x :: l)) (hk : rel ascending k x.1) :
    ∀ y ∈ x :: l, y.1 = k ∨ rel ascending k y.1 := fun y hy =>
  .inr (rel_of_rel_head h hk y hy)

/-- At an existing item, `Key` and `Value` read the least key of the rests and what it
stands for, and `Next` removes that key from both. -/
theorem current_of_AtItem {parent : List (Bytes × Bytes)} {cache : List KVPair}
    (hP : Sorted ascending parent) (hC : Sorted ascending cache)
    (h : AtItem ascending parent cache) :
    ∃ key value, currentKey ascending parent cache = some key ∧
      currentValue ascending parent cache = some (some value) ∧
      merged parent cache key = some value ∧
      advance ascending parent cache = some (eraseL key parent, eraseL key cache) ∧
      (∀ x ∈ parent, x.1 = key ∨ rel ascending key x.1) ∧
      ∀ x ∈ cache, x.1 = key ∨ rel ascending key x.1 := by
  match parent, cache, h with
  | [], keyC :: cache, h =>
    obtain ⟨value, hv⟩ := Option.ne_none_iff_exists'.1 h
    refine ⟨keyC.1, value, rfl, by simp [currentValue, hv], ?_, ?_, by simp, le_of_sorted_cons hC⟩
    · simp [merged, lookupL_cons, hv]
    · rw [eraseL_cons_self hC]
      rfl
  | keyP :: parent, [], _ =>
    refine ⟨keyP.1, keyP.2, rfl, rfl, ?_, ?_, le_of_sorted_cons hP, by simp⟩
    · simp [merged, lookupL_cons]
    · rw [eraseL_cons_self hP]
      rfl
  | keyP :: parent, keyC :: cache, h =>
    cases hc : compare ascending keyP.1 keyC.1 with
    | lt =>
      -- the parent's key comes first; the cache does not hold it
      have hlt : rel ascending keyP.1 keyC.1 := compare_eq_lt.1 hc
      refine ⟨keyP.1, keyP.2, by simp [currentKey, hc], by simp [currentValue, hc], ?_, ?_,
        le_of_sorted_cons hP, le_of_rel_head hC hlt⟩
      · rw [merged, lookupL_eq_none_of_rel (rel_of_rel_head hC hlt)]
        simp [lookupL_cons]
      · rw [eraseL_cons_self hP, eraseL_of_rel_head hC hlt]
        simp [advance, hc]
    | eq =>
      -- a tie: the cache's value, and both sides advance
      have heq : keyP.1 = keyC.1 := compare_eq_eq.1 hc
      obtain ⟨value, hv⟩ := Option.ne_none_iff_exists'.1 (h.resolve_left (by rw [hc]; decide))
      refine ⟨keyP.1, value, by simp [currentKey, hc], by simp [currentValue, hc, hv], ?_, ?_,
        le_of_sorted_cons hP, heq ▸ le_of_sorted_cons hC⟩
      · simp [merged, lookupL_cons, heq, hv]
      · rw [eraseL_cons_self hP, heq, eraseL_cons_self hC]
        simp [advance, hc]
    | gt =>
      -- the cache's key comes first
      have hlt : rel ascending keyC.1 keyP.1 := compare_eq_gt.1 hc
      obtain ⟨value, hv⟩ := Option.ne_none_iff_exists'.1 (h.resolve_left (by rw [hc]; decide))
      refine ⟨keyC.1, value, by simp [currentKey, hc], by simp [currentValue, hc, hv], ?_, ?_,
        le_of_rel_head hP hlt, le_of_sorted_cons hC⟩
      · simp [merged, lookupL_cons, hv]
      · rw [eraseL_of_rel_head hP hlt, eraseL_cons_self hC]
        simp [advance, hc]

end Current

/-! ### The entries yielded -/

theorem sorted_eraseL {α : Type} {ascending : Bool} {l : List (Bytes × α)}
    (h : Sorted ascending l) (k : Bytes) : Sorted ascending (eraseL k l) :=
  h.filter _

/-- Removing a key from both rests removes it from what they stand for. -/
theorem merged_eraseL (key : Bytes) (parent : List (Bytes × Bytes)) (cache : List KVPair)
    (k : Bytes) :
    merged (eraseL key parent) (eraseL key cache) k =
      if k = key then none else merged parent cache k := by
  unfold merged
  rw [lookupL_eraseL, lookupL_eraseL]
  split_ifs <;> rfl

/-- A skip that leaves the iterator valid stops at an existing item of sorted rests that
stand for what the rests before it stood for. -/
theorem valid_skipUntilExistsOrInvalid {ascending : Bool} {parent parent₁ : List (Bytes × Bytes)}
    {cache cache₁ : List KVPair} (hP : Sorted ascending parent) (hC : Sorted ascending cache)
    (hs : skipUntilExistsOrInvalid ascending parent cache = (true, parent₁, cache₁)) :
    Sorted ascending parent₁ ∧ Sorted ascending cache₁ ∧ AtItem ascending parent₁ cache₁ ∧
      merged parent₁ cache₁ = merged parent cache := by
  have hsub := sublist_skipUntilExistsOrInvalid ascending parent cache
  have hat := AtItem_skipUntilExistsOrInvalid ascending parent cache
  have hmerged := merged_skipUntilExistsOrInvalid ascending parent cache hP hC
  rw [hs] at hsub hat hmerged
  exact ⟨hP.sublist hsub.1, hC.sublist hsub.2, hat, hmerged⟩

/-- An iterator over sorted rests yields the entries they stand for, each once and in order,
and none of its calls panics. -/
theorem yields_spec (ascending : Bool) (parent : List (Bytes × Bytes)) (cache : List KVPair) :
    Sorted ascending parent → Sorted ascending cache →
      ∃ entries : List (Bytes × Bytes),
        yields ascending parent cache = some (entries.map fun e => (e.1, some e.2)) ∧
        Sorted ascending entries ∧ ∀ k v, (k, v) ∈ entries ↔ merged parent cache k = some v := by
  fun_induction yields ascending parent cache with
  | case1 parent cache parent₁ cache₁ hs =>
    intro hP hC
    -- an iterator that is not valid has nothing left
    have hempty := AtItem_skipUntilExistsOrInvalid ascending parent cache
    have hmerged := merged_skipUntilExistsOrInvalid ascending parent cache hP hC
    rw [hs] at hempty hmerged
    obtain ⟨rfl, rfl⟩ := hempty
    refine ⟨[], rfl, List.Pairwise.nil, fun k v => ?_⟩
    rw [← hmerged]
    simp [merged]
  | case2 parent cache parent₁ cache₁ hs hk =>
    intro hP hC
    obtain ⟨hP₁, hC₁, hat, -⟩ := valid_skipUntilExistsOrInvalid hP hC hs
    obtain ⟨key, -, hkey, -⟩ := current_of_AtItem hP₁ hC₁ hat
    simp [Key_of_AtItem hat, hkey] at hk
  | case3 parent cache parent₁ cache₁ hs key parent₂ cache₂ hk hv =>
    intro hP hC
    obtain ⟨hP₁, hC₁, hat, -⟩ := valid_skipUntilExistsOrInvalid hP hC hs
    obtain ⟨key', value, hkey, hvalue, -⟩ := current_of_AtItem hP₁ hC₁ hat
    simp only [Key_of_AtItem hat, hkey, Option.map_some, Option.some.injEq, Prod.mk.injEq] at hk
    obtain ⟨-, rfl, rfl⟩ := hk
    simp [Value_of_AtItem hat, hvalue] at hv
  | case4 parent cache parent₁ cache₁ hs key parent₂ cache₂ hk value parent₃ cache₃ hv hn =>
    intro hP hC
    obtain ⟨hP₁, hC₁, hat, -⟩ := valid_skipUntilExistsOrInvalid hP hC hs
    obtain ⟨key', value', hkey, hvalue, -, hadvance, -⟩ := current_of_AtItem hP₁ hC₁ hat
    simp only [Key_of_AtItem hat, hkey, Option.map_some, Option.some.injEq, Prod.mk.injEq] at hk
    obtain ⟨-, rfl, rfl⟩ := hk
    simp only [Value_of_AtItem hat, hvalue, Option.map_some, Option.some.injEq,
      Prod.mk.injEq] at hv
    obtain ⟨-, rfl, rfl⟩ := hv
    simp [Next_of_AtItem hat, hadvance] at hn
  | case5 parent cache parent₁ cache₁ hs key parent₂ cache₂ hk value parent₃ cache₃ hv parent₄
      cache₄ hn ih =>
    intro hP hC
    obtain ⟨hP₁, hC₁, hat, hmerged⟩ := valid_skipUntilExistsOrInvalid hP hC hs
    obtain ⟨key', value', hkey, hvalue, hcurrent, hadvance, hleP, hleC⟩ :=
      current_of_AtItem hP₁ hC₁ hat
    simp only [Key_of_AtItem hat, hkey, Option.map_some, Option.some.injEq, Prod.mk.injEq] at hk
    obtain ⟨rfl, rfl, rfl⟩ := hk
    simp only [Value_of_AtItem hat, hvalue, Option.map_some, Option.some.injEq,
      Prod.mk.injEq] at hv
    obtain ⟨rfl, rfl, rfl⟩ := hv
    simp only [Next_of_AtItem hat, hadvance, Option.some.injEq, Prod.mk.injEq] at hn
    obtain ⟨rfl, rfl⟩ := hn
    -- the rest of the run yields the rests without the current key
    obtain ⟨entries, hyields, hsorted, hmem⟩ := ih (sorted_eraseL hP₁ key') (sorted_eraseL hC₁ key')
    refine ⟨(key', value') :: entries, by simp [hyields], ?_, fun k v => ?_⟩
    · refine List.Pairwise.cons (fun x hx => ?_) hsorted
      have hx' := (hmem x.1 x.2).1 hx
      have hne : x.1 ≠ key' := fun heq => by
        rw [merged_eraseL, if_pos heq] at hx'
        cases hx'
      rcases mem_of_merged_eq_some hx' with ⟨y, hy, hyx⟩ | ⟨y, hy, hyx⟩
      · exact hyx ▸ (hleP y (List.mem_of_mem_filter hy)).resolve_left (hyx ▸ hne)
      · exact hyx ▸ (hleC y (List.mem_of_mem_filter hy)).resolve_left (hyx ▸ hne)
    · rw [List.mem_cons, hmem, merged_eraseL, ← hmerged]
      by_cases hk : k = key'
      · subst hk
        simp [hcurrent, eq_comm]
      · simp [hk]

end CosmosSdk.CacheKV.cacheMergeIterator
