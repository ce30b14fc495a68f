import Mathlib.Algebra.BigOperators.Group.List.Basic
import Mathlib.Algebra.Order.BigOperators.Group.List
import Mathlib.Data.List.Perm.Basic
import Mathlib.Data.Finset.Card
import Mathlib.Order.Basic

/-!
# Finite maps as strictly sorted association lists

An ordered key-value store: its entries kept in strictly increasing key order, so that a
map has exactly one representation and iterating it visits the keys in order.  The
structure carries its sortedness, so every operation returns a well-formed map.

* `get?`, `insert`, `erase`, `range` (the entries whose keys lie in a half-open domain);
* `ext`: two maps with the same lookups are equal;
* `sum`: summing a function of the entries, with `sum_insert` and `sum_eq_erase_add`.

The list-level functions `lookupL`, `insertL`, `eraseL` are exposed too, since other
developments store sorted lists of their own.
-/

variable {κ ν : Type*} [LinearOrder κ]

namespace SortedMap

/-- Lookup in an association list: the value of the first entry with this key. -/
def lookupL (k : κ) : List (κ × ν) → Option ν
  | [] => none
  | e :: l => if e.1 = k then some e.2 else lookupL k l

/-- Insertion into a key-sorted association list, replacing the entry with this key. -/
def insertL (k : κ) (v : ν) : List (κ × ν) → List (κ × ν)
  | [] => [(k, v)]
  | e :: l =>
    if k < e.1 then (k, v) :: e :: l
    else if k = e.1 then (k, v) :: l
    else e :: insertL k v l

/-- Removal of every entry with this key. -/
def eraseL (k : κ) (l : List (κ × ν)) : List (κ × ν) := l.filter (fun e => e.1 ≠ k)

/-- Strictly increasing keys. -/
abbrev KeySorted (l : List (κ × ν)) : Prop := l.Pairwise (fun a b => a.1 < b.1)

@[simp] theorem lookupL_nil (k : κ) : lookupL k ([] : List (κ × ν)) = none := rfl

theorem lookupL_cons (k : κ) (e : κ × ν) (l : List (κ × ν)) :
    lookupL k (e :: l) = if e.1 = k then some e.2 else lookupL k l := rfl

theorem lookupL_insertL (k k' : κ) (v : ν) (l : List (κ × ν)) :
    lookupL k' (insertL k v l) = if k' = k then some v else lookupL k' l := by
  induction l with
  | nil => simp [insertL, lookupL_cons, eq_comm]
  | cons e l ih =>
    simp only [insertL]
    split_ifs <;> simp_all [lookupL_cons, eq_comm]

theorem lookupL_eraseL (k k' : κ) (l : List (κ × ν)) :
    lookupL k' (eraseL k l) = if k' = k then none else lookupL k' l := by
  induction l with
  | nil => simp [eraseL]
  | cons e l ih =>
    unfold eraseL at ih ⊢
    rw [List.filter_cons]
    by_cases he : e.1 = k
    · rw [if_neg (by simpa using he), ih, lookupL_cons]
      by_cases hk : k' = k
      · simp [hk]
      · rw [if_neg hk, if_neg hk, if_neg (by rw [he]; exact Ne.symm hk)]
    · rw [if_pos (by simpa using he), lookupL_cons, lookupL_cons, ih]
      by_cases hk : k' = k
      · subst hk; simp [he]
      · simp [hk]

theorem mem_insertL {k : κ} {v : ν} {l : List (κ × ν)} {e : κ × ν}
    (h : e ∈ insertL k v l) : e = (k, v) ∨ e ∈ l := by
  induction l with
  | nil => simpa [insertL] using h
  | cons e' l ih =>
    simp only [insertL] at h
    split_ifs at h with h1 h2
    · simpa using h
    · rcases List.mem_cons.1 h with rfl | h
      · exact Or.inl rfl
      · exact Or.inr (List.mem_cons_of_mem _ h)
    · rcases List.mem_cons.1 h with rfl | h
      · exact Or.inr List.mem_cons_self
      · rcases ih h with rfl | h
        · exact Or.inl rfl
        · exact Or.inr (List.mem_cons_of_mem _ h)

theorem keySorted_insertL (k : κ) (v : ν) {l : List (κ × ν)} (hl : KeySorted l) :
    KeySorted (insertL k v l) := by
  induction l with
  | nil => simp [insertL]
  | cons e l ih =>
    obtain ⟨he, hl⟩ := List.pairwise_cons.1 hl
    simp only [insertL]
    split_ifs with h1 h2
    · refine List.Pairwise.cons (fun x hx => ?_) (List.Pairwise.cons he hl)
      rcases List.mem_cons.1 hx with rfl | hx
      · exact h1
      · exact h1.trans (he x hx)
    · subst h2
      exact List.Pairwise.cons he hl
    · have hlt : e.1 < k := lt_of_le_of_ne (not_lt.1 h1) (Ne.symm h2)
      refine List.Pairwise.cons (fun x hx => ?_) (ih hl)
      rcases mem_insertL hx with rfl | hx
      · exact hlt
      · exact he x hx

theorem keySorted_eraseL (k : κ) {l : List (κ × ν)} (hl : KeySorted l) :
    KeySorted (eraseL k l) := hl.filter _

theorem lookupL_eq_none_of_forall_ne {l : List (κ × ν)} {k : κ} (h : ∀ e ∈ l, e.1 ≠ k) :
    lookupL k l = none := by
  induction l with
  | nil => rfl
  | cons e l ih =>
    rw [lookupL_cons, if_neg (h e List.mem_cons_self),
      ih (fun x hx => h x (List.mem_cons_of_mem _ hx))]

theorem lookupL_eq_none_of_lt {l : List (κ × ν)} {k : κ} (h : ∀ e ∈ l, k < e.1) :
    lookupL k l = none :=
  lookupL_eq_none_of_forall_ne fun e he => ne_of_gt (h e he)

theorem mem_of_lookupL_eq_some {l : List (κ × ν)} {k : κ} {v : ν} (h : lookupL k l = some v) :
    (k, v) ∈ l := by
  induction l with
  | nil => cases h
  | cons e l ih =>
    rw [lookupL_cons] at h
    split_ifs at h with he
    · cases h
      subst he
      exact List.mem_cons_self
    · exact List.mem_cons_of_mem _ (ih h)

theorem lookupL_append (k : κ) (l₁ l₂ : List (κ × ν)) :
    lookupL k (l₁ ++ l₂) = (lookupL k l₁).or (lookupL k l₂) := by
  induction l₁ with
  | nil => rfl
  | cons e l₁ ih =>
    rw [List.cons_append, lookupL_cons, lookupL_cons, ih]
    split_ifs <;> rfl

theorem pairwise_ne_of_keySorted {l : List (κ × ν)} (h : KeySorted l) :
    l.Pairwise fun a b => a.1 ≠ b.1 :=
  h.imp ne_of_lt

/-- In a list whose keys are distinct, lookup does not depend on the order. -/
theorem lookupL_reverse {l : List (κ × ν)} (hl : l.Pairwise fun a b => a.1 ≠ b.1) (k : κ) :
    lookupL k l.reverse = lookupL k l := by
  induction l with
  | nil => rfl
  | cons e l ih =>
    obtain ⟨he, hl⟩ := List.pairwise_cons.1 hl
    rw [List.reverse_cons, lookupL_append, ih hl, lookupL_cons, lookupL_cons, lookupL_nil]
    by_cases hk : e.1 = k
    · subst hk
      rw [if_pos rfl, if_pos rfl, lookupL_eq_none_of_forall_ne fun x hx => (he x hx).symm]
      rfl
    · rw [if_neg hk, if_neg hk, Option.or_none]

/-- Keeping the entries whose keys `p` keeps. -/
theorem lookupL_filter_key (p : κ → Bool) (l : List (κ × ν)) (k : κ) :
    lookupL k (l.filter fun e => p e.1) = if p k then lookupL k l else none := by
  induction l with
  | nil => split_ifs <;> rfl
  | cons e l ih =>
    rw [List.filter_cons, lookupL_cons]
    by_cases he : e.1 = k
    · subst he
      by_cases hp : p e.1 <;> simp [hp, lookupL_cons, ih]
    · split_ifs <;> simp_all [lookupL_cons]

/-- A list of keys paired with a value of each. -/
theorem lookupL_map_pair (f : κ → ν) (l : List κ) (k : κ) :
    lookupL k (l.map fun a => (a, f a)) = if k ∈ l then some (f k) else none := by
  induction l with
  | nil => rfl
  | cons a l ih =>
    rw [List.map_cons, lookupL_cons, ih]
    by_cases ha : a = k
    · subst ha
      simp
    · simp [ha, Ne.symm ha]

/-- Keeping the values `f` keeps, with what it makes of them. -/
theorem lookupL_filterMap {μ : Type*} (f : ν → Option μ) {l : List (κ × ν)} (hl : KeySorted l)
    (k : κ) : lookupL k (l.filterMap fun e => (f e.2).map (e.1, ·)) = (lookupL k l).bind f := by
  induction l with
  | nil => rfl
  | cons e l ih =>
    obtain ⟨he, hl⟩ := List.pairwise_cons.1 hl
    rw [List.filterMap_cons, lookupL_cons]
    by_cases hk : e.1 = k
    · rw [if_pos hk, Option.bind_some]
      cases hf : f e.2 with
      | none =>
        -- the later entries have larger keys
        simp only [Option.map_none]
        rw [ih hl, lookupL_eq_none_of_lt (hk ▸ he), Option.bind_none]
      | some x => simp only [Option.map_some, lookupL_cons, if_pos hk]
    · rw [if_neg hk, ← ih hl]
      cases f e.2 with
      | none => rfl
      | some x => simp only [Option.map_some, lookupL_cons, if_neg hk]

/-- Inserting under a key that a filter on keys drops leaves what it keeps unchanged. -/
theorem filter_insertL_of_not {p : κ → Bool} {k : κ} (hk : p k = false) (v : ν)
    (l : List (κ × ν)) : (insertL k v l).filter (fun e => p e.1) = l.filter (fun e => p e.1) := by
  induction l with
  | nil => simp [insertL, hk]
  | cons e l ih =>
    simp only [insertL]
    split_ifs with h1 h2
    · simp [List.filter_cons, hk]
    · subst h2
      simp [hk]
    · simp [List.filter_cons, ih]

/-- Inserting under a key that a filter on keys keeps, into entries it keeps none of. -/
theorem filter_insertL_of_filter_eq_nil {p : κ → Bool} {k : κ} (hk : p k = true) (v : ν)
    {l : List (κ × ν)} (hl : l.filter (fun e => p e.1) = []) :
    (insertL k v l).filter (fun e => p e.1) = [(k, v)] := by
  induction l with
  | nil => simp [insertL, hk]
  | cons e l ih =>
    -- the head is dropped and so is the rest
    have he : p e.1 = false ∧ l.filter (fun e => p e.1) = [] := by
      rw [List.filter_cons] at hl
      split at hl
      · simp at hl
      · exact ⟨by simpa using ‹¬p e.1 = true›, hl⟩
    simp only [insertL]
    split_ifs with h1 h2
    · simp [hk, he.1, he.2]
    · simp [hk, he.2]
    · simp [he.1, ih he.2]

/-- In a key-sorted list every key occurs once, so membership is lookup. -/
theorem mem_iff_lookupL {l : List (κ × ν)} (hl : KeySorted l) {k : κ} {v : ν} :
    (k, v) ∈ l ↔ lookupL k l = some v := by
  induction l with
  | nil => simp
  | cons e l ih =>
    obtain ⟨he, hl⟩ := List.pairwise_cons.1 hl
    rw [List.mem_cons, lookupL_cons, ih hl]
    by_cases hk : e.1 = k
    · subst hk
      rw [if_pos rfl, lookupL_eq_none_of_lt he]
      constructor
      · rintro (h | h)
        · exact congrArg some (congrArg Prod.snd h).symm
        · cases h
      · intro h
        left
        cases e
        simp_all
    · rw [if_neg hk]
      constructor
      · rintro (h | h)
        · exact absurd (by rw [← h]) hk
        · exact h
      · exact Or.inr

/-- Strictly sorted lists are determined by their lookups. -/
theorem eq_of_lookupL {l₁ l₂ : List (κ × ν)} (h₁ : KeySorted l₁) (h₂ : KeySorted l₂)
    (h : ∀ k, lookupL k l₁ = lookupL k l₂) : l₁ = l₂ := by
  induction l₁ generalizing l₂ with
  | nil =>
    cases l₂ with
    | nil => rfl
    | cons e l₂ => simpa [lookupL_cons] using (h e.1).symm
  | cons e₁ l₁ ih =>
    obtain ⟨he₁, h₁⟩ := List.pairwise_cons.1 h₁
    cases l₂ with
    | nil => simpa [lookupL_cons] using h e₁.1
    | cons e₂ l₂ =>
      obtain ⟨he₂, h₂⟩ := List.pairwise_cons.1 h₂
      -- the heads carry the least keys of both lists, so they coincide
      have hkey : e₁.1 = e₂.1 := by
        rcases lt_trichotomy e₁.1 e₂.1 with hlt | heq | hgt
        · have := h e₁.1
          rw [lookupL_cons, if_pos rfl, lookupL_cons, if_neg (ne_of_gt hlt),
            lookupL_eq_none_of_lt (fun x hx => hlt.trans (he₂ x hx))] at this
          cases this
        · exact heq
        · have := h e₂.1
          rw [lookupL_cons, if_neg (ne_of_gt hgt), lookupL_cons, if_pos rfl,
            lookupL_eq_none_of_lt (fun x hx => hgt.trans (he₁ x hx))] at this
          cases this
      have hval : e₁.2 = e₂.2 := by
        have := h e₁.1
        rw [lookupL_cons, if_pos rfl, lookupL_cons, if_pos hkey.symm] at this
        exact Option.some.inj this
      have htail : l₁ = l₂ := ih h₁ h₂ fun k => by
        by_cases hk : k = e₁.1
        · subst hk
          rw [lookupL_eq_none_of_lt he₁, hkey, lookupL_eq_none_of_lt he₂]
        · have := h k
          rwa [lookupL_cons, if_neg (Ne.symm hk), lookupL_cons,
            if_neg (by rw [← hkey]; exact Ne.symm hk)] at this
      rw [Prod.ext hkey hval, htail]

/-- Strictly sorted lists with the same entries are equal. -/
theorem eq_of_mem_iff {l₁ l₂ : List (κ × ν)} (h₁ : KeySorted l₁) (h₂ : KeySorted l₂)
    (h : ∀ k v, (k, v) ∈ l₁ ↔ (k, v) ∈ l₂) : l₁ = l₂ :=
  eq_of_lookupL h₁ h₂ fun k => Option.ext fun v => by
    rw [← mem_iff_lookupL h₁, ← mem_iff_lookupL h₂]
    exact h k v

theorem eraseL_eq_self {l : List (κ × ν)} {k : κ} (h : ∀ e ∈ l, e.1 ≠ k) : eraseL k l = l :=
  List.filter_eq_self.2 (by simpa using h)

/-- Insertion is, up to order, erasure followed by consing the new entry. -/
theorem insertL_perm {l : List (κ × ν)} (hl : KeySorted l) (k : κ) (v : ν) :
    (insertL k v l).Perm ((k, v) :: eraseL k l) := by
  induction l with
  | nil => simp [insertL, eraseL]
  | cons e l ih =>
    obtain ⟨he, hl⟩ := List.pairwise_cons.1 hl
    simp only [insertL]
    split_ifs with h1 h2
    · have hfresh : eraseL k (e :: l) = e :: l :=
        eraseL_eq_self fun x hx => by
          rcases List.mem_cons.1 hx with rfl | hx
          · exact ne_of_gt h1
          · exact ne_of_gt (h1.trans (he x hx))
      rw [hfresh]
    · subst h2
      have hdrop : eraseL e.1 (e :: l) = l := by
        simp only [eraseL, List.filter_cons, ne_eq, not_true_eq_false, decide_false,
          Bool.false_eq_true, ↓reduceIte]
        exact eraseL_eq_self fun x hx => ne_of_gt (he x hx)
      rw [hdrop]
    · have hkeep : eraseL k (e :: l) = e :: eraseL k l := by
        simp [eraseL, Ne.symm h2]
      rw [hkeep]
      exact ((ih hl).cons e).trans (List.Perm.swap _ _ _)

/-- A present entry can be split off, up to order. -/
theorem perm_eraseL {l : List (κ × ν)} (hl : KeySorted l) {k : κ} {v : ν}
    (h : lookupL k l = some v) : l.Perm ((k, v) :: eraseL k l) := by
  induction l with
  | nil => cases h
  | cons e l ih =>
    obtain ⟨he, hl⟩ := List.pairwise_cons.1 hl
    rw [lookupL_cons] at h
    split_ifs at h with hk
    · cases h
      subst hk
      have hdrop : eraseL e.1 (e :: l) = l := by
        simp only [eraseL, List.filter_cons, ne_eq, not_true_eq_false, decide_false,
          Bool.false_eq_true, ↓reduceIte]
        exact eraseL_eq_self fun x hx => ne_of_gt (he x hx)
      rw [hdrop]
    · have hkeep : eraseL k (e :: l) = e :: eraseL k l := by
        simp [eraseL, hk]
      rw [hkeep]
      exact ((ih hl h).cons e).trans (List.Perm.swap _ _ _)

theorem eraseL_eq_self_of_lookupL {l : List (κ × ν)} {k : κ} (h : lookupL k l = none) :
    eraseL k l = l := by
  induction l with
  | nil => rfl
  | cons e l ih =>
    rw [lookupL_cons] at h
    split_ifs at h with hk
    have ih' := ih h
    unfold eraseL at ih' ⊢
    rw [List.filter_cons, if_pos (by simpa using hk), ih']

end SortedMap

/-- A finite map whose entries are kept in strictly increasing key order. -/
structure SortedMap (κ : Type*) (ν : Type*) [LinearOrder κ] where
  entries : List (κ × ν)
  sorted : SortedMap.KeySorted entries

namespace SortedMap

instance [DecidableEq κ] [DecidableEq ν] : DecidableEq (SortedMap κ ν) := fun m m' =>
  decidable_of_iff (m.entries = m'.entries) (by cases m; cases m'; simp)

/-- The empty map. -/
def empty : SortedMap κ ν := ⟨[], List.Pairwise.nil⟩

instance : EmptyCollection (SortedMap κ ν) := ⟨empty⟩

/-- The value stored under a key. -/
def get? (m : SortedMap κ ν) (k : κ) : Option ν := lookupL k m.entries

/-- Store a value under a key, replacing the previous one. -/
def insert (m : SortedMap κ ν) (k : κ) (v : ν) : SortedMap κ ν :=
  ⟨insertL k v m.entries, keySorted_insertL k v m.sorted⟩

/-- Remove the entry under a key, if any. -/
def erase (m : SortedMap κ ν) (k : κ) : SortedMap κ ν :=
  ⟨eraseL k m.entries, keySorted_eraseL k m.sorted⟩

/-- Membership of a key in the half-open domain `[lo, hi)`, where `none` leaves that side
unbounded. -/
def inDomain (lo hi : Option κ) (k : κ) : Bool :=
  (match lo with | none => true | some a => decide (a ≤ k)) &&
  (match hi with | none => true | some b => decide (k < b))

theorem inDomain_iff {lo hi : Option κ} {k : κ} :
    inDomain lo hi k = true ↔ (∀ a ∈ lo, a ≤ k) ∧ ∀ b ∈ hi, k < b := by
  cases lo <;> cases hi <;> simp [inDomain]

/-- The entries with keys in `[lo, hi)`, in increasing key order. -/
def range (m : SortedMap κ ν) (lo hi : Option κ) : List (κ × ν) :=
  m.entries.filter fun e => inDomain lo hi e.1

/-- The sum of `f` over all entries. -/
def sum {M : Type*} [AddCommMonoid M] (m : SortedMap κ ν) (f : κ → ν → M) : M :=
  (m.entries.map fun e => f e.1 e.2).sum

@[simp] theorem get?_empty (k : κ) : (empty : SortedMap κ ν).get? k = none := rfl

@[simp] theorem get?_emptyCollection (k : κ) : (∅ : SortedMap κ ν).get? k = none := rfl

@[simp] theorem get?_insert (m : SortedMap κ ν) (k k' : κ) (v : ν) :
    (m.insert k v).get? k' = if k' = k then some v else m.get? k' :=
  lookupL_insertL k k' v m.entries

@[simp] theorem get?_erase (m : SortedMap κ ν) (k k' : κ) :
    (m.erase k).get? k' = if k' = k then none else m.get? k' :=
  lookupL_eraseL k k' m.entries

theorem get?_insert_self (m : SortedMap κ ν) (k : κ) (v : ν) : (m.insert k v).get? k = some v := by
  simp

theorem get?_insert_ne (m : SortedMap κ ν) {k k' : κ} (v : ν) (h : k' ≠ k) :
    (m.insert k v).get? k' = m.get? k' := by
  simp [h]

/-- Replacing the value of a key that is present keeps the keys that are present. -/
theorem isSome_get?_insert (m : SortedMap κ ν) {k : κ} (v : ν) (h : (m.get? k).isSome) (k' : κ) :
    ((m.insert k v).get? k').isSome = (m.get? k').isSome := by
  by_cases hk : k' = k
  · subst hk
    rw [get?_insert_self, h]
    rfl
  · rw [get?_insert_ne m v hk]

theorem get?_erase_self (m : SortedMap κ ν) (k : κ) : (m.erase k).get? k = none := by simp

theorem get?_erase_ne (m : SortedMap κ ν) {k k' : κ} (h : k' ≠ k) :
    (m.erase k).get? k' = m.get? k' := by
  simp [h]

theorem mem_entries_iff (m : SortedMap κ ν) {k : κ} {v : ν} :
    (k, v) ∈ m.entries ↔ m.get? k = some v :=
  mem_iff_lookupL m.sorted

theorem nodup_keys (m : SortedMap κ ν) : (m.entries.map Prod.fst).Nodup :=
  List.pairwise_map.2 (pairwise_ne_of_keySorted m.sorted)

theorem mem_keys_iff (m : SortedMap κ ν) {k : κ} :
    k ∈ m.entries.map Prod.fst ↔ ∃ v, m.get? k = some v := by
  simp only [List.mem_map]
  constructor
  · rintro ⟨⟨k', v⟩, he, rfl⟩
    exact ⟨v, (mem_entries_iff m).1 he⟩
  · rintro ⟨v, hv⟩
    exact ⟨(k, v), (mem_entries_iff m).2 hv, rfl⟩

/-- The keys of a filter of the entries, as an iterator over a part of the map lists them:
none twice, and each one a key of the map. -/
theorem nodup_filter_keys (m : SortedMap κ ν) (p : κ × ν → Bool) :
    ((m.entries.filter p).map Prod.fst).Nodup :=
  m.nodup_keys.sublist (List.filter_sublist.map _)

theorem get?_of_mem_filter_keys (m : SortedMap κ ν) {p : κ × ν → Bool} {k : κ}
    (h : k ∈ (m.entries.filter p).map Prod.fst) : ∃ v, m.get? k = some v :=
  m.mem_keys_iff.1 ((List.filter_sublist.map _).subset h)

theorem keySorted_range (m : SortedMap κ ν) (lo hi : Option κ) : KeySorted (m.range lo hi) :=
  m.sorted.filter _

theorem mem_range (m : SortedMap κ ν) {lo hi : Option κ} {k : κ} {v : ν} :
    (k, v) ∈ m.range lo hi ↔ m.get? k = some v ∧ inDomain lo hi k = true := by
  rw [range, List.mem_filter, mem_entries_iff]

/-- Maps are equal when their lookups agree. -/
@[ext] theorem ext {m m' : SortedMap κ ν} (h : ∀ k, m.get? k = m'.get? k) : m = m' := by
  cases m; cases m'
  congr
  exact eq_of_lookupL ‹_› ‹_› h

theorem erase_of_get?_eq_none {m : SortedMap κ ν} {k : κ} (h : m.get? k = none) :
    m.erase k = m := by
  ext k'
  by_cases hk : k' = k
  · subst hk; simp [h]
  · simp [hk]

theorem insert_get? {m : SortedMap κ ν} {k : κ} {v : ν} (h : m.get? k = some v) :
    m.insert k v = m := by
  ext k'
  by_cases hk : k' = k
  · subst hk; simp [h]
  · simp [hk]

/-- A second insert under a key replaces the first. -/
@[simp] theorem insert_insert (m : SortedMap κ ν) (k : κ) (v v' : ν) :
    (m.insert k v).insert k v' = m.insert k v' := by
  ext k'
  by_cases hk : k' = k <;> simp [hk]

/-- Inserting the elements of a list one after another: a key holds the value of the last
element with that key, or what it held before. -/
theorem get?_foldl_insert {α : Type*} (key : α → κ) (val : α → ν) (l : List α)
    (m : SortedMap κ ν) (k : κ) :
    (l.foldl (fun m a => m.insert (key a) (val a)) m).get? k =
      ((l.reverse.find? fun a => key a = k).map val).or (m.get? k) := by
  induction l generalizing m with
  | nil => simp
  | cons a l ih =>
    -- the first element is the last candidate of the reversed list
    rw [List.foldl_cons, ih, List.reverse_cons, List.find?_append, get?_insert]
    by_cases hk : key a = k
    · cases (l.reverse.find? fun a => key a = k) <;> simp [hk]
    · simp [hk, Ne.symm hk]

/-- Applying updates one after another, each of which changes only its own key: a key no
update names keeps its value. -/
theorem get?_foldl_of_forall_ne {α : Type*} (key : α → κ) (f : SortedMap κ ν → α → SortedMap κ ν)
    (hframe : ∀ m a k, k ≠ key a → (f m a).get? k = m.get? k) {l : List α} {k : κ}
    (hl : ∀ a ∈ l, key a ≠ k) (m : SortedMap κ ν) : (l.foldl f m).get? k = m.get? k := by
  induction l generalizing m with
  | nil => rfl
  | cons a l ih =>
    rw [List.foldl_cons, ih (fun b hb => hl b (List.mem_cons_of_mem a hb)),
      hframe m a k (hl a List.mem_cons_self).symm]

/-- Applying updates with distinct keys, each of which changes only its own key as a function
`g` of what the key held: a key named by an update holds what that update makes of it. -/
theorem get?_foldl_of_mem {α : Type*} (key : α → κ) (f : SortedMap κ ν → α → SortedMap κ ν)
    (g : α → Option ν → Option ν) (hf : ∀ m a, (f m a).get? (key a) = g a (m.get? (key a)))
    (hframe : ∀ m a k, k ≠ key a → (f m a).get? k = m.get? k) {l : List α}
    (hl : (l.map key).Nodup) {a : α} (ha : a ∈ l) (m : SortedMap κ ν) :
    (l.foldl f m).get? (key a) = g a (m.get? (key a)) := by
  induction l generalizing m with
  | nil => cases ha
  | cons b l ih =>
    rw [List.map_cons, List.nodup_cons] at hl
    rw [List.foldl_cons]
    rcases List.mem_cons.1 ha with rfl | ha
    · -- the update of `a` comes first; the later ones name other keys
      rw [get?_foldl_of_forall_ne key f hframe
        (fun c hc heq => hl.1 (by rw [← heq]; exact List.mem_map_of_mem hc)), hf]
    · have hne : key a ≠ key b := fun heq => hl.1 (by rw [← heq]; exact List.mem_map_of_mem ha)
      rw [ih hl.2 ha, hframe m b (key a) hne]

section FilterMap

variable {μ : Type*}

/-- The entries whose values `f` keeps, with the values it makes of them. -/
def filterMap (m : SortedMap κ ν) (f : ν → Option μ) : SortedMap κ μ :=
  ⟨m.entries.filterMap fun e => (f e.2).map (e.1, ·),
    m.sorted.filterMap _ fun a b hab x hx y hy => by
      obtain ⟨_, -, rfl⟩ := Option.map_eq_some_iff.1 hx
      obtain ⟨_, -, rfl⟩ := Option.map_eq_some_iff.1 hy
      exact hab⟩

@[simp] theorem get?_filterMap (m : SortedMap κ ν) (f : ν → Option μ) (k : κ) :
    (m.filterMap f).get? k = (m.get? k).bind f :=
  lookupL_filterMap f m.sorted k

end FilterMap

section Filter

/-- The entries whose keys satisfy `p`: what deleting every key that fails it leaves, as an
iterator over a prefix of the store deletes them. -/
def filter (m : SortedMap κ ν) (p : κ → Bool) : SortedMap κ ν :=
  ⟨m.entries.filter fun e => p e.1, m.sorted.filter _⟩

@[simp] theorem get?_filter (m : SortedMap κ ν) (p : κ → Bool) (k : κ) :
    (m.filter p).get? k = if p k then m.get? k else none :=
  lookupL_filter_key p m.entries k

end Filter

section Size

/-- The number of entries, as an iteration over the map counts them. -/
def size (m : SortedMap κ ν) : ℕ := m.entries.length

/-- Maps whose keys correspond under an injective map of keys have as many entries. -/
theorem size_eq_of_keys {κ' ν' : Type*} [LinearOrder κ'] {m : SortedMap κ ν} {m' : SortedMap κ' ν'}
    (e : κ → κ') (he : Function.Injective e)
    (h : ∀ k', (m'.get? k').isSome ↔ ∃ k, e k = k' ∧ (m.get? k).isSome) : m'.size = m.size := by
  -- the keys of `m'` are the image of those of `m`, and neither list repeats a key
  have hkeys : (m'.entries.map Prod.fst).toFinset = (m.entries.map Prod.fst).toFinset.image e := by
    ext k'
    simp only [List.mem_toFinset, Finset.mem_image, mem_keys_iff, ← Option.isSome_iff_exists, h]
    exact ⟨fun ⟨k, hk, hs⟩ => ⟨k, hs, hk⟩, fun ⟨k, hs, hk⟩ => ⟨k, hk, hs⟩⟩
  unfold size
  rw [← List.length_map (f := Prod.fst), ← List.toFinset_card_of_nodup m'.nodup_keys, hkeys,
    Finset.card_image_of_injective _ he, List.toFinset_card_of_nodup m.nodup_keys, List.length_map]

end Size

section Sum

variable {M : Type*} [AddCommMonoid M]

theorem sum_insert (m : SortedMap κ ν) (f : κ → ν → M) (k : κ) (v : ν) :
    (m.insert k v).sum f = (m.erase k).sum f + f k v := by
  unfold sum insert erase
  rw [((insertL_perm m.sorted k v).map _).sum_eq, List.map_cons, List.sum_cons, add_comm]

/-- The sum splits into the entry under `k` (if any) and the rest. -/
theorem sum_eq_erase_add (m : SortedMap κ ν) (f : κ → ν → M) (k : κ) :
    m.sum f = (m.erase k).sum f + ((m.get? k).elim 0 (f k)) := by
  cases h : m.get? k with
  | none => rw [erase_of_get?_eq_none h]; simp
  | some v =>
    unfold sum erase
    rw [((perm_eraseL m.sorted h).map _).sum_eq, List.map_cons, List.sum_cons, add_comm]
    rfl

theorem sum_empty (f : κ → ν → M) : (empty : SortedMap κ ν).sum f = 0 := rfl

/-- The sum over the entries whose keys satisfy `p`. -/
theorem sum_filter (m : SortedMap κ ν) (p : κ → Bool) (f : κ → ν → M) :
    (m.filter p).sum f = m.sum fun k v => if p k then f k v else 0 := by
  unfold sum filter
  dsimp only
  generalize m.entries = l
  induction l with
  | nil => rfl
  | cons e l ih => by_cases he : p e.1 <;> simp [he, ih]

/-- Counting the entries one by one gives their number. -/
theorem sum_one (m : SortedMap κ ν) : m.sum (fun _ _ => (1 : ℤ)) = m.size := by
  simp [sum, size]

theorem sum_add (m : SortedMap κ ν) (f g : κ → ν → M) :
    m.sum (fun k v => f k v + g k v) = m.sum f + m.sum g := by
  unfold sum
  exact List.sum_map_add

/-- The sum depends only on the values of `f` at the entries. -/
theorem sum_congr {m : SortedMap κ ν} {f g : κ → ν → M}
    (h : ∀ k v, m.get? k = some v → f k v = g k v) : m.sum f = m.sum g := by
  unfold sum
  congr 1
  refine List.map_congr_left fun e he => ?_
  exact h e.1 e.2 ((mem_entries_iff m).1 he)

/-- Maps whose values have the same images under `g`, key by key, have the same sums of
functions of those images. -/
theorem sum_comp_eq {μ : Type*} {m₁ m₂ : SortedMap κ ν} (g : ν → μ) (F : κ → μ → M)
    (h : ∀ k, (m₁.get? k).map g = (m₂.get? k).map g) :
    m₁.sum (fun k v => F k (g v)) = m₂.sum (fun k v => F k (g v)) := by
  -- both sums are sums over the map of the images
  have hsum : ∀ m : SortedMap κ ν,
      m.sum (fun k v => F k (g v)) = (m.filterMap fun v => some (g v)).sum F := by
    intro m
    unfold sum filterMap
    simp [Function.comp_def]
  have he : m₁.filterMap (fun v => some (g v)) = m₂.filterMap (fun v => some (g v)) := by
    refine SortedMap.ext fun k => ?_
    simpa only [get?_filterMap, Option.map_eq_bind, Function.comp_def] using h k
  rw [hsum, hsum, he]

end Sum

section SumGroup

variable {G : Type*} [AddCommGroup G]

/-- The sum after an insert: the old entry under `k` (if any) replaced by the new one. -/
theorem sum_insert_eq (m : SortedMap κ ν) (f : κ → ν → G) (k : κ) (v : ν) :
    (m.insert k v).sum f = m.sum f - (m.get? k).elim 0 (f k) + f k v := by
  rw [sum_insert, sum_eq_erase_add m f k, add_sub_cancel_right]

/-- The sum after an erase: the old entry under `k` (if any) taken out. -/
theorem sum_erase_eq (m : SortedMap κ ν) (f : κ → ν → G) (k : κ) :
    (m.erase k).sum f = m.sum f - (m.get? k).elim 0 (f k) := by
  rw [sum_eq_erase_add m f k, add_sub_cancel_right]

end SumGroup

section SumOrder

variable {M : Type*} [AddCommMonoid M] [PartialOrder M] [IsOrderedAddMonoid M]

theorem sum_nonneg {m : SortedMap κ ν} {f : κ → ν → M}
    (hf : ∀ k v, m.get? k = some v → 0 ≤ f k v) : 0 ≤ m.sum f := by
  unfold sum
  apply List.sum_nonneg
  intro x hx
  obtain ⟨e, he, rfl⟩ := List.mem_map.mp hx
  exact hf e.1 e.2 ((mem_entries_iff m).1 he)

/-- Sums compare as their terms do at the entries. -/
theorem sum_le_sum {m : SortedMap κ ν} {f g : κ → ν → M}
    (h : ∀ k v, m.get? k = some v → f k v ≤ g k v) : m.sum f ≤ m.sum g := by
  unfold sum
  exact List.sum_le_sum fun e he => h e.1 e.2 ((mem_entries_iff m).1 he)

/-- A term of a sum of nonnegative terms is at most the sum. -/
theorem le_sum {m : SortedMap κ ν} {f : κ → ν → M}
    (hf : ∀ k v, m.get? k = some v → 0 ≤ f k v) {k : κ} {v : ν} (hk : m.get? k = some v) :
    f k v ≤ m.sum f := by
  rw [sum_eq_erase_add m f k, hk]
  have hrest : 0 ≤ (m.erase k).sum f := by
    refine sum_nonneg fun k' v' h' => hf k' v' ?_
    rw [get?_erase] at h'
    split_ifs at h' with hk'
    exact h'
  exact le_add_of_nonneg_left hrest

end SumOrder

end SortedMap
