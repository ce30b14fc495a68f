import CosmosSdk.Lib.SortedMap

/-!
# Secondary indexes

A secondary index of a map `M`: a map `I` from a key computed from each value to the key the
value is stored under, for the values that satisfy a predicate `p` (`IndexOf`).  A store that
keeps such an index by hand deletes the entry of the old value and inserts the entry of the
new one at each write.  That keeps the index exact when values stored under different keys
have different index keys (`KeysApart`):

* `IndexOf.replace`, `IndexOf.replace_not`: a stored value replaced by one the index keeps,
  or by one it does not keep; `IndexOf.replace_same`: by one with the same index key;
* `IndexOf.insert_new`, `IndexOf.erase`: a value added, a value removed;
* `IndexOf.get?_key`, `IndexOf.get?_key_of_not`: a kept value is found under its index key,
  a value that is not kept is not.
-/

variable {α β κ : Type*} [LinearOrder α]

namespace SortedMap

/-- The value stored under `a` is kept by `p` and has index key `k`. -/
def Indexed (M : SortedMap α β) (p : β → Prop) (key : β → κ) (k : κ) (a : α) : Prop :=
  ∃ v, M.get? a = some v ∧ p v ∧ key v = k

/-- Values stored under different keys have different index keys. -/
def KeysApart (M : SortedMap α β) (key : β → κ) : Prop :=
  ∀ a b v w, M.get? a = some v → M.get? b = some w → key v = key w → a = b

variable {M : SortedMap α β} {p : β → Prop} {key : β → κ} {a b : α} {k : κ} {v v' : β}

theorem indexed_insert :
    (M.insert a v').Indexed p key k b ↔ (b = a ∧ p v' ∧ key v' = k) ∨ (b ≠ a ∧ M.Indexed p key k b) := by
  unfold Indexed
  by_cases hb : b = a
  · subst hb
    simp
  · simp [hb]

theorem indexed_erase : (M.erase a).Indexed p key k b ↔ b ≠ a ∧ M.Indexed p key k b := by
  unfold Indexed
  by_cases hb : b = a
  · subst hb
    simp
  · simp [hb]

/-- An indexed value other than the one under `a` has an index key other than its. -/
theorem KeysApart.key_ne (hapart : M.KeysApart key) (hv : M.get? a = some v)
    (hb : M.Indexed p key k b) (hne : b ≠ a) : key v ≠ k := by
  obtain ⟨w, hw, -, rfl⟩ := hb
  exact fun hkey => hne (hapart b a w v hw hv hkey.symm)

/-- A value indexed under another key than the value under `a` is stored under another key. -/
theorem Indexed.ne_of_key_ne (hv : M.get? a = some v) (hb : M.Indexed p key k b)
    (hk : key v ≠ k) : b ≠ a := by
  rintro rfl
  obtain ⟨w, hw, -, hkey⟩ := hb
  rw [hv] at hw
  cases hw
  exact hk hkey

variable [LinearOrder κ]

/-- `I` indexes the values of `M` that satisfy `p`: under the index key of each, the key it
is stored under, and nothing else. -/
def IndexOf (I : SortedMap κ α) (M : SortedMap α β) (p : β → Prop) (key : β → κ) : Prop :=
  ∀ k a, I.get? k = some a ↔ M.Indexed p key k a

variable {I : SortedMap κ α}

namespace IndexOf

theorem get?_key (hI : I.IndexOf M p key) (hv : M.get? a = some v) (hp : p v) :
    I.get? (key v) = some a :=
  (hI _ _).mpr ⟨v, hv, hp, rfl⟩

theorem get?_key_of_not (hI : I.IndexOf M p key) (hapart : M.KeysApart key)
    (hv : M.get? a = some v) (hp : ¬ p v) : I.get? (key v) = none := by
  cases hk : I.get? (key v) with
  | none => rfl
  | some b =>
    -- the value indexed under that key is stored under `a`, so it is `v`
    obtain ⟨w, hw, hpw, hkey⟩ := (hI _ _).mp hk
    have hba := hapart b a w v hw hv hkey
    subst hba
    rw [hv] at hw
    cases hw
    exact absurd hpw hp

/-- A stored value replaced by one the index keeps: the old entry deleted, the new one
inserted. -/
theorem replace (hI : I.IndexOf M p key) (hapart : M.KeysApart key)
    (hapart' : (M.insert a v').KeysApart key) (hv : M.get? a = some v) (hp : p v') :
    ((I.erase (key v)).insert (key v') a).IndexOf (M.insert a v') p key := by
  intro k b
  rw [indexed_insert, get?_insert, get?_erase]
  by_cases hk : k = key v'
  · -- the new entry: no other value has its index key
    subst hk
    simp only [if_true, Option.some.injEq]
    constructor
    · rintro rfl
      exact .inl ⟨rfl, hp, trivial⟩
    · rintro (⟨rfl, -⟩ | ⟨hne, w, hw, -, hkey⟩)
      · rfl
      · refine absurd (hapart' b a w v' ?_ (get?_insert_self M a v') hkey) hne
        rw [get?_insert_ne M v' hne]
        exact hw
  rw [if_neg hk]
  by_cases hkv : k = key v
  · -- the old entry: no value is indexed under its key any more
    subst hkv
    simp only [if_true, reduceCtorEq, false_iff, not_or, not_and]
    exact ⟨fun _ _ hkey => hk hkey.symm, fun hne hb => hapart.key_ne hv hb hne rfl⟩
  · rw [if_neg hkv, hI]
    constructor
    · intro hb
      exact .inr ⟨hb.ne_of_key_ne hv fun h => hkv h.symm, hb⟩
    · rintro (⟨-, -, hkey⟩ | ⟨-, hb⟩)
      · exact absurd hkey.symm hk
      · exact hb

/-- A stored value replaced by one the index does not keep: the old entry deleted. -/
theorem replace_not (hI : I.IndexOf M p key) (hapart : M.KeysApart key)
    (hv : M.get? a = some v) (hp : ¬ p v') :
    (I.erase (key v)).IndexOf (M.insert a v') p key := by
  intro k b
  rw [indexed_insert, get?_erase]
  by_cases hkv : k = key v
  · subst hkv
    simp only [if_true, reduceCtorEq, false_iff, not_or, not_and]
    exact ⟨fun _ hp' => absurd hp' hp, fun hne hb => hapart.key_ne hv hb hne rfl⟩
  · rw [if_neg hkv, hI]
    constructor
    · intro hb
      exact .inr ⟨hb.ne_of_key_ne hv fun h => hkv h.symm, hb⟩
    · rintro (⟨-, hp', -⟩ | ⟨-, hb⟩)
      · exact absurd hp' hp
      · exact hb

/-- A stored value replaced by one with the same index key, kept exactly when the old one
was: the index stays as it is. -/
theorem replace_same (hI : I.IndexOf M p key) (hapart : M.KeysApart key)
    (hapart' : (M.insert a v').KeysApart key) (hv : M.get? a = some v) (hkey : key v' = key v)
    (hp : p v' ↔ p v) : I.IndexOf (M.insert a v') p key := by
  by_cases hpv : p v'
  · -- the entry deleted and set again is the one that was there
    have hI' : (I.erase (key v)).insert (key v) a = I := by
      ext k
      rw [get?_insert, get?_erase]
      split_ifs with hk
      · rw [hk, hI.get?_key hv (hp.mp hpv)]
      · rfl
    have h := hI.replace hapart hapart' hv hpv
    rwa [hkey, hI'] at h
  · have h := hI.replace_not hapart hv hpv
    rwa [erase_of_get?_eq_none (hI.get?_key_of_not hapart hv (mt hp.mpr hpv))] at h

/-- A value added under a new key, kept by the index. -/
theorem insert_new (hI : I.IndexOf M p key) (hapart' : (M.insert a v').KeysApart key)
    (hnone : M.get? a = none) (hp : p v') :
    (I.insert (key v') a).IndexOf (M.insert a v') p key := by
  intro k b
  rw [indexed_insert, get?_insert]
  by_cases hk : k = key v'
  · subst hk
    simp only [if_true, Option.some.injEq]
    constructor
    · rintro rfl
      exact .inl ⟨rfl, hp, trivial⟩
    · rintro (⟨rfl, -⟩ | ⟨hne, w, hw, -, hkey⟩)
      · rfl
      · refine absurd (hapart' b a w v' ?_ (get?_insert_self M a v') hkey) hne
        rw [get?_insert_ne M v' hne]
        exact hw
  · rw [if_neg hk, hI]
    constructor
    · intro hb
      by_cases hba : b = a
      · subst hba
        obtain ⟨w, hw, -⟩ := hb
        rw [hnone] at hw
        cases hw
      · exact .inr ⟨hba, hb⟩
    · rintro (⟨-, -, hkey⟩ | ⟨-, hb⟩)
      · exact absurd hkey.symm hk
      · exact hb

/-- A stored value removed with its entry. -/
theorem erase (hI : I.IndexOf M p key) (hapart : M.KeysApart key) (hv : M.get? a = some v) :
    (I.erase (key v)).IndexOf (M.erase a) p key := by
  intro k b
  rw [indexed_erase, get?_erase]
  by_cases hkv : k = key v
  · subst hkv
    simp only [if_true, reduceCtorEq, false_iff, not_and]
    exact fun hne hb => hapart.key_ne hv hb hne rfl
  · rw [if_neg hkv, hI]
    constructor
    · intro hb
      exact ⟨hb.ne_of_key_ne hv fun h => hkv h.symm, hb⟩
    · exact fun hb => hb.2

end IndexOf

end SortedMap
