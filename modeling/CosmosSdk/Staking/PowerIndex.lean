import CosmosSdk.Staking.Keeper
import CosmosSdk.Lib.Index

/-!
# The power index

`ValidatorsByPowerIndex` (`keeper/validator.go`) holds, for every validator that is not
jailed, an entry under its power rank (`GetValidatorsByPowerIndexKey`: its consensus power,
then its operator address with every byte inverted), holding its operator address.  The keeper
keeps it by hand: each write of a validator deletes the key of the record it was given and sets
the key of the new record, unless that one is jailed.

* `State.PowerIndexConsistent`: the power index as it should be.
* `PowerIndex`: the part of the state the index is about, the validators and the index, with
  one operation per setter of the keeper (`State.powerIndex` and a lemma per setter).
* `PowerIndex.Inv`: every record is stored under its operator address, which has `AddrLen`
  bytes, and the index is the `SortedMap.IndexOf` of the records that are not jailed.  Two
  full-length addresses give different keys (`operatorAddress_eq_of_key_eq`), so the lemmas
  of `Lib/Index` apply to each way the keeper writes a validator.

The keys are ordered by consensus power and then by the operator address reversed, and
`ParseValidatorPowerRankKey` reads the address back (`getValidatorPowerRank_lt_iff`,
`ParseValidatorPowerRankKey_getValidatorPowerRank`).
-/

namespace CosmosSdk.Staking

/-! ### The order of the power index

The keeper walks the index backwards from its last key (`ApplyAndReturnValidatorSetUpdates`),
so the key order is the rank: a larger consensus power comes later, and of two equal powers
the smaller operator address.  The address can be read back from the key. -/

section KeyOrder

/-- With a full-length operator address the power rank is the prefix, the power in eight
big-endian bytes and the inverted address. -/
theorem getValidatorPowerRank_of_length {v : Validator} (hv : v.operatorAddress.length = AddrLen) :
    getValidatorPowerRank v = ValidatorsByPowerIndexKey ::
      (bigEndian 8 (TokensToConsensusPower v.tokens % 2 ^ 64).toNat ++
        v.operatorAddress.map (~~~ ·)) := by
  simp [getValidatorPowerRank, hv]

/-- A consensus power of nonnegative tokens that fits an `int64` is its own `uint64`. -/
theorem power_toNat_of_lt {tokens : ℤ} (ht : 0 ≤ tokens) (hp : TokensToConsensusPower tokens < 2 ^ 63) :
    (TokensToConsensusPower tokens % 2 ^ 64).toNat = (TokensToConsensusPower tokens).toNat ∧
      (TokensToConsensusPower tokens).toNat < 256 ^ 8 := by
  have h0 : 0 ≤ TokensToConsensusPower tokens := Int.tdiv_nonneg ht (by decide)
  rw [Int.emod_eq_of_lt h0 (by omega)]
  exact ⟨rfl, by omega⟩

/-- Power-rank keys of full-length addresses and powers that fit an `int64` are ordered by
the power, then by the address reversed. -/
theorem getValidatorPowerRank_lt_iff {v₁ v₂ : Validator}
    (h₁ : v₁.operatorAddress.length = AddrLen) (h₂ : v₂.operatorAddress.length = AddrLen)
    (ht₁ : 0 ≤ v₁.tokens) (ht₂ : 0 ≤ v₂.tokens)
    (hp₁ : TokensToConsensusPower v₁.tokens < 2 ^ 63) (hp₂ : TokensToConsensusPower v₂.tokens < 2 ^ 63) :
    getValidatorPowerRank v₁ < getValidatorPowerRank v₂ ↔
      TokensToConsensusPower v₁.tokens < TokensToConsensusPower v₂.tokens ∨
        TokensToConsensusPower v₁.tokens = TokensToConsensusPower v₂.tokens ∧
          v₂.operatorAddress < v₁.operatorAddress := by
  obtain ⟨he₁, hb₁⟩ := power_toNat_of_lt ht₁ hp₁
  obtain ⟨he₂, hb₂⟩ := power_toNat_of_lt ht₂ hp₂
  have hn₁ : 0 ≤ TokensToConsensusPower v₁.tokens := Int.tdiv_nonneg ht₁ (by decide)
  have hn₂ : 0 ≤ TokensToConsensusPower v₂.tokens := Int.tdiv_nonneg ht₂ (by decide)
  -- `toNat` is faithful on nonnegative powers
  have hlt : (TokensToConsensusPower v₁.tokens).toNat < (TokensToConsensusPower v₂.tokens).toNat ↔
      TokensToConsensusPower v₁.tokens < TokensToConsensusPower v₂.tokens := by omega
  have heq : (TokensToConsensusPower v₁.tokens).toNat = (TokensToConsensusPower v₂.tokens).toNat ↔
      TokensToConsensusPower v₁.tokens = TokensToConsensusPower v₂.tokens := by omega
  rw [getValidatorPowerRank_of_length h₁, getValidatorPowerRank_of_length h₂, List.cons_lt_cons_iff,
    append_lt_append_iff_of_length_eq _ _ (by simp), he₁, he₂, bigEndian_lt_bigEndian_iff hb₁ hb₂,
    bigEndian_inj hb₁ hb₂, map_complement_lt_iff (h₁.trans h₂.symm), hlt, heq]
  -- the prefix byte is the same
  simp only [lt_irrefl, true_and, false_or]

/-- `ParseValidatorPowerRankKey` reads a full-length operator address back from its key. -/
theorem ParseValidatorPowerRankKey_getValidatorPowerRank {v : Validator}
    (hv : v.operatorAddress.length = AddrLen) :
    ParseValidatorPowerRankKey (getValidatorPowerRank v) = .ok v.operatorAddress := by
  rw [getValidatorPowerRank_of_length hv]
  simp [ParseValidatorPowerRankKey, hv, AddrLen, List.map_map, Function.comp_def]

theorem getValidatorPowerRank_order_parse {v₁ v₂ : Validator}
    (h₁ : v₁.operatorAddress.length = AddrLen) (h₂ : v₂.operatorAddress.length = AddrLen)
    (ht₁ : 0 ≤ v₁.tokens) (ht₂ : 0 ≤ v₂.tokens)
    (hp₁ : TokensToConsensusPower v₁.tokens < 2 ^ 63) (hp₂ : TokensToConsensusPower v₂.tokens < 2 ^ 63) :
    (getValidatorPowerRank v₁ < getValidatorPowerRank v₂ ↔
      TokensToConsensusPower v₁.tokens < TokensToConsensusPower v₂.tokens ∨
        TokensToConsensusPower v₁.tokens = TokensToConsensusPower v₂.tokens ∧
          v₂.operatorAddress < v₁.operatorAddress) ∧
      ParseValidatorPowerRankKey (getValidatorPowerRank v₁) = .ok v₁.operatorAddress :=
  ⟨getValidatorPowerRank_lt_iff h₁ h₂ ht₁ ht₂ hp₁ hp₂,
    ParseValidatorPowerRankKey_getValidatorPowerRank h₁⟩

theorem getValidatorPowerRank_order_parse_new :
    (getValidatorPowerRank (NewValidator (List.replicate 20 1) ⟨[7], [8]⟩) <
        getValidatorPowerRank (NewValidator (List.replicate 20 2) ⟨[7], [8]⟩) ↔
      TokensToConsensusPower 0 < TokensToConsensusPower 0 ∨
        TokensToConsensusPower 0 = TokensToConsensusPower 0 ∧
          List.replicate 20 (2 : UInt8) < List.replicate 20 1) ∧
      ParseValidatorPowerRankKey (getValidatorPowerRank (NewValidator (List.replicate 20 1) ⟨[7], [8]⟩)) =
        .ok (List.replicate 20 1) :=
  getValidatorPowerRank_order_parse (by decide) (by decide) (by decide) (by decide) (by decide)
    (by decide)

end KeyOrder

/-- Records with full-length operator addresses have the same power-index key only if they
have the same address: the key ends with the inverted address. -/
theorem operatorAddress_eq_of_key_eq {v w : Validator} (hv : v.operatorAddress.length = AddrLen)
    (hw : w.operatorAddress.length = AddrLen)
    (h : GetValidatorsByPowerIndexKey v = GetValidatorsByPowerIndexKey w) :
    v.operatorAddress = w.operatorAddress := by
  unfold GetValidatorsByPowerIndexKey at h
  rw [getValidatorPowerRank_of_length hv, getValidatorPowerRank_of_length hw] at h
  -- past the prefix byte and the eight power bytes, the inverted addresses
  have hinv := List.append_inj_right (List.cons.inj h).2 (by simp)
  have hnot : Function.Injective fun b : UInt8 => ~~~b := fun a b hab => by
    simpa using congrArg (~~~ ·) hab
  exact hnot.list_map hinv

/-- The validators and the power index. -/
structure PowerIndex where
  validators : SortedMap ValAddress Validator
  byPower : SortedMap Bytes ValAddress

namespace PowerIndex

/-- `SetValidator`. -/
def setValidator (x : PowerIndex) (v : Validator) : PowerIndex :=
  { x with validators := x.validators.insert v.operatorAddress v }

/-- `SetValidatorByPowerIndex`: not for a jailed validator. -/
def setByPower (x : PowerIndex) (v : Validator) : PowerIndex :=
  if v.jailed then x
  else { x with byPower := x.byPower.insert (GetValidatorsByPowerIndexKey v) v.operatorAddress }

/-- `SetNewValidatorByPowerIndex`. -/
def setNewByPower (x : PowerIndex) (v : Validator) : PowerIndex :=
  { x with byPower := x.byPower.insert (GetValidatorsByPowerIndexKey v) v.operatorAddress }

/-- `DeleteValidatorByPowerIndex`. -/
def deleteByPower (x : PowerIndex) (v : Validator) : PowerIndex :=
  { x with byPower := x.byPower.erase (GetValidatorsByPowerIndexKey v) }

/-- `RemoveValidator` on the record `v` stored under `a`. -/
def remove (x : PowerIndex) (a : ValAddress) (v : Validator) : PowerIndex :=
  ⟨x.validators.erase a, x.byPower.erase (GetValidatorsByPowerIndexKey v)⟩

/-- Every record is stored under its operator address, a full-length one. -/
def AddrOk (M : SortedMap ValAddress Validator) : Prop :=
  ∀ a v, M.get? a = some v → v.operatorAddress = a ∧ a.length = AddrLen

/-- The invariant of the power index. -/
structure Inv (x : PowerIndex) : Prop where
  addr : AddrOk x.validators
  index : x.byPower.IndexOf x.validators (fun v => v.jailed = false) GetValidatorsByPowerIndexKey

theorem AddrOk.keysApart {M : SortedMap ValAddress Validator} (h : AddrOk M) :
    M.KeysApart GetValidatorsByPowerIndexKey := by
  intro a b v w hv hw hkey
  obtain ⟨rfl, hla⟩ := h a v hv
  obtain ⟨rfl, hlb⟩ := h b w hw
  exact operatorAddress_eq_of_key_eq hla hlb hkey

theorem AddrOk.insert {M : SortedMap ValAddress Validator} (h : AddrOk M) {v : Validator}
    (hlen : v.operatorAddress.length = AddrLen) : AddrOk (M.insert v.operatorAddress v) := by
  intro a w hw
  rw [SortedMap.get?_insert] at hw
  split_ifs at hw with ha
  · cases hw
    exact ⟨ha.symm, ha ▸ hlen⟩
  · exact h a w hw

theorem AddrOk.erase {M : SortedMap ValAddress Validator} (h : AddrOk M) (a : ValAddress) :
    AddrOk (M.erase a) := by
  intro b w hw
  rw [SortedMap.get?_erase] at hw
  split_ifs at hw
  exact h b w hw

variable {x : PowerIndex} {v v' : Validator}

theorem Inv.len (hI : x.Inv) (hv : x.validators.get? v.operatorAddress = some v) :
    v.operatorAddress.length = AddrLen :=
  (hI.addr _ _ hv).2

/-- A jailed record has no entry. -/
theorem Inv.erase_of_jailed (hI : x.Inv) (hv : x.validators.get? v.operatorAddress = some v)
    (hj : v.jailed = true) : x.byPower.erase (GetValidatorsByPowerIndexKey v) = x.byPower :=
  SortedMap.erase_of_get?_eq_none
    (hI.index.get?_key_of_not hI.addr.keysApart hv (by simp [hj]))

/-- The keeper's write of a stored validator (`AddValidatorTokensAndShares`, `bondValidator`
and the like): the key of the record it was given deleted, the new record stored, its key set
unless it is jailed. -/
theorem Inv.rewrite (hI : x.Inv) (hv : x.validators.get? v.operatorAddress = some v)
    (hop : v'.operatorAddress = v.operatorAddress) :
    (((x.deleteByPower v).setValidator v').setByPower v').Inv := by
  have haddr : AddrOk (x.validators.insert v.operatorAddress v') := by
    rw [← hop]
    exact hI.addr.insert (hop ▸ hI.len hv)
  unfold setByPower
  split_ifs with hj
  · refine ⟨by rwa [setValidator, hop], ?_⟩
    simp only [setValidator, deleteByPower, hop]
    exact hI.index.replace_not hI.addr.keysApart hv (by simp [hj])
  · refine ⟨by rwa [setValidator, hop], ?_⟩
    simp only [setValidator, deleteByPower, hop]
    exact hI.index.replace hI.addr.keysApart haddr.keysApart hv (by simpa using hj)

/-- `jailValidator`: the jailed record stored, its key deleted. -/
theorem Inv.jail (hI : x.Inv) (hv : x.validators.get? v.operatorAddress = some v) :
    ((x.setValidator { v with jailed := true }).deleteByPower { v with jailed := true }).Inv := by
  refine ⟨hI.addr.insert (hI.len (v := v) hv), ?_⟩
  exact hI.index.replace_not (v := v) hI.addr.keysApart hv (by simp)

/-- `unjailValidator` on a jailed record: the record stored, its key set. -/
theorem Inv.unjail (hI : x.Inv) (hv : x.validators.get? v.operatorAddress = some v)
    (hj : v.jailed = true) :
    ((x.setValidator { v with jailed := false }).setByPower { v with jailed := false }).Inv := by
  have h : (((x.deleteByPower v).setValidator { v with jailed := false }).setByPower
      { v with jailed := false }).Inv := hI.rewrite hv rfl
  unfold deleteByPower at h
  rwa [hI.erase_of_jailed hv hj] at h

/-- A write that keeps the record's key and jail (`completeUnbondingValidator`). -/
theorem Inv.setValidator_same (hI : x.Inv) (hv : x.validators.get? v.operatorAddress = some v)
    (hop : v'.operatorAddress = v.operatorAddress)
    (hkey : GetValidatorsByPowerIndexKey v' = GetValidatorsByPowerIndexKey v)
    (hj : v'.jailed = v.jailed) : (x.setValidator v').Inv := by
  have haddr : AddrOk (x.validators.insert v.operatorAddress v') := by
    rw [← hop]
    exact hI.addr.insert (hop ▸ hI.len hv)
  refine ⟨by rwa [setValidator, hop], ?_⟩
  simp only [setValidator, hop]
  exact hI.index.replace_same hI.addr.keysApart haddr.keysApart hv hkey (by rw [hj])

/-- `RemoveValidator`: the record and its key removed. -/
theorem Inv.remove (hI : x.Inv) {a : ValAddress} (hv : x.validators.get? a = some v) :
    (x.remove a v).Inv :=
  ⟨hI.addr.erase a, hI.index.erase hI.addr.keysApart hv⟩

/-- `handleMsgCreateValidator`: a record under a new full-length address, not jailed, and its
key. -/
theorem Inv.create (hI : x.Inv) (hnone : x.validators.get? v.operatorAddress = none)
    (hlen : v.operatorAddress.length = AddrLen) (hj : v.jailed = false) :
    ((x.setValidator v).setNewByPower v).Inv :=
  ⟨hI.addr.insert hlen, hI.index.insert_new (hI.addr.insert hlen).keysApart hnone hj⟩

/-- No validators, no index. -/
theorem inv_empty : (⟨SortedMap.empty, SortedMap.empty⟩ : PowerIndex).Inv where
  addr _ _ h := by cases h
  index k a := by simp [SortedMap.Indexed]

end PowerIndex

/-! ### The power index of a state -/

namespace State

variable (s : State)

/-- The power index as it should be: every validator that is not jailed has an entry under
the key of its stored record, holding its address; every entry is one of these; and no
address has two entries. -/
def PowerIndexConsistent : Prop :=
  (∀ a v, s.GetValidator a = some v → v.jailed = false →
    s.validatorsByPower.get? (GetValidatorsByPowerIndexKey v) = some v.operatorAddress) ∧
  (∀ k a, s.validatorsByPower.get? k = some a →
    ∃ v, s.GetValidator a = some v ∧ v.operatorAddress = a ∧ v.jailed = false ∧
      GetValidatorsByPowerIndexKey v = k) ∧
  (∀ k k' a, s.validatorsByPower.get? k = some a → s.validatorsByPower.get? k' = some a → k = k')

/-- The validators and the power index of a state. -/
def powerIndex : PowerIndex := ⟨s.validators, s.validatorsByPower⟩

@[simp] theorem powerIndex_validators : s.powerIndex.validators = s.validators := rfl

@[simp] theorem powerIndex_byPower : s.powerIndex.byPower = s.validatorsByPower := rfl

@[simp] theorem powerIndex_SetValidator (v : Validator) :
    (s.SetValidator v).powerIndex = s.powerIndex.setValidator v := rfl

@[simp] theorem powerIndex_SetValidatorByPowerIndex (v : Validator) :
    (s.SetValidatorByPowerIndex v).powerIndex = s.powerIndex.setByPower v := by
  unfold SetValidatorByPowerIndex PowerIndex.setByPower
  split <;> rfl

@[simp] theorem powerIndex_DeleteValidatorByPowerIndex (v : Validator) :
    (s.DeleteValidatorByPowerIndex v).powerIndex = s.powerIndex.deleteByPower v := rfl

@[simp] theorem powerIndex_SetNewValidatorByPowerIndex (v : Validator) :
    (s.SetNewValidatorByPowerIndex v).powerIndex = s.powerIndex.setNewByPower v := rfl

@[simp] theorem powerIndex_SetValidatorByConsAddr (v : Validator) :
    (s.SetValidatorByConsAddr v).powerIndex = s.powerIndex := rfl

@[simp] theorem powerIndex_SetPool (p : Pool) : (s.SetPool p).powerIndex = s.powerIndex := rfl

@[simp] theorem powerIndex_SetLastValidatorPower (a : ValAddress) (p : ℤ) :
    (s.SetLastValidatorPower a p).powerIndex = s.powerIndex := rfl

@[simp] theorem powerIndex_DeleteLastValidatorPower (a : ValAddress) :
    (s.DeleteLastValidatorPower a).powerIndex = s.powerIndex := rfl

@[simp] theorem powerIndex_SetLastTotalPower (p : ℤ) :
    (s.SetLastTotalPower p).powerIndex = s.powerIndex := rfl

@[simp] theorem powerIndex_SetDelegation (d : Delegation) :
    (s.SetDelegation d).powerIndex = s.powerIndex := rfl

@[simp] theorem powerIndex_RemoveDelegation (d : Delegation) :
    (s.RemoveDelegation d).powerIndex = s.powerIndex := rfl

@[simp] theorem powerIndex_SetUnbondingDelegation (u : UnbondingDelegation) :
    (s.SetUnbondingDelegation u).powerIndex = s.powerIndex := rfl

@[simp] theorem powerIndex_RemoveUnbondingDelegation (u : UnbondingDelegation) :
    (s.RemoveUnbondingDelegation u).powerIndex = s.powerIndex := rfl

@[simp] theorem powerIndex_SetUnbondingDelegationEntry (del : AccAddress) (val : ValAddress)
    (h : ℤ) (t : Time) (b : ℤ) :
    (s.SetUnbondingDelegationEntry del val h t b).1.powerIndex = s.powerIndex := rfl

@[simp] theorem powerIndex_SetRedelegation (r : Redelegation) :
    (s.SetRedelegation r).powerIndex = s.powerIndex := rfl

@[simp] theorem powerIndex_RemoveRedelegation (r : Redelegation) :
    (s.RemoveRedelegation r).powerIndex = s.powerIndex := rfl

@[simp] theorem powerIndex_SetRedelegationEntry (del : AccAddress) (src dst : ValAddress)
    (h : ℤ) (t : Time) (b : ℤ) (x y : Dec) :
    (s.SetRedelegationEntry del src dst h t b x y).1.powerIndex = s.powerIndex := rfl

@[simp] theorem powerIndex_InsertValidatorQueue (v : Validator) :
    (s.InsertValidatorQueue v).powerIndex = s.powerIndex := rfl

@[simp] theorem powerIndex_DeleteValidatorQueue (v : Validator) :
    (s.DeleteValidatorQueue v).powerIndex = s.powerIndex := by
  unfold DeleteValidatorQueue
  dsimp only
  split <;> rfl

@[simp] theorem powerIndex_DeleteValidatorQueueTimeSlice (t : Time) :
    (s.DeleteValidatorQueueTimeSlice t).powerIndex = s.powerIndex := rfl

theorem powerIndex_DelegateCoins {a : AccAddress} {x : ℤ} {s' : State}
    (h : s.DelegateCoins a x = .ok s') : s'.powerIndex = s.powerIndex := by
  unfold DelegateCoins at h
  split_ifs at h
  split at h
  · cases h
  · split_ifs at h
    cases h
    rfl

theorem powerIndex_UndelegateCoins {a : AccAddress} {x : ℤ} {s' : State}
    (h : s.UndelegateCoins a x = .ok s') : s'.powerIndex = s.powerIndex := by
  unfold UndelegateCoins at h
  split_ifs at h
  split at h
  · cases h
  · cases h
    rfl

theorem GetValidator_eq_of_powerIndex_eq {s s' : State} (h : s'.powerIndex = s.powerIndex)
    (a : ValAddress) : s'.GetValidator a = s.GetValidator a :=
  congrArg (fun x : PowerIndex => x.validators.get? a) h

/-- The invariant gives the consistency the claim asks for. -/
theorem powerIndexConsistent_of_inv {s : State} (hI : s.powerIndex.Inv) : s.PowerIndexConsistent := by
  refine ⟨fun a v hv hj => ?_, fun k a hk => ?_, fun k k' a hk hk' => ?_⟩
  · obtain ⟨rfl, -⟩ := hI.addr a v hv
    exact hI.index.get?_key hv hj
  · obtain ⟨v, hv, hj, hkey⟩ := (hI.index k a).mp hk
    exact ⟨v, hv, (hI.addr a v hv).1, hj, hkey⟩
  · -- both entries are the entry of the record stored under `a`
    obtain ⟨v, hv, -, rfl⟩ := (hI.index k a).mp hk
    obtain ⟨v', hv', -, rfl⟩ := (hI.index k' a).mp hk'
    simp only [powerIndex_validators] at hv hv'
    rw [hv] at hv'
    cases hv'
    rfl

end State

end CosmosSdk.Staking
