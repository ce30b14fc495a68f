import CosmosSdk.Slashing.Keeper
import CosmosSdk.Lib.RingWindow

/-!
# Liveness: the missed-block window of `HandleValidatorSignature`

`HandleValidatorSignature` (`keeper.go`) is called once per block for each validator that
should have signed it.  Its signing info counts the calls in `IndexOffset`, and the call
writes whether the validator missed the block into a bit array of `SignedBlocksWindow`
slots, the `IndexOffset`-th call into slot `IndexOffset % SignedBlocksWindow`
(`signing_info.go`).  The counter `MissedBlocksCounter` follows the changes of the bits.
A validator past its first window that missed more than the window allows is slashed and
jailed, and its offset, counter and bits are reset.

The bit array is a ring buffer (`RingWindow`): with `hist` the `signed` flags of the calls
since the signing info was made or reset, the bit of each slot is whether the last call in
that slot missed, and the counter counts those slots (`WindowInv`).  Every call keeps this,
with its flag appended or, on a reset, with no flag at all (`WindowInv.HandleValidatorSignature`),
so after any run of calls the counter is the number of misses among the last
`min(IndexOffset, SignedBlocksWindow)` calls.

The bits are stored under `GetValidatorMissedBlockBitArrayKey(address, index)`, here the
pair of the two; a consensus address has a fixed length, so the prefix the clearing
iterates over holds the keys of that address and no other.
-/

namespace CosmosSdk.Slashing

/-- The parameters `HandleValidatorSignature` reads. -/
structure LivenessParams where
  SignedBlocksWindow : ℤ
  MinSignedPerWindow : Dec
  DowntimeJailDuration : Duration
  SlashFractionDowntime : Dec
  deriving DecidableEq, Repr

/-- `MinSignedPerWindow`: the fraction of the window that must be signed, in blocks. -/
def LivenessParams.minSignedPerWindow (p : LivenessParams) : ℤ :=
  (p.MinSignedPerWindow.mulInt p.SignedBlocksWindow).roundInt

/-- The states of both keepers with the slashing store's missed-block bit arrays, by
consensus address and index. -/
structure Liveness where
  chain : Chain
  missedBlocks : SortedMap (ConsAddress ×ₗ ℤ) Bool

namespace Liveness

variable (s : Liveness)

/-- `getValidatorMissedBlockBitArray`: an index with no bit stored was not missed. -/
def getValidatorMissedBlockBitArray (address : ConsAddress) (index : ℤ) : Bool :=
  (s.missedBlocks.get? (toLex (address, index))).getD false

/-- `IterateValidatorMissedBlockBitArray`, as the indices and bits it hands to its handler:
the bits stored at the indices `[0, SignedBlocksWindow)`, in order. -/
def IterateValidatorMissedBlockBitArray (p : LivenessParams) (address : ConsAddress) :
    List (ℤ × Bool) :=
  (List.range p.SignedBlocksWindow.toNat).filterMap fun (index : ℕ) =>
    (s.missedBlocks.get? (toLex (address, (index : ℤ)))).map fun missed => ((index : ℤ), missed)

/-- `setValidatorMissedBlockBitArray`. -/
def setValidatorMissedBlockBitArray (address : ConsAddress) (index : ℤ) (missed : Bool) :
    Liveness :=
  { s with missedBlocks := s.missedBlocks.insert (toLex (address, index)) missed }

/-- `clearValidatorMissedBlockBitArray`: every key under the address, deleted one after
another. -/
def clearValidatorMissedBlockBitArray (address : ConsAddress) : Liveness :=
  { s with
    missedBlocks := ((s.missedBlocks.entries.filter fun e => (ofLex e.1).1 = address).map
      Prod.fst).foldl SortedMap.erase s.missedBlocks }

/-- `SetValidatorSigningInfo`. -/
def SetValidatorSigningInfo (address : ConsAddress) (info : ValidatorSigningInfo) : Liveness :=
  { s with chain := { s.chain with slashing := s.chain.slashing.SetValidatorSigningInfo address info } }

/-- The switch of `HandleValidatorSignature`: a bit that changes is written, and the counter
follows it. -/
def updateMissed (consAddr : ConsAddress) (index : ℤ) (missed : Bool)
    (signInfo : ValidatorSigningInfo) : Liveness × ValidatorSigningInfo :=
  let previous := s.getValidatorMissedBlockBitArray consAddr index
  if !previous && missed then
    (s.setValidatorMissedBlockBitArray consAddr index true,
      { signInfo with MissedBlocksCounter := signInfo.MissedBlocksCounter + 1 })
  else if previous && !missed then
    (s.setValidatorMissedBlockBitArray consAddr index false,
      { signInfo with MissedBlocksCounter := signInfo.MissedBlocksCounter - 1 })
  else (s, signInfo)

/-- The downtime check of `HandleValidatorSignature`: a validator past its first window that
missed too many blocks, if it is found and not jailed, is slashed at the height of the stake
that signed the last commit, jailed, and its counter, offset and bits are reset. -/
def punishDowntime (p : LivenessParams) (hdr : Header) (consAddr : ConsAddress) (power : ℤ)
    (signInfo : ValidatorSigningInfo) : Except Fault (Liveness × ValidatorSigningInfo) :=
  let minHeight := signInfo.StartHeight + p.SignedBlocksWindow
  let maxMissed := p.SignedBlocksWindow - p.minSignedPerWindow
  if hdr.height > minHeight ∧ signInfo.MissedBlocksCounter > maxMissed then
    match s.chain.staking.GetValidatorByConsAddr consAddr with
    | some validator =>
      if !validator.jailed then do
        let distributionHeight := hdr.height - ValidatorUpdateDelay - 1
        let staking ← liftStaking
          (s.chain.staking.Slash hdr consAddr distributionHeight power p.SlashFractionDowntime)
        let staking ← liftStaking (staking.Jail consAddr)
        let signInfo := { signInfo with
          JailedUntil := hdr.time + p.DowntimeJailDuration
          MissedBlocksCounter := 0
          IndexOffset := 0 }
        pure (({ s with chain := { s.chain with staking } }).clearValidatorMissedBlockBitArray
          consAddr, signInfo)
      -- already jailed: not slashed again
      else pure (s, signInfo)
    | none => pure (s, signInfo)
  else pure (s, signInfo)

/-- `HandleValidatorSignature(addr, power, signed)`. -/
def HandleValidatorSignature (p : LivenessParams) (hdr : Header) (addr : ConsAddress)
    (power : ℤ) (signed : Bool) : Except Fault Liveness := do
  let consAddr := addr
  let some _ := s.chain.slashing.getPubkey addr
    | throw (.panic "Validator consensus-address %v not found")
  let some signInfo := s.chain.slashing.getValidatorSigningInfo consAddr
    | throw (.panic "Expected signing info for validator %s but not found")
  -- Go's `%` by a zero window panics
  if p.SignedBlocksWindow = 0 then throw (.panic "runtime error: integer divide by zero")
  let index := signInfo.IndexOffset.tmod p.SignedBlocksWindow
  let signInfo := { signInfo with IndexOffset := signInfo.IndexOffset + 1 }
  let (s, signInfo) := s.updateMissed consAddr index (!signed) signInfo
  let (s, signInfo) ← s.punishDowntime p hdr consAddr power signInfo
  pure (s.SetValidatorSigningInfo consAddr signInfo)

/-- `HandleValidatorSignature` for one validator, once for each of `calls`, with the header,
the power and the `signed` flag of each. -/
def handleSignatures (p : LivenessParams) (addr : ConsAddress) (calls : List (Header × ℤ × Bool)) :
    Except Fault Liveness :=
  calls.foldlM (fun s c => s.HandleValidatorSignature p c.1 addr c.2.1 c.2.2) s

/-! ### The small lemmas of the store -/

section Store

variable (address address' : ConsAddress) (index : ℤ)

@[simp] theorem getValidatorSigningInfo_SetValidatorSigningInfo (info : ValidatorSigningInfo) :
    (s.SetValidatorSigningInfo address info).chain.slashing.getValidatorSigningInfo address' =
      if address' = address then some info
      else s.chain.slashing.getValidatorSigningInfo address' := by
  simp [SetValidatorSigningInfo]

@[simp] theorem missedBlocks_SetValidatorSigningInfo (info : ValidatorSigningInfo) :
    (s.SetValidatorSigningInfo address info).missedBlocks = s.missedBlocks := rfl

@[simp] theorem get?_setValidatorMissedBlockBitArray (missed : Bool) (k : ConsAddress ×ₗ ℤ) :
    (s.setValidatorMissedBlockBitArray address index missed).missedBlocks.get? k =
      if k = toLex (address, index) then some missed else s.missedBlocks.get? k := by
  simp [setValidatorMissedBlockBitArray]

@[simp] theorem chain_setValidatorMissedBlockBitArray (missed : Bool) :
    (s.setValidatorMissedBlockBitArray address index missed).chain = s.chain := rfl

/-- Clearing deletes the bits of the address and no others. -/
theorem get?_clearValidatorMissedBlockBitArray (k : ConsAddress ×ₗ ℤ) :
    (s.clearValidatorMissedBlockBitArray address).missedBlocks.get? k =
      if (ofLex k).1 = address then none else s.missedBlocks.get? k := by
  unfold clearValidatorMissedBlockBitArray
  have hframe : ∀ (m : SortedMap (ConsAddress ×ₗ ℤ) Bool) a k, k ≠ id a → (m.erase a).get? k = m.get? k :=
    fun m a k hk => SortedMap.get?_erase_ne m hk
  by_cases hk : (ofLex k).1 = address
  · rw [if_pos hk]
    by_cases hmem : k ∈ (s.missedBlocks.entries.filter fun e => (ofLex e.1).1 = address).map Prod.fst
    · -- a stored key of the address is deleted in its turn
      exact SortedMap.get?_foldl_of_mem id SortedMap.erase (fun _ _ => none)
        (fun m a => SortedMap.get?_erase_self m a) hframe
        (by rw [List.map_id]; exact s.missedBlocks.nodup_filter_keys _) hmem s.missedBlocks
    · -- a key of the address that is not stored holds nothing to delete
      rw [SortedMap.get?_foldl_of_forall_ne id SortedMap.erase hframe
        (fun a ha (heq : a = k) => hmem (heq ▸ ha))]
      cases hget : s.missedBlocks.get? k with
      | none => rfl
      | some v =>
        refine absurd ?_ hmem
        exact List.mem_map.2 ⟨(k, v), List.mem_filter.2
          ⟨(s.missedBlocks.mem_entries_iff).2 hget, by simp [hk]⟩, rfl⟩
  · rw [if_neg hk, SortedMap.get?_foldl_of_forall_ne id SortedMap.erase hframe]
    intro a ha (heq : a = k)
    obtain ⟨e, he, rfl⟩ := List.mem_map.1 ha
    exact hk (heq ▸ of_decide_eq_true (List.mem_filter.1 he).2)

@[simp] theorem chain_clearValidatorMissedBlockBitArray :
    (s.clearValidatorMissedBlockBitArray address).chain = s.chain := rfl

/-- The entries the iteration hands over with their bit set are the window's set bits. -/
theorem length_filter_IterateValidatorMissedBlockBitArray (p : LivenessParams) :
    ((s.IterateValidatorMissedBlockBitArray p address).filter (·.2)).length =
      (List.range p.SignedBlocksWindow.toNat).countP fun (index : ℕ) =>
        s.getValidatorMissedBlockBitArray address index := by
  unfold IterateValidatorMissedBlockBitArray getValidatorMissedBlockBitArray
  induction List.range p.SignedBlocksWindow.toNat with
  | nil => rfl
  | cons j l ih =>
    cases hget : s.missedBlocks.get? (toLex (address, (j : ℤ))) with
    | none => simp [hget, ih]
    | some missed => cases missed <;> simp [hget, ih]

end Store

/-! ### One call -/

section Call

variable {s} {consAddr : ConsAddress} {index : ℤ} {missed : Bool} {signInfo : ValidatorSigningInfo}

@[simp] theorem updateMissed_chain :
    (s.updateMissed consAddr index missed signInfo).1.chain = s.chain := by
  dsimp only [updateMissed]
  split_ifs <;> rfl

/-- The switch writes the bit of the call and no other. -/
theorem updateMissed_get? {k : ConsAddress ×ₗ ℤ} (hk : k ≠ toLex (consAddr, index)) :
    (s.updateMissed consAddr index missed signInfo).1.missedBlocks.get? k = s.missedBlocks.get? k := by
  dsimp only [updateMissed]
  split_ifs <;> simp [hk]

theorem updateMissed_bit :
    (s.updateMissed consAddr index missed signInfo).1.getValidatorMissedBlockBitArray consAddr
      index = missed := by
  dsimp only [updateMissed]
  -- a bit that is already the call's is not written
  cases hprev : s.getValidatorMissedBlockBitArray consAddr index <;> cases missed <;>
    simp_all [getValidatorMissedBlockBitArray, setValidatorMissedBlockBitArray]

/-- The counter follows the bit: it gains the new bit and loses the old one. -/
theorem updateMissed_counter :
    (s.updateMissed consAddr index missed signInfo).2.MissedBlocksCounter +
        (if s.getValidatorMissedBlockBitArray consAddr index then 1 else 0) =
      signInfo.MissedBlocksCounter + (if missed then 1 else 0) := by
  dsimp only [updateMissed]
  cases s.getValidatorMissedBlockBitArray consAddr index <;> cases missed <;> simp

/-- The switch changes the counter of the signing info only. -/
theorem updateMissed_info :
    (s.updateMissed consAddr index missed signInfo).2 =
      { signInfo with
        MissedBlocksCounter := (s.updateMissed consAddr index missed signInfo).2.MissedBlocksCounter } := by
  dsimp only [updateMissed]
  split_ifs <;> rfl

/-- What the downtime check can do: nothing, or reset the counter and the offset and clear
the bits of the address, with the staking state changed by the slash and the jailing. -/
theorem punishDowntime_cases {p : LivenessParams} {hdr : Header} {power : ℤ}
    {s' : Liveness} {signInfo' : ValidatorSigningInfo}
    (h : s.punishDowntime p hdr consAddr power signInfo = .ok (s', signInfo')) :
    (s' = s ∧ signInfo' = signInfo) ∨
      ((∃ staking, s' = ({ s with chain := { s.chain with staking } }).clearValidatorMissedBlockBitArray
          consAddr) ∧
        signInfo' = { signInfo with
          JailedUntil := hdr.time + p.DowntimeJailDuration
          MissedBlocksCounter := 0
          IndexOffset := 0 }) := by
  dsimp only [punishDowntime] at h
  split_ifs at h with hdown
  · split at h
    · split_ifs at h with hjail
      · -- downtime confirmed: slashed, jailed, reset
        obtain ⟨staking₁, -, h⟩ := Except.bind_eq_ok.1 h
        obtain ⟨staking, -, h⟩ := Except.bind_eq_ok.1 h
        simp only [Except.pure_eq_ok, Except.ok_inj, Prod.mk.injEq] at h
        exact .inr ⟨⟨staking, h.1.symm⟩, h.2.symm⟩
      · simp only [Except.pure_eq_ok, Except.ok_inj, Prod.mk.injEq] at h
        exact .inl ⟨h.1.symm, h.2.symm⟩
    · simp only [Except.pure_eq_ok, Except.ok_inj, Prod.mk.injEq] at h
      exact .inl ⟨h.1.symm, h.2.symm⟩
  · simp only [Except.pure_eq_ok, Except.ok_inj, Prod.mk.injEq] at h
    exact .inl ⟨h.1.symm, h.2.symm⟩

/-- The inversion of a call: it found the signing info, wrote the bit of the slot
`IndexOffset % SignedBlocksWindow`, and ran the downtime check on the counted info. -/
theorem HandleValidatorSignature_cases {p : LivenessParams} {hdr : Header} {power : ℤ}
    {signed : Bool} {s' : Liveness}
    (h : s.HandleValidatorSignature p hdr consAddr power signed = .ok s') :
    ∃ info s₂ info₂, s.chain.slashing.getValidatorSigningInfo consAddr = some info ∧
      p.SignedBlocksWindow ≠ 0 ∧
      (s.updateMissed consAddr (info.IndexOffset.tmod p.SignedBlocksWindow) (!signed)
          { info with IndexOffset := info.IndexOffset + 1 }).1.punishDowntime p hdr consAddr power
        (s.updateMissed consAddr (info.IndexOffset.tmod p.SignedBlocksWindow) (!signed)
          { info with IndexOffset := info.IndexOffset + 1 }).2 = .ok (s₂, info₂) ∧
      s' = s₂.SetValidatorSigningInfo consAddr info₂ := by
  unfold HandleValidatorSignature at h
  -- the two lookups that panic when they find nothing
  cases hpk : s.chain.slashing.getPubkey consAddr with
  | none => simp [hpk] at h
  | some _ =>
    cases hinfo : s.chain.slashing.getValidatorSigningInfo consAddr with
    | none => simp [hpk, hinfo] at h
    | some info =>
      simp only [hpk, hinfo] at h
      -- the window that Go divides by is not zero
      by_cases hW : p.SignedBlocksWindow = 0
      · simp [hW] at h
      simp only [hW, if_false] at h
      obtain ⟨⟨s₂, info₂⟩, hpun, h⟩ := Except.bind_eq_ok.1 h
      exact ⟨info, s₂, info₂, rfl, hW, hpun, (Except.ok_inj.1 h).symm⟩

end Call

/-! ### The window -/

/-- What the calls for `address` since its signing info was made or reset leave, with `hist`
their `signed` flags, oldest first: the offset counts them, the bit of each index of the
window is whether the last call in that slot missed, no bit is stored outside the window,
and the counter counts the missed slots. -/
structure WindowInv (W : ℕ) (address : ConsAddress) (hist : List Bool) (s : Liveness) : Prop where
  info : ∃ info, s.chain.slashing.getValidatorSigningInfo address = some info ∧
    info.IndexOffset = hist.length ∧
    info.MissedBlocksCounter = RingWindow.count (fun signed => !signed) W hist
  bit : ∀ j : ℕ, s.getValidatorMissedBlockBitArray address j =
    decide (RingWindow.SlotHolds (fun signed => !signed) W hist j)
  outside : ∀ j : ℤ, j < 0 ∨ W ≤ j → s.missedBlocks.get? (toLex (address, j)) = none

section Window

variable {W : ℕ} {address : ConsAddress} {p : LivenessParams}

/-- A call for another address leaves the window of `address` as it was. -/
theorem WindowInv.HandleValidatorSignature_ne {hist : List Bool} {s s' : Liveness}
    {consAddr : ConsAddress} {hdr : Header} {power : ℤ} {signed : Bool}
    (hinv : WindowInv W address hist s) (hne : consAddr ≠ address)
    (h : s.HandleValidatorSignature p hdr consAddr power signed = .ok s') :
    WindowInv W address hist s' := by
  obtain ⟨info, s₂, info₂, -, -, hpun, rfl⟩ := s.HandleValidatorSignature_cases h
  set u := s.updateMissed consAddr (info.IndexOffset.tmod p.SignedBlocksWindow) (!signed)
    { info with IndexOffset := info.IndexOffset + 1 }
  -- the keys of `address` are not the one the call writes, nor under the one it clears
  have hkey : ∀ j : ℤ, toLex (address, j) ≠ toLex (consAddr, info.IndexOffset.tmod p.SignedBlocksWindow) :=
    fun j heq => hne (congrArg Prod.fst (toLex.injective heq)).symm
  have hget : ∀ j : ℤ, s₂.missedBlocks.get? (toLex (address, j)) = s.missedBlocks.get? (toLex (address, j)) := by
    intro j
    rcases punishDowntime_cases hpun with ⟨rfl, -⟩ | ⟨⟨staking, rfl⟩, -⟩
    · exact updateMissed_get? (hkey j)
    · rw [get?_clearValidatorMissedBlockBitArray, ofLex_toLex, if_neg (Ne.symm hne)]
      exact updateMissed_get? (hkey j)
  have hsigning : s₂.chain.slashing = s.chain.slashing := by
    rcases punishDowntime_cases hpun with ⟨rfl, -⟩ | ⟨⟨staking, rfl⟩, -⟩
    · exact congrArg Chain.slashing updateMissed_chain
    · simp [u]
  obtain ⟨info₀, hinfo₀, hoff, hcnt⟩ := hinv.info
  refine ⟨⟨info₀, ?_, hoff, hcnt⟩, fun j => ?_, fun j hj => ?_⟩
  · rw [getValidatorSigningInfo_SetValidatorSigningInfo, if_neg (Ne.symm hne), hsigning, hinfo₀]
  · rw [← hinv.bit j]
    simp only [getValidatorMissedBlockBitArray, missedBlocks_SetValidatorSigningInfo, hget]
  · rw [missedBlocks_SetValidatorSigningInfo, hget]
    exact hinv.outside j hj

/-- The bits after the switch, for a call in slot `hist.length % W`: the history with the
call's flag. -/
theorem WindowInv.bit_updateMissed {hist : List Bool} {s : Liveness} {signed : Bool}
    {info : ValidatorSigningInfo} (hW : 0 < W) (hinv : WindowInv W address hist s) (j : ℕ) :
    (s.updateMissed address ((hist.length % W : ℕ) : ℤ) (!signed) info).1.getValidatorMissedBlockBitArray
        address j = decide (RingWindow.SlotHolds (fun signed => !signed) W (hist ++ [signed]) j) := by
  by_cases hj : j = hist.length % W
  · -- the slot of the call holds the call
    subst hj
    simp [updateMissed_bit, RingWindow.SlotHolds_append_singleton hW]
  · have hk : toLex (address, (j : ℤ)) ≠ toLex (address, ((hist.length % W : ℕ) : ℤ)) :=
      fun heq => hj (by exact_mod_cast (Prod.mk.inj (toLex.injective heq)).2)
    simp only [getValidatorMissedBlockBitArray, updateMissed_get? hk,
      RingWindow.SlotHolds_append_singleton hW, if_neg hj]
    exact hinv.bit j

/-- The step lemma: a call for `address` keeps the window, with its flag appended, or
resets it. -/
theorem WindowInv.HandleValidatorSignature {hist : List Bool} {s s' : Liveness} {hdr : Header}
    {power : ℤ} {signed : Bool} (hwin : p.SignedBlocksWindow = W) (hW : 0 < W)
    (hinv : WindowInv W address hist s)
    (h : s.HandleValidatorSignature p hdr address power signed = .ok s') :
    WindowInv W address (hist ++ [signed]) s' ∨ WindowInv W address [] s' := by
  obtain ⟨info, hinfo, hoff, hcnt⟩ := hinv.info
  obtain ⟨info', s₂, info₂, hinfo', -, hpun, rfl⟩ := s.HandleValidatorSignature_cases h
  have hi : info' = info := Option.some_injective _ (hinfo'.symm.trans hinfo)
  rw [hi] at hpun
  -- the slot of the call is the length of the history modulo the window
  have hindex : info.IndexOffset.tmod p.SignedBlocksWindow = ((hist.length % W : ℕ) : ℤ) := by
    rw [hoff, hwin]
    rfl
  rw [hindex] at hpun
  set u := s.updateMissed address ((hist.length % W : ℕ) : ℤ) (!signed)
    { info with IndexOffset := info.IndexOffset + 1 } with hu
  have hslot : ((hist.length % W : ℕ) : ℤ) < W := by exact_mod_cast Nat.mod_lt _ hW
  rcases punishDowntime_cases hpun with ⟨rfl, rfl⟩ | ⟨⟨staking, rfl⟩, rfl⟩
  · -- no reset: the call's flag joins the history
    left
    refine ⟨⟨u.2, by simp, ?_, ?_⟩, fun j => ?_, fun j hj => ?_⟩
    · rw [updateMissed_info]
      simp [hoff]
    · -- the counter and the count both gain the call's miss and lose what its slot held
      have hc : u.2.MissedBlocksCounter +
          (if s.getValidatorMissedBlockBitArray address ((hist.length % W : ℕ) : ℤ) then 1 else 0) =
          info.MissedBlocksCounter + (if !signed then 1 else 0) := updateMissed_counter
      have hr := congrArg (Nat.cast : ℕ → ℤ)
        (RingWindow.count_append_singleton (p := fun signed => !signed) hW hist signed)
      rw [hinv.bit] at hc
      push_cast at hr
      simp only [decide_eq_true_eq] at hc
      omega
    · exact hinv.bit_updateMissed hW j
    · rw [missedBlocks_SetValidatorSigningInfo,
        updateMissed_get? fun heq => by have := congrArg Prod.snd (toLex.injective heq); simp at this; omega]
      exact hinv.outside j hj
  · -- downtime: the counter, the offset and the bits start over
    right
    refine ⟨⟨_, (getValidatorSigningInfo_SetValidatorSigningInfo _ _ _ _).trans (if_pos rfl), rfl,
      by simp [RingWindow.count, RingWindow.not_SlotHolds_nil]⟩, fun j => ?_, fun j _ => ?_⟩
    · simp [getValidatorMissedBlockBitArray, get?_clearValidatorMissedBlockBitArray,
        RingWindow.not_SlotHolds_nil]
    · simp [get?_clearValidatorMissedBlockBitArray]

/-- The run lemma: calls for `address` from a fresh window leave in it the flags of the calls
since the last reset, which are the last of all the calls' flags. -/
theorem WindowInv.handleSignatures {s s' : Liveness} (hwin : p.SignedBlocksWindow = W)
    (hW : 0 < W) (hinv : WindowInv W address [] s) (calls : List (Header × ℤ × Bool))
    (h : s.handleSignatures p address calls = .ok s') :
    ∃ hist, hist <:+ calls.map (·.2.2) ∧ WindowInv W address hist s' := by
  have hrun := Except.foldlM_invariant_done
    (fun (done : List (Header × ℤ × Bool)) s => ∃ hist, hist <:+ done.map (·.2.2) ∧ WindowInv W address hist s)
    (fun done c s₁ s₂ ⟨hist, hsuf, hinv₁⟩ hstep => by
      rcases hinv₁.HandleValidatorSignature hwin hW hstep with hnext | hreset
      · obtain ⟨t, ht⟩ := hsuf
        exact ⟨hist ++ [c.2.2], ⟨t, by simp [← ht]⟩, hnext⟩
      · exact ⟨[], List.nil_suffix, hreset⟩)
    [] calls s s' ⟨[], List.nil_suffix, hinv⟩ h
  simpa using hrun

/-- A signing info just made or reset, with no bit stored, is an empty window. -/
theorem windowInv_nil {s : Liveness} {info : ValidatorSigningInfo}
    (hinfo : s.chain.slashing.getValidatorSigningInfo address = some info)
    (hoff : info.IndexOffset = 0) (hcnt : info.MissedBlocksCounter = 0)
    (hbits : ∀ j, s.missedBlocks.get? (toLex (address, j)) = none) :
    WindowInv W address [] s where
  info := ⟨info, hinfo, by simp [hoff], by simp [hcnt, RingWindow.count, RingWindow.not_SlotHolds_nil]⟩
  bit j := by simp [getValidatorMissedBlockBitArray, hbits, RingWindow.not_SlotHolds_nil]
  outside j _ := hbits j

/-- The bits of the window that are set are as many as the slots the history holds a miss
in. -/
theorem WindowInv.count_bits {hist : List Bool} {s : Liveness} (hwin : p.SignedBlocksWindow = W)
    (hinv : WindowInv W address hist s) :
    ((s.IterateValidatorMissedBlockBitArray p address).filter (·.2)).length =
      RingWindow.count (fun signed => !signed) W hist := by
  rw [length_filter_IterateValidatorMissedBlockBitArray, hwin, Int.toNat_natCast]
  exact List.countP_congr fun j _ => by rw [hinv.bit j]

end Window

end Liveness

end CosmosSdk.Slashing
