import CosmosSdk.Slashing.Keeper
import CosmosSdk.Staking.SupplySafety
import CosmosSdk.Lib.Transition

/-!
# Staking with slashing

The staking keeper calls the slashing keeper's hooks: `AfterValidatorCreated` from
`handleMsgCreateValidator`, `AfterValidatorBonded` from `bondValidator`, and
`AfterValidatorRemoved` from `RemoveValidator`.  A hook writes the slashing store only,
which the staking keeper never reads, so the model runs a staking call on the staking state
and then the hooks it called (`runHooks`): one for each validator the call created, bonded
or removed.  No call does two of these, and each hook touches its own address only.

A chain step is a staking message or a part of the end blocker, a `MsgUnjail`, or evidence
of a double sign; the slashing module's calls `Slash`, `Jail` and `Unjail` reach the
staking keeper only through the last two.

`HandleDoubleSign` tombstones a consensus address, and no step clears a tombstone
(`Tombstoned_of_run`).  The staking side does not look at it: once the tombstoned validator
has unbonded and its delegations are withdrawn, `RemoveValidator` frees its consensus key,
a new validator can be created with the same key and bonded, and evidence against the key
is then ignored (`tombstonedKey_rebonds`).
-/

namespace CosmosSdk.Slashing

/-- The staking keeper's calls that only the slashing module makes. -/
def slashingCall : Staking.Action → Bool
  | .slash .. => true
  | .jail _ => true
  | .unjail _ => true
  | _ => false

namespace Chain

/-- The hooks a staking call from `sk` to `sk'` made, run on the slashing store: for each
validator it created, `AfterValidatorCreated`; for each validator it bonded,
`AfterValidatorBonded`; for each validator it removed, `AfterValidatorRemoved` with the
removed record's address. -/
def runHooks (hdr : Header) (sk sk' : Staking.State) (s : State) : State :=
  let created := sk'.validators.entries.filter fun e => (sk.validators.get? e.1).isNone
  let bonded := sk'.validators.entries.filter fun e =>
    e.2.IsBonded && !((sk.validators.get? e.1).map Staking.Validator.IsBonded).getD false
  let removed := sk.validators.entries.filter fun e => (sk'.validators.get? e.1).isNone
  let s := created.foldl (fun s e => s.AfterValidatorCreated e.2) s
  let s := bonded.foldl (fun s e => s.AfterValidatorBonded hdr e.2.ConsAddress) s
  removed.foldl (fun s e => s.AfterValidatorRemoved e.2.ConsAddress) s

/-- What can happen to the two stores: a staking message or a part of the end blocker,
a `MsgUnjail`, or evidence of a double sign from the block's header. -/
inductive Action
  | staking (a : Staking.Action)
  | unjail (msg : MsgUnjail)
  | doubleSign (addr : ConsAddress) (infractionHeight : ℤ) (timestamp : Time) (power : ℤ)

/-- An action the node lets happen: staking's own actions, as the staking machine admits
them, and a `MsgUnjail` that passed `ValidateBasic`, signed by its validator's operator. -/
def Action.Admitted : Action → Prop
  | .staking a => a.Admitted ∧ slashingCall a = false
  | .unjail msg => msg.ValidateBasic = .ok () ∧ msg.ValidatorAddr.length = Staking.AddrLen
  | .doubleSign .. => True

/-- Running an action at a block with header `hdr`. -/
def Action.run (c : Chain) (hdr : Header) : Action → Except Fault Chain
  | .staking a => do
    let staking ← liftStaking (a.run c.staking hdr)
    pure ⟨staking, runHooks hdr c.staking staking c.slashing⟩
  | .unjail msg => c.handleMsgUnjail hdr msg
  | .doubleSign addr infractionHeight timestamp power =>
    c.HandleDoubleSign hdr addr infractionHeight timestamp power

/-- One step of the chain. -/
def Step (c c' : Chain) : Prop :=
  ∃ hdr a, Action.Admitted a ∧ a.run c hdr = .ok c'

/-- Actions run one after another, each at its own block. -/
def runActions (c : Chain) : List (Header × Action) → Except Fault Chain
  | [] => pure c
  | (hdr, a) :: rest => do runActions (← a.run c hdr) rest

/-- Admitted actions that run one after another make a run. -/
theorem run_of_runActions : ∀ (l : List (Header × Action)) {c c' : Chain},
    (∀ p ∈ l, p.2.Admitted) → runActions c l = .ok c' → Relation.ReflTransGen Step c c'
  | [], _, _, _, h => by
    rw [runActions, Except.pure_eq_ok, Except.ok_inj] at h
    rw [h]
  | (hdr, a) :: rest, _, _, hadm, h => by
    obtain ⟨c₁, h₁, h⟩ := Except.bind_eq_ok.mp h
    exact .head ⟨hdr, a, hadm _ List.mem_cons_self, h₁⟩
      (run_of_runActions rest (fun p hp => hadm p (List.mem_cons_of_mem _ hp)) h)

/-- A consensus address whose signing info is tombstoned. -/
def Tombstoned (c : Chain) (addr : ConsAddress) : Prop :=
  ∃ info, c.slashing.getValidatorSigningInfo addr = some info ∧ info.Tombstoned = true

/-! ### Signing infos along a run -/

/-- The hooks keep every signing info there is. -/
theorem getValidatorSigningInfo_runHooks (hdr : Header) (sk sk' : Staking.State) {s : State}
    {a : ConsAddress} {info : ValidatorSigningInfo} (h : s.getValidatorSigningInfo a = some info) :
    (runHooks hdr sk sk' s).getValidatorSigningInfo a = some info := by
  let P : State → Prop := fun s => s.getValidatorSigningInfo a = some info
  -- each of the three loops keeps the signing info
  have hcreated := Transition.foldl_invariant P (fun s e => s.AfterValidatorCreated e.2)
    (sk'.validators.entries.filter fun e => (sk.validators.get? e.1).isNone)
    (fun s _ _ hs => hs) s h
  have hbonded := Transition.foldl_invariant P (fun s e => s.AfterValidatorBonded hdr e.2.ConsAddress)
    (sk'.validators.entries.filter fun e =>
      e.2.IsBonded && !((sk.validators.get? e.1).map Staking.Validator.IsBonded).getD false)
    (fun s e _ hs => s.getValidatorSigningInfo_AfterValidatorBonded hdr _ a hs) _ hcreated
  exact Transition.foldl_invariant P (fun s e => s.AfterValidatorRemoved e.2.ConsAddress)
    (sk.validators.entries.filter fun e => (sk'.validators.get? e.1).isNone)
    (fun s _ _ hs => hs) _ hbonded

variable {c c' : Chain} {hdr : Header}

/-- `handleMsgUnjail` writes the staking store only. -/
theorem handleMsgUnjail_slashing {msg : MsgUnjail} (h : c.handleMsgUnjail hdr msg = .ok c') :
    c'.slashing = c.slashing := by
  unfold handleMsgUnjail at h
  -- every check fails with an error result, and the last step replaces the staking store
  split at h
  · split at h
    · obtain ⟨tokens, -, h⟩ := Except.bind_eq_ok.mp h
      simp only [Except.throw_eq_error, Except.error_bind, Except.ite_error_eq_ok] at h
      obtain ⟨-, -, h⟩ := h
      split at h
      · simp only [Except.ite_error_eq_ok] at h
        obtain ⟨-, -, h⟩ := h
        obtain ⟨staking, -, h⟩ := Except.bind_eq_ok.mp h
        rw [← Except.ok.inj h]
      · simp at h
    · simp at h
  · simp at h

/-- `HandleDoubleSign` leaves the slashing store as it was, or tombstones the signing info of
the address. -/
theorem HandleDoubleSign_slashing {addr : ConsAddress} {ih : ℤ} {ts : Time} {power : ℤ}
    (h : c.HandleDoubleSign hdr addr ih ts power = .ok c') :
    c'.slashing = c.slashing ∨
      ∃ info, c'.slashing = c.slashing.SetValidatorSigningInfo addr info ∧ info.Tombstoned = true := by
  unfold HandleDoubleSign at h
  dsimp only at h
  -- every branch before the tombstone returns the state as it was
  split at h
  · exact .inl (by rw [← Except.ok.inj h])
  split at h
  · exact .inl (by rw [← Except.ok.inj h])
  split at h
  · exact .inl (by rw [← Except.ok.inj h])
  split at h
  · exact .inl (by rw [← Except.ok.inj h])
  split at h
  · simp at h
  rename_i signInfo _
  split at h
  · exact .inl (by rw [← Except.ok.inj h])
  -- the tombstone is written after the staking calls, whether the validator is jailed or not
  obtain ⟨staking, -, h⟩ := Except.bind_eq_ok.mp h
  refine .inr ⟨{ signInfo with Tombstoned := true, JailedUntil := DoubleSignJailEndTime }, ?_, rfl⟩
  split at h
  · obtain ⟨staking', -, h⟩ := Except.bind_eq_ok.mp h
    rw [← Except.ok.inj h]
  · rw [← Except.ok.inj h]

/-- The step lemma: no step clears a tombstone. -/
theorem Step_Tombstoned {addr : ConsAddress} (ht : c.Tombstoned addr) (h : Step c c') :
    c'.Tombstoned addr := by
  obtain ⟨info, hinfo, htomb⟩ := ht
  obtain ⟨hdr, a, -, h⟩ := h
  cases a with
  | staking a =>
    obtain ⟨staking, -, h⟩ := Except.bind_eq_ok.mp h
    rw [← Except.ok.inj h]
    exact ⟨info, getValidatorSigningInfo_runHooks hdr _ _ hinfo, htomb⟩
  | unjail msg =>
    rw [Tombstoned, handleMsgUnjail_slashing h]
    exact ⟨info, hinfo, htomb⟩
  | doubleSign addr' ih ts power =>
    rcases HandleDoubleSign_slashing h with hs | ⟨info', hs, htomb'⟩
    · rw [Tombstoned, hs]
      exact ⟨info, hinfo, htomb⟩
    · rw [Tombstoned, hs]
      by_cases ha : addr = addr'
      · exact ⟨info', by simp [ha], htomb'⟩
      · exact ⟨info, by simp [ha, hinfo], htomb⟩

/-- The run lemma: a tombstone stays along every run. -/
theorem Tombstoned_of_run {addr : ConsAddress} (ht : c.Tombstoned addr)
    (hrun : Relation.ReflTransGen Step c c') : c'.Tombstoned addr :=
  Transition.invariant (fun c : Chain => c.Tombstoned addr) (fun _ _ ht h => Step_Tombstoned ht h)
    hrun ht

/-- From a genesis funding `A` and `B`, `A` creates a validator with the key `key` and a
self-bond of power 10, which bonds; evidence of a double sign slashes and jails it and
tombstones the key; it unbonds, and `A` withdraws its delegation, which removes it.  `B`
then creates a validator with the same key, which bonds with power 10, and evidence against
the key leaves the chain as it is, whenever it comes. -/
theorem tombstonedKey_rebonds :
    let A : AccAddress := List.replicate Staking.AddrLen 4
    let B : AccAddress := List.replicate Staking.AddrLen 5
    let key : PubKey := ⟨[7], [8]⟩
    let genesis : Chain := ⟨Staking.fundedGenesis ⟨0, 1, 7, "stake"⟩
      (((∅ : SortedMap AccAddress ℤ).insert A 100000000).insert B 100000000), ⟨DefaultParams, ∅, ∅⟩⟩
    ∃ c₁ c₂, Relation.ReflTransGen Step genesis c₁ ∧ c₁.Tombstoned key.address ∧
      Relation.ReflTransGen Step c₁ c₂ ∧
      ∃ v, c₂.staking.GetValidatorByConsAddr key.address = some v ∧ v.status = .bonded ∧
        c₂.staking.lastValidatorPower.get? v.operatorAddress = some 10 ∧
        ∀ hdr infractionHeight timestamp power,
          (Action.doubleSign key.address infractionHeight timestamp power).run c₂ hdr = .ok c₂ := by
  -- the names are unfolded, so that the runs below evaluate
  dsimp only
  -- the first validator bonds and is tombstoned for a double sign; it unbonds and is removed
  -- with its delegation, and `B` bonds a validator with the same key
  obtain ⟨c₁, c₂, hrun₁, hrun₂, ht₁, v, hv, hbonded, hpower⟩ : ∃ c₁ c₂,
      runActions ⟨Staking.fundedGenesis ⟨0, 1, 7, "stake"⟩
        (((∅ : SortedMap AccAddress ℤ).insert (List.replicate Staking.AddrLen 4) 100000000).insert
          (List.replicate Staking.AddrLen 5) 100000000), ⟨DefaultParams, ∅, ∅⟩⟩
        [(⟨1, 1000000000⟩, .staking (.createValidator ⟨List.replicate Staking.AddrLen 4,
            List.replicate Staking.AddrLen 4, ⟨[7], [8]⟩, ⟨"stake", 10000000⟩, 1⟩)),
         (⟨1, 1000000000⟩, .staking .applyAndReturnValidatorSetUpdates),
         (⟨2, 2000000000⟩, .doubleSign [8] 2 2000000000 10)] = .ok c₁ ∧
      runActions c₁
        [(⟨2, 2000000000⟩, .staking .applyAndReturnValidatorSetUpdates),
         (⟨3, 3000000000⟩, .staking .unbondAllMatureValidatorQueue),
         (⟨3, 3000000000⟩, .staking (.undelegate ⟨List.replicate Staking.AddrLen 4,
            List.replicate Staking.AddrLen 4, ⟨"stake", 9500000⟩⟩)),
         (⟨4, 4000000000⟩, .staking (.createValidator ⟨List.replicate Staking.AddrLen 5,
            List.replicate Staking.AddrLen 5, ⟨[7], [8]⟩, ⟨"stake", 10000000⟩, 1⟩)),
         (⟨4, 4000000000⟩, .staking .applyAndReturnValidatorSetUpdates)] = .ok c₂ ∧
      c₁.Tombstoned [8] ∧
      ∃ v, c₂.staking.GetValidatorByConsAddr [8] = some v ∧ v.status = .bonded ∧
        c₂.staking.lastValidatorPower.get? v.operatorAddress = some 10 :=
    ⟨_, _, rfl, rfl, ⟨_, rfl, rfl⟩, _, rfl, rfl, rfl⟩
  have h₂ := run_of_runActions _ (by
    simp only [List.forall_mem_cons, List.not_mem_nil, IsEmpty.forall_iff, implies_true, and_true]
    exact ⟨⟨trivial, rfl⟩, ⟨trivial, rfl⟩, ⟨⟨rfl, by decide⟩, rfl⟩, ⟨⟨rfl, by decide⟩, rfl⟩,
      ⟨trivial, rfl⟩⟩) hrun₂
  refine ⟨c₁, c₂, run_of_runActions _ ?_ hrun₁, ht₁, h₂, v, hv, hbonded, hpower, ?_⟩
  · simp only [List.forall_mem_cons, List.not_mem_nil, IsEmpty.forall_iff, implies_true, and_true]
    exact ⟨⟨⟨rfl, by decide⟩, rfl⟩, ⟨trivial, rfl⟩, trivial⟩
  -- the tombstone stays along the run, and the evidence handler stops at it
  obtain ⟨info, hinfo, ht⟩ := Tombstoned_of_run ht₁ h₂
  exact fun hdr ih ts power => HandleDoubleSign_of_Tombstoned _ hdr hinfo ht ih ts power

end Chain

end CosmosSdk.Slashing
