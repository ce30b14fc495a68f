import CosmosSdk.Staking.Handler

/-!
# `x/slashing`

The slashing keeper's store: a signing info per consensus address (`signing_info.go`) and
the relation from a consensus address to its public key (`keeper.go`).  The store is
written by the hooks the staking keeper calls (`hooks.go`), by `HandleDoubleSign`, which
slashes, jails and tombstones a validator for evidence of a double sign, and read by
`handleMsgUnjail`, which refuses a tombstoned validator.

The slashing keeper works on the staking keeper's state too, through `Slash`, `Jail`,
`Unjail` and its getters: its calls take both states (`Chain`).  The liveness tracking of
`HandleValidatorSignature` and the missed-block bit array are in `Slashing.Liveness`.
-/

namespace CosmosSdk.Slashing

/-- `ValidatorSigningInfo`. -/
structure ValidatorSigningInfo where
  Address : ConsAddress
  StartHeight : ℤ
  IndexOffset : ℤ
  JailedUntil : Time
  Tombstoned : Bool
  MissedBlocksCounter : ℤ
  deriving DecidableEq, Repr

/-- The parameters `HandleDoubleSign` reads. -/
structure Params where
  MaxEvidenceAge : Duration
  SlashFractionDoubleSign : Dec
  deriving DecidableEq, Repr

/-- `DefaultParams`: evidence two minutes old at most, and a slash of `1/20`. -/
def DefaultParams : Params where
  MaxEvidenceAge := 60 * 2 * 10 ^ 9
  SlashFractionDoubleSign := ⟨5 * 10 ^ 16⟩

/-- `DoubleSignJailEndTime`: `time.Unix(253402300799, 0)`, the end of year 9999. -/
def DoubleSignJailEndTime : Time := 253402300799 * 10 ^ 9

/-- `sdk.ValidatorUpdateDelay`. -/
def ValidatorUpdateDelay : ℤ := 1

/-- The slashing store. -/
structure State where
  params : Params
  signingInfos : SortedMap ConsAddress ValidatorSigningInfo
  addrPubkeyRelation : SortedMap Bytes PubKey

/-- The errors of the slashing keeper, by the name of their constructor. -/
inductive Err
  | noValidatorForAddress
  | badValidatorAddr
  | validatorJailed
  | validatorNotJailed
  | missingSelfDelegation
  | selfDelegationTooLowToUnjail
  deriving DecidableEq, Repr

/-- How a call of the slashing keeper that does not return ends: a panic of its own, a fault
of a staking call, or an error result. -/
inductive Fault
  | panic (msg : String)
  | staking (f : Staking.Fault)
  | err (e : Err)
  deriving DecidableEq, Repr

/-- A staking call inside a slashing call. -/
def liftStaking {α : Type} (x : Except Staking.Fault α) : Except Fault α :=
  x.mapError Fault.staking

@[simp] theorem liftStaking_ok {α : Type} (a : α) : liftStaking (.ok a) = .ok a := rfl

namespace State

variable (s : State)

/-- `getValidatorSigningInfo`. -/
def getValidatorSigningInfo (address : ConsAddress) : Option ValidatorSigningInfo :=
  s.signingInfos.get? address

/-- `SetValidatorSigningInfo`. -/
def SetValidatorSigningInfo (address : ConsAddress) (info : ValidatorSigningInfo) : State :=
  { s with signingInfos := s.signingInfos.insert address info }

/-- `getPubkey`: the key of a consensus address, if it was added. -/
def getPubkey (address : Bytes) : Option PubKey := s.addrPubkeyRelation.get? address

/-- `addPubkey`. -/
def addPubkey (pubkey : PubKey) : State :=
  { s with addrPubkeyRelation := s.addrPubkeyRelation.insert pubkey.address pubkey }

/-- `deleteAddrPubkeyRelation`. -/
def deleteAddrPubkeyRelation (addr : Bytes) : State :=
  { s with addrPubkeyRelation := s.addrPubkeyRelation.erase addr }

@[simp] theorem getValidatorSigningInfo_SetValidatorSigningInfo (a a' : ConsAddress)
    (info : ValidatorSigningInfo) :
    (s.SetValidatorSigningInfo a info).getValidatorSigningInfo a' =
      if a' = a then some info else s.getValidatorSigningInfo a' := by
  simp [getValidatorSigningInfo, SetValidatorSigningInfo]

@[simp] theorem getValidatorSigningInfo_addPubkey (pubkey : PubKey) (a : ConsAddress) :
    (s.addPubkey pubkey).getValidatorSigningInfo a = s.getValidatorSigningInfo a := rfl

@[simp] theorem getValidatorSigningInfo_deleteAddrPubkeyRelation (addr : Bytes) (a : ConsAddress) :
    (s.deleteAddrPubkeyRelation addr).getValidatorSigningInfo a = s.getValidatorSigningInfo a :=
  rfl

/-! ### The hooks of the staking keeper -/

/-- `AfterValidatorBonded`: a signing info from this height, unless the address has one. -/
def AfterValidatorBonded (hdr : Header) (address : ConsAddress) : State :=
  match s.getValidatorSigningInfo address with
  | some _ => s
  | none => s.SetValidatorSigningInfo address ⟨address, hdr.height, 0, 0, false, 0⟩

/-- `AfterValidatorCreated`, given the record the staking keeper reads back: its key. -/
def AfterValidatorCreated (validator : Staking.Validator) : State :=
  s.addPubkey validator.consPubKey

/-- `AfterValidatorRemoved`: the key of the address is forgotten, its signing info kept. -/
def AfterValidatorRemoved (address : ConsAddress) : State :=
  s.deleteAddrPubkeyRelation address

/-- A hook leaves a tombstone where it is: a signing info is created only where there is
none, and the other hooks do not write signing infos. -/
theorem getValidatorSigningInfo_AfterValidatorBonded (hdr : Header) (address a : ConsAddress)
    {info : ValidatorSigningInfo} (h : s.getValidatorSigningInfo a = some info) :
    (s.AfterValidatorBonded hdr address).getValidatorSigningInfo a = some info := by
  unfold AfterValidatorBonded
  split
  · exact h
  · rename_i hnone
    have hne : a ≠ address := by
      rintro rfl
      rw [h] at hnone
      cases hnone
    simp [hne, h]

end State

/-! ### Calls on both modules' states -/

/-- The states of the staking and slashing keepers. -/
structure Chain where
  staking : Staking.State
  slashing : State

namespace Chain

variable (c : Chain) (hdr : Header)

/-- `HandleDoubleSign(addr, infractionHeight, timestamp, power)`: evidence of an unknown key,
too old, of a validator that is gone or unbonded, or of a tombstoned one is ignored;
otherwise the validator is slashed at the height of the stake that signed, jailed, and
tombstoned. -/
def HandleDoubleSign (addr : ConsAddress) (infractionHeight : ℤ) (timestamp : Time)
    (power : ℤ) : Except Fault Chain :=
  let age := hdr.time - timestamp
  match c.slashing.getPubkey addr with
  -- evidence that cannot be handled is ignored
  | none => pure c
  | some _ =>
    if age > c.slashing.params.MaxEvidenceAge then pure c
    else match c.staking.GetValidatorByConsAddr addr with
      | none => pure c
      | some validator =>
        if validator.IsUnbonded then pure c
        else match c.slashing.getValidatorSigningInfo addr with
          | none => throw (.panic "Expected signing info for validator %s but not found")
          | some signInfo =>
            if signInfo.Tombstoned then pure c
            else do
              let distributionHeight := infractionHeight - ValidatorUpdateDelay
              let fraction := c.slashing.params.SlashFractionDoubleSign
              let staking ← liftStaking (c.staking.Slash hdr addr distributionHeight power fraction)
              let staking ← if !validator.jailed then liftStaking (staking.Jail addr) else pure staking
              let signInfo := { signInfo with Tombstoned := true, JailedUntil := DoubleSignJailEndTime }
              pure ⟨staking, c.slashing.SetValidatorSigningInfo addr signInfo⟩

/-- Evidence against a tombstoned address changes nothing. -/
theorem HandleDoubleSign_of_Tombstoned {addr : ConsAddress} {info : ValidatorSigningInfo}
    (hinfo : c.slashing.getValidatorSigningInfo addr = some info) (ht : info.Tombstoned = true)
    (infractionHeight : ℤ) (timestamp : Time) (power : ℤ) :
    c.HandleDoubleSign hdr addr infractionHeight timestamp power = .ok c := by
  unfold HandleDoubleSign
  -- the signing info is read last: every branch returns the state as it was
  simp only [hinfo, ht, if_true, ite_self]
  split
  · rfl
  · split_ifs
    · rfl
    · split <;> rfl

/-- `MsgUnjail`. -/
structure MsgUnjail where
  ValidatorAddr : ValAddress
  deriving DecidableEq, Repr

/-- `MsgUnjail.ValidateBasic`. -/
def MsgUnjail.ValidateBasic (msg : MsgUnjail) : Except Err Unit :=
  if msg.ValidatorAddr.isEmpty then throw .badValidatorAddr else pure ()

/-- `handleMsgUnjail`: a jailed validator whose self-delegation is worth its minimum, whose
signing info is not tombstoned and whose jail time is over is unjailed. -/
def handleMsgUnjail (msg : MsgUnjail) : Except Fault Chain := do
  let some validator := c.staking.GetValidator msg.ValidatorAddr
    | throw (.err .noValidatorForAddress)
  -- cannot be unjailed if no self-delegation exists
  let some selfDel := c.staking.GetDelegation msg.ValidatorAddr msg.ValidatorAddr
    | throw (.err .missingSelfDelegation)
  let tokens ← liftStaking (validator.TokensFromShares selfDel.shares)
  if tokens.truncateInt < validator.minSelfDelegation then
    throw (.err .selfDelegationTooLowToUnjail)
  if !validator.jailed then throw (.err .validatorNotJailed)
  let consAddr := validator.consPubKey.address
  let some info := c.slashing.getValidatorSigningInfo consAddr
    | throw (.err .noValidatorForAddress)
  if info.Tombstoned then throw (.err .validatorJailed)
  if hdr.time < info.JailedUntil then throw (.err .validatorJailed)
  let staking ← liftStaking (c.staking.Unjail consAddr)
  pure { c with staking }

end Chain

end CosmosSdk.Slashing
