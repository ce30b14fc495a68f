import CosmosSdk.Store.Prefix
import CosmosSdk.Lib.Outcome

/-!
# `x/params`

The parameter store of the modules (`subspace/subspace.go`, `subspace/table.go`) and the
handler of parameter-change proposals (`proposal_handler.go`).

A `Subspace` reads and writes the parameter store under the prefix `name/`, and marks each key
it writes in the transient store of the block.  Its `KeyTable` gives the type of each key;
`RegisterType` admits only nonempty alphanumeric keys, which the table carries
(`KeyTable.alphaNumeric`).  Values go through amino's JSON codec, which the model takes as a
parameter (`Codec`), with the laws of `Codec.Lawful` where a result needs them.

* `Update_law`: `Update(key, value)` of a registered key returns exactly when the value
  decodes, into the value already stored, and then `Get` reads the decoded value back and
  `Modified` reports the key;
* `SetWithSubkey_law`: `SetWithSubkey` stores a value of the key's type under
  `concatKeys(key, subkey)`, from where `GetWithSubkey` reads it;
* `UpdateWithSubkey` looks the type up under `concatKeys(key, subkey)`, which holds a `/` and
  is therefore never registered: it fails for every key, subkey and value, and every
  parameter-change proposal with a subkey fails with it
  (`handleParameterChangeProposal_subkey`).
-/

namespace CosmosSdk.Params

open CosmosSdk.Store CosmosSdk.Prefix

/-- `[]byte(s)`: the UTF-8 encoding of the characters of a Go string. -/
def bytesOf (s : String) : Bytes := s.toList.flatMap String.utf8EncodeChar

/-- `'/'`. -/
def slash : UInt8 := 47

/-- How a call ends that does not return: a panic, or an error it returns. -/
inductive Fault (ε : Type)
  | panic (msg : String)
  | err (e : ε)
  deriving DecidableEq, Repr

/-! ### The key table -/

/-- `isAlphaNumeric`. -/
def isAlphaNumeric (key : Bytes) : Bool :=
  key.all fun b => (48 ≤ b && b ≤ 57) || (65 ≤ b && b ≤ 90) || (97 ≤ b && b ≤ 122)

/-- `KeyTable`: the registered type of each key.  The map is private to the package and only
`RegisterType` adds to it, so every key is alphanumeric. -/
structure KeyTable (τ : Type) where
  m : SortedMap Bytes τ
  alphaNumeric : ∀ key ty, m.get? key = some ty → isAlphaNumeric key = true

namespace KeyTable

variable {τ : Type}

/-- The table of `NewKeyTable()`, with no key. -/
def empty : KeyTable τ := ⟨∅, fun _ _ h => by simp at h⟩

theorem alphaNumeric_insert (t : KeyTable τ) {key : Bytes} (hkey : isAlphaNumeric key = true)
    (ty : τ) : ∀ k ty', (t.m.insert key ty).get? k = some ty' → isAlphaNumeric k = true := by
  intro k ty' hk
  rw [SortedMap.get?_insert] at hk
  split_ifs at hk with heq
  · exact heq ▸ hkey
  · exact t.alphaNumeric k ty' hk

/-- `RegisterType`. -/
def RegisterType (t : KeyTable τ) (key : Bytes) (ty : τ) : Except Panic (KeyTable τ) :=
  if key.length = 0 then throw ⟨"cannot register empty key"⟩
  else if hkey : isAlphaNumeric key = true then
    if (t.m.get? key).isSome then throw ⟨"duplicate parameter key"⟩
    else pure ⟨t.m.insert key ty, t.alphaNumeric_insert hkey ty⟩
  else throw ⟨"non alphanumeric parameter key"⟩

/-- `NewKeyTable`, on the pairs of its arguments. -/
def NewKeyTable (keytypes : List (Bytes × τ)) : Except Panic (KeyTable τ) :=
  keytypes.foldlM (fun t kt => t.RegisterType kt.1 kt.2) empty

end KeyTable

/-- A key that holds a `/` is registered in no table. -/
theorem KeyTable.get?_eq_none_of_slash {τ : Type} (t : KeyTable τ) {key : Bytes}
    (h : slash ∈ key) : t.m.get? key = none := by
  cases hk : t.m.get? key with
  | none => rfl
  | some ty =>
    have halpha := t.alphaNumeric key ty hk
    simp only [isAlphaNumeric, List.all_eq_true] at halpha
    exact absurd (halpha slash h) (by decide)

/-! ### The subspace -/

/-- What the subspace uses of amino's JSON codec, for the Go values `α` of the registered
types `τ`: the type a value has (through a pointer, the type pointed to), `reflect.New` of a
type, and JSON both ways; `UnmarshalJSON` decodes into a destination, which keeps what the
JSON does not set. -/
structure Codec (τ α : Type) where
  TypeOf : α → τ
  New : τ → α
  MarshalJSON : α → Except String Bytes
  UnmarshalJSON : Bytes → α → Except String α

/-- A codec that decodes into a value of the destination's type, marshals every value, and
reads back what it marshals. -/
structure Codec.Lawful {τ α : Type} (cdc : Codec τ α) : Prop where
  typeOf_new : ∀ ty, cdc.TypeOf (cdc.New ty) = ty
  typeOf_unmarshal : ∀ bz dest v, cdc.UnmarshalJSON bz dest = .ok v → cdc.TypeOf v = cdc.TypeOf dest
  marshal_ok : ∀ v, ∃ bz, cdc.MarshalJSON v = .ok bz
  unmarshal_marshal : ∀ v bz, cdc.MarshalJSON v = .ok bz →
    cdc.UnmarshalJSON bz (cdc.New (cdc.TypeOf v)) = .ok v

/-- `Subspace`: its name and its key table. -/
structure Subspace (τ : Type) where
  name : Bytes
  table : KeyTable τ

/-- The parameter store and the transient store of the block. -/
structure State where
  params : SortedMap Bytes Bytes
  transient : SortedMap Bytes Bytes
  deriving DecidableEq

/-- `concatKeys`. -/
def concatKeys (key subkey : Bytes) : Bytes := key ++ slash :: subkey

theorem slash_mem_concatKeys (key subkey : Bytes) : slash ∈ concatKeys key subkey := by
  simp [concatKeys]

/-- `NewSubspace`, with an empty table. -/
def NewSubspace {τ : Type} (name : String) : Subspace τ := ⟨bytesOf name, KeyTable.empty⟩

namespace Subspace

variable {τ α : Type} [DecidableEq τ] (cdc : Codec τ α) (ss : Subspace τ)

/-- `WithKeyTable`. -/
def WithKeyTable (table : KeyTable τ) : Except Panic (Subspace τ) :=
  if ss.table.m.entries ≠ [] then throw ⟨"SetKeyTable() called on already initialized Subspace"⟩
  else pure { ss with table }

/-- `kvStore`: the parameter store under `name/`. -/
def kvStore : KVStore (SortedMap Bytes Bytes) := NewStore ofMap (ss.name ++ [slash])

/-- `transientStore`: the transient store under `name/`. -/
def transientStore : KVStore (SortedMap Bytes Bytes) := NewStore ofMap (ss.name ++ [slash])

/-- `Get`: decodes the stored bytes into `ptr`; no bytes decode as `nil` does. -/
def Get (st : State) (key : Bytes) (ptr : α) : Except (Fault String) α :=
  let bz := (ss.kvStore.Get st.params key).1
  match cdc.UnmarshalJSON (bz.getD []) ptr with
  | .ok v => pure v
  | .error err => throw (.panic err)

/-- `GetIfExists`: leaves `ptr` when nothing is stored. -/
def GetIfExists (st : State) (key : Bytes) (ptr : α) : Except (Fault String) α :=
  match (ss.kvStore.Get st.params key).1 with
  | none => pure ptr
  | some bz =>
    match cdc.UnmarshalJSON bz ptr with
    | .ok v => pure v
    | .error err => throw (.panic err)

/-- `GetWithSubkey`. -/
def GetWithSubkey (st : State) (key subkey : Bytes) (ptr : α) : Except (Fault String) α :=
  ss.Get cdc st (concatKeys key subkey) ptr

/-- `GetWithSubkeyIfExists`. -/
def GetWithSubkeyIfExists (st : State) (key subkey : Bytes) (ptr : α) : Except (Fault String) α :=
  ss.GetIfExists cdc st (concatKeys key subkey) ptr

/-- `Has`. -/
def Has (st : State) (key : Bytes) : Bool := (ss.kvStore.Get st.params key).1.isSome

/-- `Modified`: the key was written in this block. -/
def Modified (st : State) (key : Bytes) : Bool := (ss.transientStore.Get st.transient key).1.isSome

/-- `checkType`. -/
def checkType (key : Bytes) (param : α) : Except (Fault String) Unit :=
  match ss.table.m.get? key with
  | none => throw (.panic "Parameter not registered")
  | some ty =>
    if cdc.TypeOf param ≠ ty then throw (.panic "Type mismatch with registered table")
    else pure ()

/-- `Set`. -/
def Set (st : State) (key : Bytes) (param : α) : Except (Fault String) State := do
  ss.checkType cdc key param
  let bz ← (cdc.MarshalJSON param).mapError .panic
  let params := ss.kvStore.Set st.params key bz
  let transient := ss.transientStore.Set st.transient key []
  pure ⟨params, transient⟩

/-- `Update`: the value is decoded into the stored one, or into a new value of the key's
type. -/
def Update (st : State) (key : Bytes) (param : Bytes) : Except (Fault String) State := do
  let some ty := ss.table.m.get? key | throw (.panic "Parameter not registered")
  let dest ← ss.GetIfExists cdc st key (cdc.New ty)
  let dest ← (cdc.UnmarshalJSON param dest).mapError .err
  let st ← ss.Set cdc st key dest
  pure { st with transient := ss.transientStore.Set st.transient key [] }

/-- `SetWithSubkey`: the type is checked on the key alone. -/
def SetWithSubkey (st : State) (key subkey : Bytes) (param : α) : Except (Fault String) State := do
  ss.checkType cdc key param
  let newkey := concatKeys key subkey
  let bz ← (cdc.MarshalJSON param).mapError .panic
  pure ⟨ss.kvStore.Set st.params newkey bz, ss.transientStore.Set st.transient newkey []⟩

/-- `UpdateWithSubkey`: the type is looked up under the concatenated key. -/
def UpdateWithSubkey (st : State) (key subkey param : Bytes) : Except (Fault String) State := do
  let concatkey := concatKeys key subkey
  let some ty := ss.table.m.get? concatkey | throw (.err "parameter not registered")
  let dest ← ss.GetWithSubkeyIfExists cdc st key subkey (cdc.New ty)
  let dest ← (cdc.UnmarshalJSON param dest).mapError .err
  let st ← ss.SetWithSubkey cdc st key subkey dest
  pure { st with transient := ss.transientStore.Set st.transient concatkey [] }

end Subspace

/-! ### Parameter-change proposals -/

/-- `ParamChange`. -/
structure ParamChange where
  Subspace : String
  Key : String
  Subkey : String
  Value : String
  deriving DecidableEq, Repr

/-- The errors of the handler. -/
inductive Error
  | unknownSubspace (space : String)
  | settingParameter (key subkey value msg : String)
  deriving DecidableEq, Repr

/-- The message of an error. -/
def Error.msg : Error → String
  | .unknownSubspace space => "unknown subspace " ++ space
  | .settingParameter key subkey value msg =>
    "error setting parameter " ++ value ++ " on " ++ key ++ " (" ++ subkey ++ "): " ++ msg

/-- `Keeper`: the subspaces by name. -/
structure Keeper (τ : Type) where
  spaces : String → Option (Subspace τ)

/-- `GetSubspace`. -/
def Keeper.GetSubspace {τ : Type} (k : Keeper τ) (s : String) : Option (Subspace τ) := k.spaces s

section Proposal

variable {τ α : Type} [DecidableEq τ] (cdc : Codec τ α)

/-- One change of `handleParameterChangeProposal`. -/
def handleParamChange (k : Keeper τ) (st : State) (c : ParamChange) : Except (Fault Error) State := do
  let some ss := k.GetSubspace c.Subspace | throw (.err (.unknownSubspace c.Subspace))
  let result :=
    if c.Subkey = "" then ss.Update cdc st (bytesOf c.Key) (bytesOf c.Value)
    else ss.UpdateWithSubkey cdc st (bytesOf c.Key) (bytesOf c.Subkey) (bytesOf c.Value)
  match result with
  | .ok st => pure st
  | .error (.err err) => throw (.err (.settingParameter c.Key c.Subkey c.Value err))
  | .error (.panic msg) => throw (.panic msg)

/-- `handleParameterChangeProposal`: the changes one after another. -/
def handleParameterChangeProposal (k : Keeper τ) (st : State) (changes : List ParamChange) :
    Except (Fault Error) State :=
  changes.foldlM (handleParamChange cdc k) st

end Proposal

/-! ### What the calls do -/

namespace Subspace

section Store

variable {τ α : Type} {cdc : Codec τ α} {ss : Subspace τ}

@[simp] theorem kvStore_Get (m : SortedMap Bytes Bytes) (key : Bytes) :
    (ss.kvStore.Get m key).1 = m.get? (ss.name ++ slash :: key) := by
  simp [kvStore, NewStore, ofMap, cloneAppend]

@[simp] theorem transientStore_Get (m : SortedMap Bytes Bytes) (key : Bytes) :
    (ss.transientStore.Get m key).1 = m.get? (ss.name ++ slash :: key) := by
  simp [transientStore, NewStore, ofMap, cloneAppend]

@[simp] theorem kvStore_Set (m : SortedMap Bytes Bytes) (key bz : Bytes) :
    ss.kvStore.Set m key bz = m.insert (ss.name ++ slash :: key) bz := by
  simp [kvStore, NewStore, ofMap, cloneAppend]

@[simp] theorem transientStore_Set (m : SortedMap Bytes Bytes) (key bz : Bytes) :
    ss.transientStore.Set m key bz = m.insert (ss.name ++ slash :: key) bz := by
  simp [transientStore, NewStore, ofMap, cloneAppend]

/-- What `Get` reads back of a value `Set` stored, under a lawful codec. -/
theorem Get_of_stored (hc : cdc.Lawful) {st : State} {key : Bytes} {v : α} {bz : Bytes}
    (hbz : cdc.MarshalJSON v = .ok bz) (hst : st.params.get? (ss.name ++ slash :: key) = some bz) :
    ss.Get cdc st key (cdc.New (cdc.TypeOf v)) = .ok v := by
  simp only [Get, kvStore_Get, hst, Option.getD_some, hc.unmarshal_marshal v bz hbz]
  rfl

end Store

variable {τ α : Type} [DecidableEq τ] {cdc : Codec τ α} {ss : Subspace τ}

theorem checkType_eq_ok {key : Bytes} {param : α} :
    ss.checkType cdc key param = .ok () ↔ ss.table.m.get? key = some (cdc.TypeOf param) := by
  unfold checkType
  cases ss.table.m.get? key with
  | none => simp
  | some ty =>
    by_cases h : cdc.TypeOf param = ty
    · simp [h]
    · simp [h, Ne.symm h]

/-- `Set` of a value of the key's type stores its JSON and marks the key. -/
theorem Set_eq_ok {st : State} {key : Bytes} {param : α} {bz : Bytes}
    (hk : ss.table.m.get? key = some (cdc.TypeOf param)) (hbz : cdc.MarshalJSON param = .ok bz) :
    ss.Set cdc st key param = .ok ⟨ss.kvStore.Set st.params key bz,
      ss.transientStore.Set st.transient key []⟩ := by
  simp only [Set, checkType_eq_ok.2 hk, hbz, Except.ok_bind, Except.mapError, Except.pure_eq_ok]

/-- `Update` of a registered key returns exactly when the value decodes into what is stored
(or into a new value of the key's type); `Get` then reads the decoded value back and
`Modified` reports the key. -/
theorem Update_law (hc : cdc.Lawful) {st : State} {key : Bytes} {ty : τ}
    (hk : ss.table.m.get? key = some ty) {dest₀ : α}
    (hdest : ss.GetIfExists cdc st key (cdc.New ty) = .ok dest₀) (param : Bytes) :
    ((∃ st', ss.Update cdc st key param = .ok st') ↔ ∃ v, cdc.UnmarshalJSON param dest₀ = .ok v) ∧
      ∀ st', ss.Update cdc st key param = .ok st' →
        ∃ v, cdc.UnmarshalJSON param dest₀ = .ok v ∧ ss.Get cdc st' key (cdc.New ty) = .ok v ∧
          ss.Modified st' key = true := by
  -- the stored value, read into a new value of the key's type, has that type
  have hty₀ : cdc.TypeOf dest₀ = ty := by
    unfold GetIfExists at hdest
    split at hdest
    · cases hdest
      exact hc.typeOf_new ty
    · split at hdest
      · cases hdest
        rw [hc.typeOf_unmarshal _ _ _ ‹_›, hc.typeOf_new]
      · cases hdest
  -- the run of `Update` on a value that decodes
  have hrun : ∀ v, cdc.UnmarshalJSON param dest₀ = .ok v →
      ∃ bz, cdc.MarshalJSON v = .ok bz ∧
        ss.Update cdc st key param = .ok ⟨ss.kvStore.Set st.params key bz,
          ss.transientStore.Set (ss.transientStore.Set st.transient key []) key []⟩ := by
    intro v hv
    have htyv : cdc.TypeOf v = ty := (hc.typeOf_unmarshal _ _ _ hv).trans hty₀
    obtain ⟨bz, hbz⟩ := hc.marshal_ok v
    refine ⟨bz, hbz, ?_⟩
    simp only [Update, hk, hdest, hv, Except.mapError, Except.ok_bind,
      Set_eq_ok (htyv ▸ hk) hbz, Except.pure_eq_ok]
  refine ⟨⟨fun ⟨st', h⟩ => ?_, fun ⟨v, hv⟩ => ?_⟩, fun st' h => ?_⟩
  · -- a decoding error ends `Update` with that error
    cases hv : cdc.UnmarshalJSON param dest₀ with
    | ok v => exact ⟨v, rfl⟩
    | error err =>
      simp [Update, hk, hdest, hv, Except.mapError] at h
  · obtain ⟨bz, -, h⟩ := hrun v hv
    exact ⟨_, h⟩
  · cases hv : cdc.UnmarshalJSON param dest₀ with
    | error err => simp [Update, hk, hdest, hv, Except.mapError] at h
    | ok v =>
      obtain ⟨bz, hbz, h'⟩ := hrun v hv
      rw [h'] at h
      cases h
      have htyv : cdc.TypeOf v = ty := (hc.typeOf_unmarshal _ _ _ hv).trans hty₀
      refine ⟨v, rfl, ?_, ?_⟩
      · rw [← htyv]
        exact Get_of_stored hc hbz (by simp)
      · simp [Modified]

/-- `SetWithSubkey` of a value of the key's type stores it under the concatenated key, from
where `GetWithSubkey` reads it, and marks that key. -/
theorem SetWithSubkey_law (hc : cdc.Lawful) {st : State} {key subkey : Bytes} {param : α}
    (hk : ss.table.m.get? key = some (cdc.TypeOf param)) :
    ∃ st', ss.SetWithSubkey cdc st key subkey param = .ok st' ∧
      ss.GetWithSubkey cdc st' key subkey (cdc.New (cdc.TypeOf param)) = .ok param ∧
      ss.Modified st' (concatKeys key subkey) = true := by
  obtain ⟨bz, hbz⟩ := hc.marshal_ok param
  refine ⟨⟨ss.kvStore.Set st.params (concatKeys key subkey) bz,
    ss.transientStore.Set st.transient (concatKeys key subkey) []⟩, ?_,
    Get_of_stored hc hbz (by simp), by simp [Modified]⟩
  simp only [SetWithSubkey, checkType_eq_ok.2 hk, hbz, Except.mapError, Except.ok_bind,
    Except.pure_eq_ok]

/-- The concatenated key holds a `/`, so `UpdateWithSubkey` finds no type for it. -/
theorem UpdateWithSubkey_rejects_every_key (st : State) (key subkey param : Bytes) :
    ss.UpdateWithSubkey cdc st key subkey param = .error (.err "parameter not registered") := by
  simp only [UpdateWithSubkey,
    KeyTable.get?_eq_none_of_slash ss.table (slash_mem_concatKeys key subkey)]
  rfl

end Subspace

section Proposal

variable {τ α : Type} [DecidableEq τ] (cdc : Codec τ α)

/-- A proposal change with a subkey, of a subspace the keeper has, fails with the error of
`UpdateWithSubkey`. -/
theorem handleParamChange_subkey {k : Keeper τ} {st : State} {c : ParamChange} {ss : Subspace τ}
    (hss : k.GetSubspace c.Subspace = some ss) (hsub : c.Subkey ≠ "") :
    handleParamChange cdc k st c =
      .error (.err (.settingParameter c.Key c.Subkey c.Value "parameter not registered")) := by
  simp only [handleParamChange, hss, hsub, if_false, Subspace.UpdateWithSubkey_rejects_every_key]
  rfl

/-- Every proposal that changes a parameter of a known subspace with a subkey fails: the
changes before it fail first, or it fails. -/
theorem handleParameterChangeProposal_subkey {k : Keeper τ} {st : State} {c : ParamChange}
    {ss : Subspace τ} (hss : k.GetSubspace c.Subspace = some ss) (hsub : c.Subkey ≠ "")
    (pre post : List ParamChange) :
    ∃ f, handleParameterChangeProposal cdc k st (pre ++ c :: post) = .error f := by
  unfold handleParameterChangeProposal
  rw [List.foldlM_append]
  cases hpre : pre.foldlM (handleParamChange cdc k) st with
  | error f => exact ⟨f, rfl⟩
  | ok st₁ =>
    refine ⟨.err (.settingParameter c.Key c.Subkey c.Value "parameter not registered"), ?_⟩
    rw [Except.ok_bind, List.foldlM_cons, handleParamChange_subkey cdc hss hsub]
    rfl

end Proposal

end CosmosSdk.Params
