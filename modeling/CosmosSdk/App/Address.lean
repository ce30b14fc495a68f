import CosmosSdk.Group.Keeper
import CosmosSdk.Contract.Keeper
import CosmosSdk.Staking.Types
import CosmosSdk.Lib.Outcome

/-!
# Addresses as text

`types/address.go`: an address is printed in bech32 under the prefix of its kind (`String()`),
and read back by `AccAddressFromBech32` and its two siblings.  These take blank text for the
empty address; otherwise they decode the bech32 text, check its prefix, and check the bytes
with `VerifyAddressFormat`: the configured verifier, or else a length of `AddrLen`.  JSON
writes the text as a JSON string.

The bech32 codec of `tendermint/libs/bech32` and the string codec of `encoding/json` are
parameters, with the laws they are assumed to keep (`Bech32.Lawful`, `JsonString.Lawful`).
The SDK's configuration (`Config`) gives the prefixes and the verifier; nothing in the
repository sets a verifier (`DefaultConfig`).

Under these laws, an address of at most `AddrLen` bytes is read back from its text exactly
when it is empty or has `AddrLen` bytes (`addressFromBech32_addressString`).  A key's
address and a contract's (`Contract.addrFromUint64`) come back.  The addresses `x/group`
gives its groups (`Group.addrFromUint64`, at most eleven bytes) do not.
-/

namespace CosmosSdk

/-- `unicode.IsSpace`: the white space of Latin-1, and Unicode's `White_Space` above it. -/
def isSpace (c : Char) : Bool :=
  let r := c.toNat
  if r ≤ 0xFF then
    r == 0x09 || r == 0x0A || r == 0x0B || r == 0x0C || r == 0x0D || r == 0x20 || r == 0x85 ||
      r == 0xA0
  else
    r == 0x1680 || (decide (0x2000 ≤ r) && decide (r ≤ 0x200A)) || r == 0x2028 || r == 0x2029 ||
      r == 0x202F || r == 0x205F || r == 0x3000

/-- `strings.TrimSpace`: the white space at both ends dropped. -/
def TrimSpace (s : String) : String :=
  String.ofList ((s.toList.dropWhile isSpace).reverse.dropWhile isSpace).reverse

/-- The bech32 codec of `tendermint/libs/bech32`. -/
structure Bech32 where
  ConvertAndEncode : String → Bytes → Except String String
  DecodeAndConvert : String → Except String (String × Bytes)

/-- What the codec is assumed to do under the human-readable part `hrp`, for byte strings of
at most `AddrLen` bytes.  The text is the part, the separator `1` and the data characters, and
it decodes to the part and the bytes.  The library lowercases the part and refuses text of
more than 90 characters, so this holds for a short lower-case part, such as the SDK's. -/
structure Bech32.Lawful (codec : Bech32) (hrp : String) : Prop where
  encode : ∀ bz : Bytes, bz.length ≤ Staking.AddrLen →
    ∃ data, codec.ConvertAndEncode hrp bz = .ok (hrp ++ "1" ++ data)
  decode : ∀ bz : Bytes, bz.length ≤ Staking.AddrLen → ∀ s,
    codec.ConvertAndEncode hrp bz = .ok s → codec.DecodeAndConvert s = .ok (hrp, bz)

/-- `sdk.Config`: the bech32 prefixes of the three kinds of address, and the address
verifier, `nil` when none is set. -/
structure Config where
  bech32AccountAddrPrefix : String
  bech32ValidatorAddrPrefix : String
  bech32ConsensusAddrPrefix : String
  addressVerifier : Option (Bytes → Option String)

/-- `GetConfig()` as the SDK makes it: the `cosmos` prefixes, and no verifier. -/
def DefaultConfig : Config where
  bech32AccountAddrPrefix := "cosmos"
  bech32ValidatorAddrPrefix := "cosmosvaloper"
  bech32ConsensusAddrPrefix := "cosmosvalcons"
  addressVerifier := none

section Codec

variable (codec : Bech32) (cfg : Config) (json : JsonString)

/-- `GetFromBech32`: the bytes of bech32 text under the expected prefix. -/
def GetFromBech32 (bech32str hrpPrefix : String) : Except String Bytes := do
  if bech32str.utf8ByteSize = 0 then throw "decoding Bech32 address failed: must provide an address"
  let (hrp, bz) ← codec.DecodeAndConvert bech32str
  if hrp ≠ hrpPrefix then throw ("invalid Bech32 prefix; expected " ++ hrpPrefix ++ ", got " ++ hrp)
  pure bz

/-- `VerifyAddressFormat`: the configured verifier, or else the length `AddrLen`. -/
def VerifyAddressFormat (bz : Bytes) : Option String :=
  match cfg.addressVerifier with
  | some verifier => verifier bz
  | none => if bz.length ≠ Staking.AddrLen then some "Incorrect address length" else none

/-- The body of `AccAddressFromBech32`, `ValAddressFromBech32` and `ConsAddressFromBech32`,
under the prefix of the kind. -/
def addressFromBech32 (hrpPrefix address : String) : Except String Bytes := do
  if (TrimSpace address).utf8ByteSize = 0 then return []
  let bz ← GetFromBech32 codec address hrpPrefix
  if let some err := VerifyAddressFormat cfg bz then throw err
  pure bz

/-- `AccAddressFromBech32`. -/
def AccAddressFromBech32 (address : String) : Except String AccAddress :=
  addressFromBech32 codec cfg cfg.bech32AccountAddrPrefix address

/-- `ValAddressFromBech32`. -/
def ValAddressFromBech32 (address : String) : Except String ValAddress :=
  addressFromBech32 codec cfg cfg.bech32ValidatorAddrPrefix address

/-- `ConsAddressFromBech32`. -/
def ConsAddressFromBech32 (address : String) : Except String ConsAddress :=
  addressFromBech32 codec cfg cfg.bech32ConsensusAddrPrefix address

/-- The body of the `String()` of the three kinds: the empty address is the empty text, and a
failure of the encoder panics. -/
def addressString (hrpPrefix : String) (bz : Bytes) : Except Panic String :=
  if bz.isEmpty then pure ""
  else match codec.ConvertAndEncode hrpPrefix bz with
    | .ok bech32Addr => pure bech32Addr
    | .error err => throw ⟨err⟩

/-- The body of the `MarshalJSON` of the three kinds: the text as a JSON string. -/
def addressMarshalJSON (hrpPrefix : String) (bz : Bytes) : Except Panic Bytes := do
  let s ← addressString codec hrpPrefix bz
  pure (json.Marshal s)

/-- The body of the `UnmarshalJSON` of the three kinds: a JSON string, read as text. -/
def addressUnmarshalJSON (hrpPrefix : String) (data : Bytes) : Except String Bytes := do
  let s ← json.Unmarshal data
  addressFromBech32 codec cfg hrpPrefix s

/-- `AccAddress.MarshalJSON`. -/
def AccAddress.MarshalJSON (aa : AccAddress) : Except Panic Bytes :=
  addressMarshalJSON codec json cfg.bech32AccountAddrPrefix aa

/-- `AccAddress.UnmarshalJSON`. -/
def AccAddress.UnmarshalJSON (data : Bytes) : Except String AccAddress :=
  addressUnmarshalJSON codec cfg json cfg.bech32AccountAddrPrefix data

/-- `ValAddress.MarshalJSON`. -/
def ValAddress.MarshalJSON (va : ValAddress) : Except Panic Bytes :=
  addressMarshalJSON codec json cfg.bech32ValidatorAddrPrefix va

/-- `ValAddress.UnmarshalJSON`. -/
def ValAddress.UnmarshalJSON (data : Bytes) : Except String ValAddress :=
  addressUnmarshalJSON codec cfg json cfg.bech32ValidatorAddrPrefix data

/-- `ConsAddress.MarshalJSON`. -/
def ConsAddress.MarshalJSON (ca : ConsAddress) : Except Panic Bytes :=
  addressMarshalJSON codec json cfg.bech32ConsensusAddrPrefix ca

/-- `ConsAddress.UnmarshalJSON`. -/
def ConsAddress.UnmarshalJSON (data : Bytes) : Except String ConsAddress :=
  addressUnmarshalJSON codec cfg json cfg.bech32ConsensusAddrPrefix data

/-- `AccAddress.String`. -/
def AccAddress.String (aa : AccAddress) : Except Panic String :=
  addressString codec cfg.bech32AccountAddrPrefix aa

/-- `ValAddress.String`. -/
def ValAddress.String (va : ValAddress) : Except Panic String :=
  addressString codec cfg.bech32ValidatorAddrPrefix va

/-- `ConsAddress.String`. -/
def ConsAddress.String (ca : ConsAddress) : Except Panic String :=
  addressString codec cfg.bech32ConsensusAddrPrefix ca

end Codec

/-! ### Reading an address back -/

/-- A list keeps an element that fails the test after `dropWhile`. -/
theorem dropWhile_ne_nil_of_mem {α : Type*} {p : α → Bool} {c : α} :
    ∀ {l : List α}, c ∈ l → p c = false → l.dropWhile p ≠ []
  | x :: l, hc, hp => by
    rw [List.dropWhile_cons]
    split_ifs with hx
    · rcases List.mem_cons.1 hc with rfl | hc
      · exact absurd hx (by simp [hp])
      · exact dropWhile_ne_nil_of_mem hc hp
    · simp

/-- Text with a character that is not white space is not blank. -/
theorem TrimSpace_ne_empty {s : String} {c : Char} (hc : c ∈ s.toList) (hs : isSpace c = false) :
    TrimSpace s ≠ "" := by
  have hfront := dropWhile_ne_nil_of_mem hc hs
  have hhead := List.head_dropWhile_not isSpace hfront
  have hback := dropWhile_ne_nil_of_mem (List.mem_reverse.2 (List.head_mem hfront)) hhead
  rw [TrimSpace, Ne, String.ofList_eq_empty_iff, List.reverse_eq_nil_iff]
  exact hback

section Codec

variable {codec : Bech32} {cfg : Config} {json : JsonString}

/-- Bech32 text is not blank: it holds the separator `1`. -/
theorem TrimSpace_bech32_ne_empty (hrp data : String) : TrimSpace (hrp ++ "1" ++ data) ≠ "" :=
  TrimSpace_ne_empty (c := '1') (by simp [String.toList_append]) (by decide)

/-- Under the default verifier, the text of an address of at most `AddrLen` bytes is read
back exactly when the address is empty or has `AddrLen` bytes; any other length is refused. -/
theorem addressFromBech32_addressString {hrpPrefix : String} (hlaw : codec.Lawful hrpPrefix)
    (hv : cfg.addressVerifier = none) {bz : Bytes} (hlen : bz.length ≤ Staking.AddrLen) :
    ∃ s, addressString codec hrpPrefix bz = .ok s ∧
      addressFromBech32 codec cfg hrpPrefix s =
        if bz = [] ∨ bz.length = Staking.AddrLen then .ok bz else .error "Incorrect address length" := by
  cases bz with
  | nil => exact ⟨"", rfl, by simp [addressFromBech32, TrimSpace]⟩
  | cons b bz =>
    obtain ⟨data, henc⟩ := hlaw.encode _ hlen
    have hdec := hlaw.decode _ hlen _ henc
    have htrim : (TrimSpace (hrpPrefix ++ "1" ++ data)).utf8ByteSize ≠ 0 := fun h =>
      TrimSpace_bech32_ne_empty hrpPrefix data (String.utf8ByteSize_eq_zero_iff.1 h)
    refine ⟨hrpPrefix ++ "1" ++ data, by simp [addressString, henc], ?_⟩
    by_cases hfull : bz.length + 1 = Staking.AddrLen <;>
      simp [addressFromBech32, GetFromBech32, VerifyAddressFormat, htrim, hdec, hv, hfull]

/-- The JSON of an address is read back as its text is. -/
theorem addressUnmarshalJSON_addressMarshalJSON (hjson : json.Lawful) {hrpPrefix : String}
    {bz : Bytes} {s : String} (hs : addressString codec hrpPrefix bz = .ok s) :
    addressMarshalJSON codec json hrpPrefix bz = .ok (json.Marshal s) ∧
      addressUnmarshalJSON codec cfg json hrpPrefix (json.Marshal s) =
        addressFromBech32 codec cfg hrpPrefix s := by
  simp [addressMarshalJSON, addressUnmarshalJSON, hs, hjson s]

/-- An address of `AddrLen` bytes, or the empty one, is read back from its text. -/
theorem addressFromBech32_addressString_of_full {hrpPrefix : String} (hlaw : codec.Lawful hrpPrefix)
    (hv : cfg.addressVerifier = none) {bz : Bytes} (hfull : bz = [] ∨ bz.length = Staking.AddrLen) :
    ∃ s, addressString codec hrpPrefix bz = .ok s ∧ addressFromBech32 codec cfg hrpPrefix s = .ok bz := by
  have hlen : bz.length ≤ Staking.AddrLen := by
    rcases hfull with rfl | h
    · simp [Staking.AddrLen]
    · exact h.le
  obtain ⟨s, hs, hread⟩ := addressFromBech32_addressString hlaw hv hlen
  exact ⟨s, hs, by rw [hread, if_pos hfull]⟩

/-- The text of a contract's account, twenty bytes, is read back. -/
theorem AccAddressFromBech32_contract_address (hlaw : codec.Lawful cfg.bech32AccountAddrPrefix)
    (hv : cfg.addressVerifier = none) (id : ℕ) :
    ∃ s, AccAddress.String codec cfg (Contract.addrFromUint64 id) = .ok s ∧
      AccAddressFromBech32 codec cfg s = .ok (Contract.addrFromUint64 id) :=
  addressFromBech32_addressString_of_full hlaw hv (Or.inr (Contract.length_addrFromUint64 id))

/-- The text of a group's account is refused for its length: `addrFromUint64` of `x/group`
writes `G` and a varint of at most ten bytes. -/
theorem AccAddressFromBech32_group_address (hlaw : codec.Lawful cfg.bech32AccountAddrPrefix)
    (hv : cfg.addressVerifier = none) (id : ℕ) :
    ∃ s, AccAddress.String codec cfg (Group.addrFromUint64 id) = .ok s ∧
      AccAddressFromBech32 codec cfg s = .error "Incorrect address length" := by
  have hlen := Group.length_addrFromUint64_le id
  obtain ⟨s, hs, hread⟩ := addressFromBech32_addressString hlaw hv (hlen.trans (by decide))
  refine ⟨s, hs, ?_⟩
  have hshort : ¬(Group.addrFromUint64 id = [] ∨ (Group.addrFromUint64 id).length = Staking.AddrLen) := by
    rintro (h | h)
    · simp [Group.addrFromUint64] at h
    · simp [Staking.AddrLen] at h
      omega
  rw [AccAddressFromBech32, hread, if_neg hshort]

/-- A codec of the shape of `Bech32` that writes the bytes in hexadecimal after the part and
`1`, and reads back text under the part `hrp`. -/
def Bech32.hexUnder (hrp : String) : Bech32 where
  ConvertAndEncode hrpPart bz := pure (hrpPart ++ "1" ++ hexString bz)
  DecodeAndConvert s :=
    if (hrp ++ "1").toList.isPrefixOf s.toList then
      (fun bz => (hrp, bz)) <$> hexDecode (s.toList.drop (hrp ++ "1").length)
    else throw "invalid bech32 string"

theorem Bech32.hexUnder_lawful (hrp : String) : (Bech32.hexUnder hrp).Lawful hrp where
  encode bz _ := ⟨hexString bz, rfl⟩
  decode bz _ s h := by
    have hs : s = hrp ++ "1" ++ hexString bz := (Except.ok.inj h).symm
    subst hs
    have hsplit : (hrp ++ "1" ++ hexString bz).toList = (hrp ++ "1").toList ++ (hexString bz).toList :=
      String.toList_append
    have hpre : (hrp ++ "1").toList.isPrefixOf (hrp ++ "1" ++ hexString bz).toList = true := by
      rw [List.isPrefixOf_iff_prefix, hsplit]
      exact List.prefix_append _ _
    simp only [Bech32.hexUnder, hpre, if_true]
    rw [hsplit, List.drop_left' String.length_toList, hexDecode_hexString]
    rfl

theorem AccAddressFromBech32_group_address_zero :
    ∃ s, AccAddress.String (Bech32.hexUnder "cosmos") DefaultConfig (Group.addrFromUint64 0) = .ok s ∧
      AccAddressFromBech32 (Bech32.hexUnder "cosmos") DefaultConfig s = .error "Incorrect address length" :=
  AccAddressFromBech32_group_address (Bech32.hexUnder_lawful "cosmos") rfl 0

end Codec

end CosmosSdk
