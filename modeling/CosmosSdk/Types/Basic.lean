import CosmosSdk.Lib.ByteOrder

/-!
# Basic types

The byte strings, addresses, times and panics that every module of the SDK uses.

* `Bytes`, and the address types `AccAddress`, `ValAddress`, `ConsAddress`: Go's
  `sdk.AccAddress` and its siblings are named `[]byte` types, converted into one another
  freely, and compared with `bytes.Compare`;
* `Time`, `Duration`: nanoseconds (Go's `time.Time` in UTC with the monotonic reading
  stripped, and `time.Duration`);
* `Coin`: an amount of one denomination;
* `PubKey`: a public key with its address;
* `Panic`: a Go panic, by its message;
* `Header`: the fields of the block header that the modelled code reads;
* `JsonString`: the string codec of `encoding/json`, a parameter with its round-trip law.
-/

namespace CosmosSdk

/-- A Go `[]byte`. -/
abbrev Bytes := List UInt8

/-- Bytes compare by value. Named once here, so that every membership test on a list of
byte strings refers to this instance rather than to a proof of its own. -/
instance Bytes.instLawfulBEq : LawfulBEq Bytes := inferInstance

/-- `sdk.AccAddress`. -/
abbrev AccAddress := Bytes

/-- `sdk.ValAddress`. -/
abbrev ValAddress := Bytes

/-- `sdk.ConsAddress`. -/
abbrev ConsAddress := Bytes

/-- `sdk.AccAddressFromHex`. -/
def AccAddressFromHex (address : String) : Except String AccAddress :=
  if address.length = 0 then throw "decoding Bech32 address failed: must provide an address"
  else hexDecode address.toList

/-- A point in time, in nanoseconds since the Unix epoch. -/
abbrev Time := ℤ

/-- `time.Duration`, in nanoseconds. -/
abbrev Duration := ℤ

/-- Go's zero `time.Time{}`, January 1 of year 1, UTC. -/
def zeroTime : Time := -62135596800 * 10 ^ 9

/-- `sdk.Coin`. -/
structure Coin where
  denom : String
  amount : ℤ
  deriving DecidableEq, Repr

/-- `crypto.PubKey`: the key's bytes and its `Address()`.  The address is a hash of the key
computed by tendermint; the model takes it as given with the key. -/
structure PubKey where
  bytes : Bytes
  address : Bytes
  deriving DecidableEq, Repr

/-- A Go panic. It unwinds to the nearest `recover`: inside a transaction that is the
one in `BaseApp.runTx`, which discards the transaction's writes. -/
structure Panic where
  msg : String
  deriving DecidableEq, Repr

/-- `abci.Header`, as far as the modelled code reads it. -/
structure Header where
  height : ℤ
  time : Time
  deriving DecidableEq, Repr

/-- `json.Marshal` and `json.Unmarshal` of a Go string, which the JSON of addresses and
decimals goes through. -/
structure JsonString where
  Marshal : String → Bytes
  Unmarshal : Bytes → Except String String

/-- What `encoding/json` is assumed to do with a string: read back what it wrote. -/
def JsonString.Lawful (json : JsonString) : Prop := ∀ s, json.Unmarshal (json.Marshal s) = .ok s

/-- A string codec that keeps the law: the UTF-8 bytes of the text, without the quotes. -/
def JsonString.utf8 : JsonString where
  Marshal s := s.toUTF8.data.toList
  Unmarshal bz := match String.fromUTF8? ⟨bz.toArray⟩ with
    | some s => .ok s
    | none => .error "invalid UTF-8"

theorem JsonString.utf8_lawful : JsonString.utf8.Lawful := fun s => by
  have hvalid : String.fromUTF8? s.toUTF8 = some s := by
    unfold String.fromUTF8?
    rw [String.toUTF8_eq_toByteArray, dif_pos s.isValidUTF8]
    rfl
  show (match String.fromUTF8? ⟨s.toUTF8.data.toList.toArray⟩ with
    | some s => Except.ok s
    | none => Except.error "invalid UTF-8") = Except.ok s
  rw [Array.toArray_toList, show ({ data := s.toUTF8.data } : ByteArray) = s.toUTF8 from rfl, hvalid]

end CosmosSdk
