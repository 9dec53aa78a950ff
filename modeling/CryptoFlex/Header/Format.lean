import CryptoFlex.Python

namespace CryptoFlex

/-- b"CFLX" -/
def magic : Bytes := [0x43, 0x46, 0x4C, 0x58]
def formatVersion : Int := 2
def supportedVersions : List Int := [1, 2]
def nonceLen : Nat := 12

structure CryptoflexHeader where
  profileId : PyStr
  components : List (PyStr × Bytes)
  nonce : Option Bytes := none
  version : Int := formatVersion
  deriving DecidableEq

namespace CryptoflexHeader

def componentToBytes (component : PyStr × Bytes) : Except Exc Bytes := do
  let algBytes ← component.1.encode
  if 255 < algBytes.length then
    .error (.valueError s!"algorithm_id '{component.1}' too long to encode") else
  if 65535 < component.2.length then
    .error (.valueError s!"ciphertext for '{component.1}' too long to encode") else
  let algLen ← pack 1 algBytes.length
  let ctLen ← pack 2 component.2.length
  return algLen ++ algBytes ++ ctLen ++ component.2

def componentsToBytes : List (PyStr × Bytes) → Except Exc Bytes
  | [] => .ok []
  | component :: rest => do
    let out ← componentToBytes component
    let tail ← componentsToBytes rest
    return out ++ tail

/-- v2+ headers end with the nonce. -/
def nonceToBytes (version : Int) (nonce : Option Bytes) : Except Exc Bytes :=
  if version < 2 then .ok [] else
  match nonce with
  | none => .error (.valueError "v2 header requires a 12-byte nonce, got None")
  | some n =>
    -- Python's conditional shows an empty nonce as None
    if n = [] then .error (.valueError "v2 header requires a 12-byte nonce, got None") else
    if n.length ≠ nonceLen then
      .error (.valueError s!"v2 header requires a 12-byte nonce, got {n.length}")
    else .ok n

def toBytes (h : CryptoflexHeader) : Except Exc Bytes := do
  if h.version ∉ supportedVersions then
    .error (.valueError (s!"cannot serialize unsupported header version {h.version}; " ++
      "supported versions are [1, 2]")) else
  let version ← pack 1 h.version
  let profileBytes ← h.profileId.encode
  if 255 < profileBytes.length then
    .error (.valueError "profile_id too long to encode") else
  let profileLen ← pack 1 profileBytes.length
  if 255 < h.components.length then
    .error (.valueError "too many components to encode") else
  let numComponents ← pack 1 h.components.length
  let components ← componentsToBytes h.components
  let nonce ← nonceToBytes h.version h.nonce
  return magic ++ version ++ profileLen ++ profileBytes ++ numComponents ++ components ++ nonce

/-- One pass of the component loop; returns the component and the offset behind it. -/
def parseComponent (sl : Slicer) (data : Bytes) (offset : Nat) (seenAlgIds : List PyStr) :
    Except Exc ((PyStr × Bytes) × Nat) := do
  if data.length ≤ offset then
    .error (.headerParseError "truncated algorithm_id length field") else
  let algLen ← index data offset
  let offset := offset + 1
  if data.length < offset + algLen then
    .error (.headerParseError "truncated algorithm_id field") else
  let algBytes ← sl data offset (offset + algLen)
  let algId ← PyStr.decode algBytes
  let offset := offset + algLen
  if algId.isEmpty then
    .error (.headerParseError "empty algorithm_id in header component") else
  if algId ∈ seenAlgIds then
    .error (.headerParseError s!"duplicate algorithm_id '{algId}' in header") else
  if data.length < offset + 2 then
    .error (.headerParseError "truncated ciphertext length field") else
  let ctLenBytes ← sl data offset (offset + 2)
  let ctLen ← unpack 2 ctLenBytes
  let offset := offset + 2
  if data.length < offset + ctLen then
    .error (.headerParseError "truncated ciphertext field") else
  let ciphertext ← sl data offset (offset + ctLen)
  return ((algId, ciphertext), offset + ctLen)

def parseComponents (sl : Slicer) (data : Bytes) : Nat → Nat → List PyStr → List (PyStr × Bytes) →
    Except Exc (List (PyStr × Bytes) × Nat)
  | 0, offset, _, components => .ok (components, offset)
  | n + 1, offset, seenAlgIds, components => do
    let (component, offset) ← parseComponent sl data offset seenAlgIds
    parseComponents sl data n offset (seenAlgIds ++ [component.1]) (components ++ [component])

def parseNonce (sl : Slicer) (data : Bytes) (offset version : Nat) :
    Except Exc (Option Bytes × Nat) := do
  if version < 2 then return (none, offset) else
  if data.length < offset + nonceLen then
    .error (.headerParseError "truncated nonce field") else
  let nonce ← sl data offset (offset + nonceLen)
  return (some nonce, offset + nonceLen)

/-- `_parse`, over the reading of its slices. -/
def parseWith (sl : Slicer) (data : Bytes) : Except Exc (CryptoflexHeader × Nat) := do
  if data.length < 6 then
    .error (.headerParseError "missing or invalid cryptoflex header magic") else
  let front ← sl data 0 4
  if front ≠ magic then
    .error (.headerParseError "missing or invalid cryptoflex header magic") else
  let offset := 4
  let version ← index data offset
  let offset := offset + 1
  if (version : Int) ∉ supportedVersions then
    .error (.headerParseError (s!"unsupported cryptoflex header version {version}; " ++
      "this library supports versions [1, 2]. " ++
      "A newer/older library version may be required to read this file.")) else
  let profileIdLen ← index data offset
  let offset := offset + 1
  if data.length < offset + profileIdLen then
    .error (.headerParseError "truncated profile_id field") else
  let profileBytes ← sl data offset (offset + profileIdLen)
  let profileId ← PyStr.decode profileBytes
  let offset := offset + profileIdLen
  if profileId.isEmpty then
    .error (.headerParseError "empty profile_id in header") else
  if data.length ≤ offset then
    .error (.headerParseError "truncated header: missing num_components") else
  let numComponents ← index data offset
  let offset := offset + 1
  if numComponents = 0 then
    .error (.headerParseError "header contains zero components; at least one is required") else
  let (components, offset) ← parseComponents sl data numComponents offset [] []
  let (nonce, offset) ← parseNonce sl data offset version
  return ({ profileId, components, nonce, version }, offset)

def parse (data : Bytes) : Except Exc (CryptoflexHeader × Nat) := parseWith pySlice data

/-- The exceptions of `_parse` that `from_bytes` turns into a parse error. -/
def caught : Exc → Bool
  | .indexError | .structError => true
  | e => e.isValueError

def fromBytes (data : Bytes) : Except Exc (CryptoflexHeader × Nat) :=
  match parse data with
  | .ok r => .ok r
  | .error (.headerParseError m) => .error (.headerParseError m)
  | .error e =>
    if caught e then
      .error (.headerParseError s!"malformed or truncated cryptoflex header: {e.text}")
    else .error e

end CryptoflexHeader

end CryptoFlex
