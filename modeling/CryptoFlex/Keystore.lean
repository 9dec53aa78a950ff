import CryptoFlex.Api
import CryptoFlex.Base64
import CryptoFlex.Json.Loads

namespace CryptoFlex

open Lib

variable {H : Type}

/-- b"CFLK". -/
def magicKeystoreScrypt : Bytes := [0x43, 0x46, 0x4C, 0x4B]

/-- b"CFLA". -/
def magicKeystoreArgon2 : Bytes := [0x43, 0x46, 0x4C, 0x41]

def saltLen : Nat := 16

def keyLen : Nat := 32

/-- The largest keystore that is opened, 16 MB. -/
def maxKeystoreSize : Nat := 16 * 1024 * 1024

inductive Password
  | str (s : PyStr)
  | bytes (b : Bytes)

/-- A `str` password is used in UTF-8. -/
def Password.encode : Password → Except Exc Bytes
  | str s => s.encode
  | bytes b => .ok b

/-- The values of `kdf_type` with a meaning, and any other string. -/
inductive KdfType
  | argon2id
  | scrypt
  | other (name : String)
  deriving DecidableEq

/-- A derived key has the length that was asked for. -/
abbrev KeyOfLength (length : Nat) := { key : Bytes // key.length = length }

/-- The memory-hard functions of the `cryptography` package. -/
structure PasswordKdf where
  argon2id (salt : Bytes) (length iterations memoryCost lanes : Nat) (password : Bytes) :
    Except Exc (KeyOfLength length)
  scrypt (salt : Bytes) (length n r p : Nat) (password : Bytes) : Except Exc (KeyOfLength length)

namespace Runtime

/-- `_KDF_SEMAPHORE.acquire(timeout=...)`: nobody gives a place back while this call waits. -/
def acquireKdf : Eff Exc Runtime Bool := do
  let rt ← Eff.get
  if rt.kdfPermits = 0 then return false else
  Eff.modify fun rt => { rt with kdfPermits := rt.kdfPermits - 1 }
  return true

def releaseKdf : Eff Exc Runtime Unit :=
  Eff.modify fun rt => { rt with kdfPermits := rt.kdfPermits + 1 }

end Runtime

/-- The call of the memory-hard function. -/
def PasswordKdf.derive (kdf : PasswordKdf) (kdfType : KdfType) (salt password : Bytes) :
    Except Exc (KeyOfLength keyLen) :=
  match kdfType with
  | .argon2id => kdf.argon2id salt keyLen 3 32768 1 password
  | .scrypt => kdf.scrypt salt keyLen (2 ^ 17) 8 1 password
  | .other name => .error (.valueError s!"unsupported KDF type: '{name}'")

/-- `_derive_wrapping_key`. -/
def deriveWrappingKey (kdf : PasswordKdf) (password : Password) (salt : Bytes)
    (kdfType : KdfType) : Eff Exc Runtime Bytes := do
  let password ← Eff.lift password.encode
  if password = [] then
    Eff.raise (.valueError "keystore password must not be empty") else
  let acquired ← Runtime.acquireKdf
  if ¬acquired then
    Eff.raise (.runtimeError ("KDF concurrency limit reached: too many simultaneous " ++
      "key-derivation operations. Try again shortly.")) else
  Eff.tryFinally (do
    let key ← Eff.lift (kdf.derive kdfType salt password)
    return key.val)
    Runtime.releaseKdf

/-- The dictionary of a bundle. -/
def bundleJson (bundle : PublicBundle) : Json :=
  .obj [
    ("profile_id", .str bundle.profileId),
    ("public_keys", .arr (bundle.publicKeys.map fun (algId, pub) =>
      .obj [("alg_id", .str algId), ("key_b64", .str (b64encode pub))]))]

def serializePublicBundle (bundle : PublicBundle) : PyStr :=
  (bundleJson bundle).dumps (some 2)

/-- An entry of `public_keys`. -/
def publicKeyEntry (item : Json) : Except Exc (PyStr × Bytes) :=
  match item with
  | .obj item =>
    match Json.field item "alg_id", Json.field item "key_b64" with
    | some (.str algId), some (.str keyB64) => do
      let key ← b64decode keyB64
      return (algId, key)
    | _, _ => .error (.valueError "Missing or invalid alg_id or key_b64")
  | _ => .error (.valueError "Public key entry must be a JSON object")

def publicKeyEntries : List Json → Except Exc (List (PyStr × Bytes))
  | [] => return []
  | item :: rest => do
    let entry ← publicKeyEntry item
    let entries ← publicKeyEntries rest
    return entry :: entries

/-- The body of `deserialize_public_bundle` behind `json.loads`. -/
def bundleOfJson (data : Json) : Except Exc PublicBundle :=
  match data with
  | .obj data =>
    match Json.field data "profile_id" with
    | some (.str profileId) =>
      match Json.field data "public_keys" with
      | some (.arr pkList) => do
        let publicKeys ← publicKeyEntries pkList
        return { profileId, publicKeys }
      | _ => .error (.valueError "Missing or invalid public_keys list")
    | _ => .error (.valueError "Missing or invalid profile_id")
  | _ => .error (.valueError "Root object must be a JSON object")

def deserializePublicBundle (jsonStr : PyStr) : Except Exc PublicBundle :=
  (do
    let data ← Json.loads jsonStr
    bundleOfJson data).mapError fun e : Exc =>
  .decryptionError s!"Malformed public bundle: {e.text}"

/-- An entry of `private_handles`. -/
def serializeHandle (source : Source H) (privHandle : H) : Except Exc Json := do
  let algId := source.algorithmId
  let privBytes ← (source.serializePrivate privHandle).mapError fun _ =>
    .decryptionError s!"cannot serialize private handle for '{algId}'"
  return .obj [("alg_id", .str algId), ("priv_b64", .str (b64encode privBytes))]

def serializeHandles : List (Source H × H) → Except Exc (List Json)
  | [] => return []
  | (source, privHandle) :: rest => do
    let entry ← serializeHandle source privHandle
    let entries ← serializeHandles rest
    return entry :: entries

/-- The checks of `export_keyset_bytes`. -/
def checkExport (keyset : KeySet H) : Except Exc Unit :=
  if keyset.profile.profileId ≠ keyset.publicBundle.profileId then
    .error (.valueError
      "cannot export keyset: profile mismatch between keyset and public bundle")
  else if keyset.profile.sources.length ≠ keyset.publicBundle.publicKeys.length then
    .error (.valueError
      "cannot export keyset: component count mismatch between profile and public bundle")
  else if keyset.profile.sources.length ≠ keyset.privateHandles.length then
    .error (.valueError
      "cannot export keyset: component count mismatch between profile and private handles")
  else .ok ()

/-- The dictionary that a keystore encrypts. -/
def payloadJson (profileId : PyStr) (publicBundle : Json) (privateHandles : List Json) : Json :=
  .obj [("profile_id", .str profileId), ("public_bundle", publicBundle),
    ("private_handles", .arr privateHandles)]

/-- What `export_keyset_bytes` encrypts. -/
def exportPlaintext (keyset : KeySet H) : Except Exc Bytes := do
  checkExport keyset
  let serializedPrivates ←
    serializeHandles (keyset.profile.sources.zip keyset.privateHandles)
  let publicBundle ← Json.loads (serializePublicBundle keyset.publicBundle)
  (payloadJson keyset.profile.profileId publicBundle serializedPrivates).dumps.encode

def exportKeysetBytes (env : Env H) (kdf : PasswordKdf) (keyset : KeySet H) (password : Password)
    (useArgon2 : Bool := true) : Eff Exc Runtime Bytes := do
  let plaintext ← Eff.lift (exportPlaintext keyset)
  let salt ← Runtime.sample (urandom saltLen)
  let nonce ← Runtime.sample (urandom nonceLen)
  let magic := if useArgon2 then magicKeystoreArgon2 else magicKeystoreScrypt
  let kdfType := if useArgon2 then KdfType.argon2id else KdfType.scrypt
  let wrappingKeyBytes ← deriveWrappingKey kdf password salt kdfType
  let wrappingKeyBuf ← Runtime.newBuffer wrappingKeyBytes
  let ctWithTag ← Eff.tryFinally (do
    let key ← Runtime.readBuffer wrappingKeyBuf
    let aesgcm ← Eff.lift (AESGCM env.aead key)
    aesgcmEncrypt env aesgcm nonce plaintext magic)
    (Runtime.zeroize wrappingKeyBuf)
  return magic ++ salt ++ nonce ++ ctWithTag

/-- `value[key]` with a string for the key. -/
def Json.getItem (value : Json) (key : PyStr) : Except Exc Json :=
  match value with
  | .obj o =>
    match Json.field o key with
    | some item => .ok item
    | none => .error .keyError
  | _ => .error .typeError

/-- `value.get(key, default)`. -/
def Json.get (value : Json) (key : PyStr) (default : Json) : Except Exc Json :=
  match value with
  | .obj o => .ok ((Json.field o key).getD default)
  | _ => .error .attributeError

/-- `except (ValueError, KeyError) as e`, where the only key looked up is `profile_id`. -/
def unrecognizedProfile (e : Exc) : Exc :=
  if e = .keyError then .decryptionError "unrecognized profile: 'profile_id'"
  else if e.isValueError then .decryptionError s!"unrecognized profile: {e.text}"
  else e

/-- The profile that a payload names, and its id. -/
def importProfile (env : Env H) (payload : Json) : Except Exc (PyStr × SecurityProfile H) :=
  (do
    let keystoreProfileId ← payload.getItem "profile_id"
    match keystoreProfileId with
    | .str id =>
      if id.isEmpty then
        .error (.decryptionError "invalid or missing profile_id in keystore") else
      let profile ← getProfile env.profiles id
      return (id, profile)
    | _ => .error (.decryptionError "invalid or missing profile_id in keystore")).mapError
  unrecognizedProfile

/-- The keystore, its bundle and the registered profile agree on the profile id. -/
def checkBinding (keystoreProfileId : PyStr) (bundle : PublicBundle)
    (profile : SecurityProfile H) : Except Exc Unit :=
  if bundle.profileId ≠ keystoreProfileId then
    .error (.decryptionError ("keystore profile_id does not match public_bundle profile_id: " ++
      s!"'{keystoreProfileId}' vs '{bundle.profileId}'"))
  else if profile.profileId ≠ keystoreProfileId then
    .error (.decryptionError ("registered profile_id does not match keystore profile_id: " ++
      s!"'{profile.profileId}' vs '{keystoreProfileId}'"))
  else .ok ()

def checkCounts (profile : SecurityProfile H) (privateHandlesPayload : List Json)
    (bundle : PublicBundle) : Except Exc Unit :=
  if profile.sources.length ≠ privateHandlesPayload.length then
    .error (.decryptionError (
      s!"structural mismatch: profile requires {profile.sources.length} sources, " ++
      s!"but keystore contains {privateHandlesPayload.length} private handles"))
  else if profile.sources.length ≠ bundle.publicKeys.length then
    .error (.decryptionError (
      s!"structural mismatch: profile requires {profile.sources.length} sources, " ++
      s!"but public bundle contains {bundle.publicKeys.length} public keys"))
  else .ok ()

/-- The body of the import loop. -/
def importHandle (source : Source H) (item : Json) (bundleAlgId : PyStr) : Except Exc H :=
  match item with
  | .obj item =>
    match Json.field item "alg_id" with
    | some (.str algId) =>
      if source.algorithmId ≠ algId then
        .error (.decryptionError ("mismatched component algorithm in keystore: expected " ++
          s!"'{source.algorithmId}', got '{algId}'"))
      else if source.algorithmId ≠ bundleAlgId then
        .error (.decryptionError ("mismatched component algorithm in public bundle: expected " ++
          s!"'{source.algorithmId}', got '{bundleAlgId}'"))
      else
      match Json.field item "priv_b64" with
      | some (.str privB64) =>
        (do
          let privBytes ← b64decode privB64
          source.deserializePrivate privBytes).mapError fun e : Exc =>
        .decryptionError s!"failed to deserialize private key for '{algId}': {e.text}"
      | _ => .error (.decryptionError s!"missing or invalid priv_b64 for '{algId}'")
    | _ => .error (.decryptionError "missing or invalid alg_id in private handle")
  | _ => .error (.decryptionError "invalid private handle entry structure")

/-- The import loop, over the sources zipped with the entries and the bundle's keys. -/
def importHandles : List (Source H × Json × PyStr × Bytes) → Except Exc (List H)
  | [] => return []
  | (source, item, bundleAlgId, _) :: rest => do
    let privHandle ← importHandle source item bundleAlgId
    let privateHandles ← importHandles rest
    return privHandle :: privateHandles

/-- `import_keyset_bytes` behind the decryption. -/
def importPayload (env : Env H) (payload : Json) : Except Exc (KeySet H) := do
  let (keystoreProfileId, profile) ← importProfile env payload
  let publicBundle ← payload.getItem "public_bundle"
  let bundle ← deserializePublicBundle publicBundle.dumps
  checkBinding keystoreProfileId bundle profile
  let privateHandlesPayload ← payload.get "private_handles" (.arr [])
  match privateHandlesPayload with
  | .arr items =>
    checkCounts profile items bundle
    let privateHandles ← importHandles (profile.sources.zip (items.zip bundle.publicKeys))
    let decision := policyDecision profile "imported from keystore" false profile.profileId
    return { profile, publicBundle := bundle, privateHandles, policyDecision := decision }
  | _ => .error (.decryptionError "invalid private_handles structure")

/-- The KDF that a keystore's magic names. -/
def kdfTypeOf (magic : Bytes) : Except Exc KdfType :=
  if magic = magicKeystoreArgon2 then .ok .argon2id
  else if magic = magicKeystoreScrypt then .ok .scrypt
  else .error (.decryptionError "invalid or unrecognized keystore magic")

def importKeysetBytes (env : Env H) (kdf : PasswordKdf) (data : Bytes) (password : Password) :
    Eff Exc Runtime (KeySet H) := do
  if data.length > maxKeystoreSize then
    Eff.raise (.decryptionError
      s!"keystore exceeds maximum accepted size ({maxKeystoreSize} bytes)") else
  if data.length < 4 + saltLen + nonceLen then
    Eff.raise (.decryptionError "invalid or corrupted keystore format") else
  let magic := data.take 4
  let kdfType ← Eff.lift (kdfTypeOf magic)
  let salt := slice data 4 (4 + saltLen)
  let nonce := slice data (4 + saltLen) (4 + saltLen + nonceLen)
  let ctWithTag := data.drop (4 + saltLen + nonceLen)
  let wrappingKeyBytes ← deriveWrappingKey kdf password salt kdfType
  let wrappingKeyBuf ← Runtime.newBuffer wrappingKeyBytes
  let payload ← Eff.tryFinally
    (Eff.tryCatch (do
      let key ← Runtime.readBuffer wrappingKeyBuf
      let aesgcm ← Eff.lift (AESGCM env.aead key)
      let plaintext ← aesgcmDecrypt env aesgcm nonce ctWithTag magic
      Eff.lift (do
        let text ← PyStr.decode plaintext
        Json.loads text)) fun _ =>
      Eff.raise (.decryptionError "invalid password or corrupted keystore"))
    (Runtime.zeroize wrappingKeyBuf)
  Eff.lift (importPayload env payload)

end CryptoFlex
