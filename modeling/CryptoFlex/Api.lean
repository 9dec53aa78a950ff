import CryptoFlex.Header.Format
import CryptoFlex.Policy.Engine
import CryptoFlex.Runtime

namespace CryptoFlex

open Lib

variable {H : Type}

structure PublicBundle where
  profileId : PyStr
  publicKeys : List (PyStr × Bytes)
  deriving DecidableEq

structure KeySet (H : Type) where
  profile : SecurityProfile H
  publicBundle : PublicBundle
  privateHandles : List H
  policyDecision : PolicyDecision H

structure DerivedRoot where
  rootKey : Bytes
  header : CryptoflexHeader

def generateKeypairs : List (Source H) → Eff Exc Runtime (List (PyStr × Bytes) × List H)
  | [] => return ([], [])
  | source :: rest => do
    let (pub, priv) ← Runtime.sample source.generateKeypair
    let (publicKeys, privateHandles) ← generateKeypairs rest
    return ((source.algorithmId, pub) :: publicKeys, priv :: privateHandles)

def establishKeys (env : Env H) (engine : PolicyEngine) (constraint : Constraint)
    (requireQuantumSafe : Bool) : Eff Exc Runtime (KeySet H) := do
  let decision ← Eff.lift (engine.decide env.profiles constraint requireQuantumSafe)
  let profile := decision.profile
  let (publicKeys, privateHandles) ← generateKeypairs profile.sources
  let bundle : PublicBundle := { profileId := profile.profileId, publicKeys }
  return { profile, publicBundle := bundle, privateHandles, policyDecision := decision }

/-- The encapsulation loop, over the sources zipped with the bundle's keys. -/
def encapsulateAll : List (Source H × PyStr × Bytes) →
    Eff Exc Runtime (List (PyStr × Encapsulation))
  | [] => return []
  | (source, algId, pubKey) :: rest => do
    if source.algorithmId ≠ algId then
      Eff.raise (.valueError ("public bundle component order mismatch: expected " ++
        s!"'{source.algorithmId}', got '{algId}'")) else
    Runtime.record (.encapsulate algId)
    let enc ← Runtime.sample (source.encapsulate pubKey)
    let encapsulations ← encapsulateAll rest
    return (algId, enc) :: encapsulations

def deriveRootKey (env : Env H) (bundle : PublicBundle) : Eff Exc Runtime DerivedRoot := do
  let profile ← Eff.lift (getProfile env.profiles bundle.profileId)
  if profile.sources.length ≠ bundle.publicKeys.length then
    Eff.raise (.valueError (s!"public bundle has {bundle.publicKeys.length} keys but profile " ++
      s!"'{bundle.profileId}' expects {profile.sources.length}")) else
  let encapsulations ← encapsulateAll (profile.sources.zip bundle.publicKeys)
  let combined ← Eff.lift (combine env.hkdf encapsulations)
  let nonce ← Runtime.sample (urandom nonceLen)
  let header : CryptoflexHeader :=
    { profileId := bundle.profileId, components := combined.components, nonce := some nonce }
  return { rootKey := combined.rootKey, header }

/-- The decapsulation loop, over the sources zipped with the handles and the components. -/
def decapsulateAll : List (Source H × H × PyStr × Bytes) →
    Eff Exc Runtime (List (PyStr × Bytes))
  | [] => return []
  | (source, privHandle, algId, ciphertext) :: rest => do
    if source.algorithmId ≠ algId then
      Eff.raise (.valueError ("header component order mismatch: expected " ++
        s!"'{source.algorithmId}', got '{algId}'")) else
    Runtime.record (.decapsulate algId)
    let secret ← Eff.lift (source.decapsulate privHandle ciphertext)
    let sharedSecrets ← decapsulateAll rest
    return (algId, secret) :: sharedSecrets

/-- `_recover_root_key_internal`. -/
def recoverRootKeyInternal (env : Env H) (privateHandles : List H) (header : CryptoflexHeader)
    (profile : SecurityProfile H) : Eff Exc Runtime Bytes := do
  if ¬(profile.sources.length = privateHandles.length ∧
      privateHandles.length = header.components.length) then
    Eff.raise (.valueError ("mismatched component counts between profile/handles/header " ++
      s!"(profile expects {profile.sources.length}, got " ++
      s!"{privateHandles.length} private handles and " ++
      s!"{header.components.length} header components) - refusing to " ++
      "silently derive a key from a subset of sources")) else
  let sharedSecrets ←
    decapsulateAll (profile.sources.zip (privateHandles.zip header.components))
  let combined ← Eff.lift (combineFromSecrets env.hkdf sharedSecrets header.components)
  return combined.rootKey

def downgradeError (headerId : PyStr) (headerStrength : Int) (minId : PyStr) (minStrength : Int) :
    Exc :=
  .downgradeError (s!"header profile '{headerId}' " ++ s!"(strength={headerStrength}) is weaker than " ++
    s!"minimum accepted profile '{minId}' " ++ s!"(strength={minStrength})")

def recoverRootKey (env : Env H) (privateHandles : List H) (header : CryptoflexHeader)
    (minProfile : Option PyStr) : Eff Exc Runtime Bytes := do
  match getProfile env.profiles header.profileId with
  | .error _ => Eff.raise (.decryptionError "decryption failed")
  | .ok headerProfile =>
  let body : Eff Exc Runtime Bytes :=
    Eff.tryCatch (recoverRootKeyInternal env privateHandles header headerProfile) fun e =>
      Eff.raise e.collapse
  match minProfile with
  | none => body
  | some minId =>
    match getProfile env.profiles minId with
    | .error _ => Eff.raise (.decryptionError "decryption failed")
    | .ok minProf =>
      if headerProfile.strengthLevel < minProf.strengthLevel then
        Eff.raise (downgradeError header.profileId headerProfile.strengthLevel minId
          minProf.strengthLevel)
      else body

def encrypt (env : Env H) (bundle : PublicBundle) (plaintext : Bytes) :
    Eff Exc Runtime Bytes := do
  let derived ← deriveRootKey env bundle
  let headerBytes ← Eff.lift derived.header.toBytes
  match derived.header.nonce with
  | none => Eff.raise (.valueError
      "derive_root_key() produced a v1 header with no nonce — cannot encrypt")
  | some nonce =>
  let rootKeyBuf ← Runtime.newBuffer derived.rootKey
  let key ← Runtime.readBuffer rootKeyBuf
  let aesgcm ← Eff.lift (AESGCM env.aead key)
  let ctWithTag ← Eff.tryFinally (aesgcmEncrypt env aesgcm nonce plaintext headerBytes)
    (Runtime.zeroize rootKeyBuf)
  return headerBytes ++ ctWithTag

/-- The check that `decrypt`, `decrypt_stream` and `migrate_stream` make before any
cryptography. -/
def checkDowngrade (env : Env H) (header : CryptoflexHeader) (minProfile : Option PyStr) :
    Except Exc Unit :=
  match minProfile with
  | none => .ok ()
  | some minId =>
    match getProfile env.profiles header.profileId, getProfile env.profiles minId with
    | .ok headerProfile, .ok minProf =>
      if headerProfile.strengthLevel < minProf.strengthLevel then
        .error (downgradeError header.profileId headerProfile.strengthLevel minId
          minProf.strengthLevel)
      else .ok ()
    | _, _ => .error (.decryptionError "decryption failed")

/-- `CryptoflexHeader.from_bytes(data)` under `except HeaderParseError`. -/
def parseHeader (data : Bytes) (msg : String) : Except Exc (CryptoflexHeader × Nat) :=
  match CryptoflexHeader.fromBytes data with
  | .error (.headerParseError _) => .error (.decryptionError msg)
  | r => r

def decrypt (env : Env H) (privateHandles : List H) (blob : Bytes)
    (minProfile : Option PyStr) : Eff Exc Runtime Bytes := do
  let (header, consumed) ← Eff.lift (parseHeader blob "decryption failed")
  Eff.lift (checkDowngrade env header minProfile)
  match header.nonce with
  | none => Eff.raise (.decryptionError "decryption failed")
  | some nonce =>
  Eff.tryCatch (do
    let profile ← Eff.lift (getProfile env.profiles header.profileId)
    let rawRootKey ← recoverRootKeyInternal env privateHandles header profile
    let headerBytes := blob.take consumed
    let aeadPayload := blob.drop consumed
    let rootKeyBuf ← Runtime.newBuffer rawRootKey
    Eff.tryFinally (do
      let key ← Runtime.readBuffer rootKeyBuf
      let aesgcm ← Eff.lift (AESGCM env.aead key)
      aesgcmDecrypt env aesgcm nonce aeadPayload headerBytes)
      (Runtime.zeroize rootKeyBuf)) fun e =>
    Eff.raise e.collapse

def migrate (env : Env H) (privateHandles : List H) (blob : Bytes) (newBundle : PublicBundle)
    (minProfile : Option PyStr) : Eff Exc Runtime Bytes := do
  let plaintext ← decrypt env privateHandles blob minProfile
  encrypt env newBundle plaintext

structure WireMessage where
  encryptedBlob : Bytes

def ephemeralEncrypt (env : Env H) (recipientBundle : PublicBundle) (plaintext : Bytes) :
    Eff Exc Runtime WireMessage := do
  let derived ← deriveRootKey env recipientBundle
  let headerBytes ← Eff.lift derived.header.toBytes
  match derived.header.nonce with
  | none => Eff.raise (.valueError "derive_root_key() returned a v1 header with no nonce")
  | some nonce =>
  let rootKeyBuf ← Runtime.newBuffer derived.rootKey
  let ctWithTag ← Eff.tryFinally (do
    let key ← Runtime.readBuffer rootKeyBuf
    let aesgcm ← Eff.lift (AESGCM env.aead key)
    aesgcmEncrypt env aesgcm nonce plaintext headerBytes)
    (Runtime.zeroize rootKeyBuf)
  return { encryptedBlob := headerBytes ++ ctWithTag }

def ephemeralDecrypt (env : Env H) (privateHandles : List H) (message : WireMessage)
    (minProfile : Option PyStr) : Eff Exc Runtime Bytes :=
  decrypt env privateHandles message.encryptedBlob minProfile

end CryptoFlex
