import CryptoFlex.Python
import CryptoFlex.Lib.Effect

namespace CryptoFlex

open Lib

/-- The bytes the operating system's generator will give. -/
abbrev Entropy := Nat → UInt8

/-- `os.urandom(n)`. -/
def urandom (n : Nat) : Eff Exc Entropy Bytes := do
  let pool ← Eff.get
  Eff.modify fun p i => p (n + i)
  return (List.range n).map pool

structure Encapsulation where
  ciphertext : Bytes
  sharedSecret : Bytes

/-- A `SecuritySource`. `H` is the type of its private key handles, which are opaque to callers. -/
structure Source (H : Type) where
  algorithmId : PyStr
  isAvailable : Bool
  generateKeypair : Eff Exc Entropy (Bytes × H)
  encapsulate : Bytes → Eff Exc Entropy Encapsulation
  decapsulate : H → Bytes → Except Exc Bytes
  serializePrivate : H → Except Exc Bytes
  deserializePrivate : Bytes → Except Exc H

/-- What makes a source a KEM: the handle of a generated key recovers every secret encapsulated
to its public key. -/
def Source.Correct {H : Type} (s : Source H) : Prop :=
  ∀ pool pool' pub priv, s.generateKeypair.run pool = (.ok (pub, priv), pool') →
    ∀ coins coins' enc, (s.encapsulate pub).run coins = (.ok enc, coins') →
      s.decapsulate priv enc.ciphertext = .ok enc.sharedSecret

/-- The X25519 operations of the `cryptography` package; `K` is its private key type. -/
structure X25519 (K : Type) where
  generate : Eff Exc Entropy K
  publicBytesRaw : K → Bytes
  fromPublicBytes : Bytes → Except Exc Bytes
  exchange : K → Bytes → Except Exc Bytes
  privateBytesRaw : K → Bytes
  fromPrivateBytes : Bytes → Except Exc K

/-- The `oqs` module; `K` is the type of its live `KeyEncapsulation` objects. Where the import
failed or PQC is disabled, no mechanism is enabled. -/
structure Oqs (K : Type) where
  importError : Option String
  enabled : List String
  generateKeypair : String → Eff Exc Entropy (Bytes × K)
  encapSecret : String → Bytes → Eff Exc Entropy (Bytes × Bytes)
  lengthCiphertext : K → Option Nat
  decapSecret : K → Bytes → Except Exc Bytes
  exportSecretKey : K → Except Exc Bytes
  lengthSecretKey : String → Option Nat
  fromSecretKey : String → Bytes → Except Exc K

/-- The handles of the built-in sources. -/
inductive PrivateHandle (K₁ K₂ : Type)
  | x25519 (key : K₁)
  | oqs (kem : K₂)

namespace PrivateHandle

variable {K₁ K₂ : Type}

/-- Using a handle of another source finds no such attribute on it. -/
def asX25519 : PrivateHandle K₁ K₂ → Except Exc K₁
  | x25519 key => .ok key
  | oqs _ => .error .attributeError

def asOqs : PrivateHandle K₁ K₂ → Except Exc K₂
  | oqs kem => .ok kem
  | x25519 _ => .error .attributeError

end PrivateHandle

section Builtin

variable {K₁ K₂ : Type}

def classicalSource (x : X25519 K₁) : Source (PrivateHandle K₁ K₂) where
  algorithmId := "x25519"
  isAvailable := true
  generateKeypair := do
    let priv ← x.generate
    return (x.publicBytesRaw priv, .x25519 priv)
  encapsulate peerPublicKey := do
    let ephPriv ← x.generate
    let ephPub := x.publicBytesRaw ephPriv
    let peerPub ← Eff.lift (x.fromPublicBytes peerPublicKey)
    let sharedSecret ← Eff.lift (x.exchange ephPriv peerPub)
    return { ciphertext := ephPub, sharedSecret }
  decapsulate handle ciphertext := do
    let priv ← handle.asX25519
    let ephPub ← x.fromPublicBytes ciphertext
    x.exchange priv ephPub
  serializePrivate handle := do
    let priv ← handle.asX25519
    return x.privateBytesRaw priv
  deserializePrivate data := do
    let priv ← x.fromPrivateBytes data
    return .x25519 priv

/-- `kem_name.lower().replace("-", "")`. -/
def pqcAlgorithmId (kemName : String) : PyStr :=
  .text (String.ofList ((kemName.toList.map Char.toLower).filter (· ≠ '-')))

def pqcRequireAvailable (o : Oqs K₂) (kemName : String) : Except Exc Unit :=
  if kemName ∈ o.enabled then .ok () else
  let hint := match o.importError with
    | some e => s!" (import error: {e})"
    | none => ""
  .error (.sourceUnavailable (s!"PQC source '{kemName}' is not available on this " ++
    s!"machine - liboqs may not be installed/built{hint}. " ++
    "See README for installation instructions."))

def pqcSource (o : Oqs K₂) (kemName : String) : Source (PrivateHandle K₁ K₂) where
  algorithmId := pqcAlgorithmId kemName
  isAvailable := decide (kemName ∈ o.enabled)
  generateKeypair := do
    Eff.lift (pqcRequireAvailable o kemName)
    let (pub, kem) ← o.generateKeypair kemName
    return (pub, .oqs kem)
  encapsulate peerPublicKey := do
    Eff.lift (pqcRequireAvailable o kemName)
    let (ciphertext, sharedSecret) ← o.encapSecret kemName peerPublicKey
    return { ciphertext, sharedSecret }
  decapsulate handle ciphertext := do
    pqcRequireAvailable o kemName
    let kem ← handle.asOqs
    match o.lengthCiphertext kem with
    | some expectedLen =>
      if ciphertext.length ≠ expectedLen then
        .error (.valueError (s!"Invalid ciphertext length for {kemName}: " ++
          s!"expected {expectedLen}, got {ciphertext.length}"))
      else o.decapSecret kem ciphertext
    | none => o.decapSecret kem ciphertext
  serializePrivate handle := do
    pqcRequireAvailable o kemName
    let kem ← handle.asOqs
    o.exportSecretKey kem
  deserializePrivate data := do
    pqcRequireAvailable o kemName
    match o.lengthSecretKey kemName with
    | some expectedLen =>
      if data.length ≠ expectedLen then
        .error (.valueError (s!"Invalid private key length for {kemName}: " ++
          s!"expected {expectedLen}, got {data.length}"))
      else (o.fromSecretKey kemName data).map .oqs
    | none => (o.fromSecretKey kemName data).map .oqs

end Builtin

theorem zipWith_xor_cancel (a b : Bytes) (h : a.length = b.length) :
    List.zipWith (· ^^^ ·) (List.zipWith (· ^^^ ·) a b) b = a := by
  induction a generalizing b with
  | nil => simp
  | cons x a ih =>
    cases b with
    | nil => cases h
    | cons y b =>
      simp only [List.zipWith_cons_cons, UInt8.xor_assoc, UInt8.xor_self, UInt8.xor_zero]
      rw [ih b (by simpa using h)]

def xorX25519 : X25519 Bytes where
  generate := urandom 32
  publicBytesRaw key := key
  fromPublicBytes b :=
    if b.length = 32 then .ok b
    else .error (.valueError "An X25519 public key is 32 bytes long")
  exchange key peer := .ok (List.zipWith (· ^^^ ·) key peer)
  privateBytesRaw key := key
  fromPrivateBytes b :=
    if b.length = 32 then .ok b
    else .error (.valueError "An X25519 private key is 32 bytes long")

def xorOqs : Oqs Bytes where
  importError := none
  enabled := ["ML-KEM-768", "ML-KEM-1024"]
  generateKeypair _ := do
    let key ← urandom 32
    return (key, key)
  encapSecret _ pub := do
    let secret ← urandom 32
    return (List.zipWith (· ^^^ ·) secret pub, secret)
  lengthCiphertext _ := some 32
  decapSecret key ct := .ok (List.zipWith (· ^^^ ·) ct key)
  exportSecretKey key := .ok key
  lengthSecretKey _ := some 32
  fromSecretKey _ b := .ok b

theorem xorX25519_fromPublicBytes (pool : Entropy) :
    xorX25519.fromPublicBytes ((List.range 32).map pool) = .ok ((List.range 32).map pool) := by
  simp [xorX25519]

theorem classicalSource_xor_correct {K : Type} :
    (classicalSource xorX25519 : Source (PrivateHandle Bytes K)).Correct := by
  intro pool pool' pub priv hgen coins coins' enc henc
  cases hgen
  have hpub : xorX25519.publicBytesRaw ((List.range 32).map pool) = (List.range 32).map pool := rfl
  have heph : xorX25519.publicBytesRaw ((List.range 32).map coins) = (List.range 32).map coins :=
    rfl
  rw [hpub] at henc
  simp only [classicalSource, xorX25519_fromPublicBytes] at henc ⊢
  cases henc
  rw [heph, xorX25519_fromPublicBytes]
  simp only [PrivateHandle.asX25519, ok_bind, xorX25519]
  rw [List.zipWith_comm_of_comm]
  exact UInt8.xor_comm

theorem pqcSource_xor_correct {K : Type} {kemName : String} (hk : kemName ∈ xorOqs.enabled) :
    (pqcSource xorOqs kemName : Source (PrivateHandle K Bytes)).Correct := by
  have havail : pqcRequireAvailable xorOqs kemName = .ok () := if_pos hk
  intro pool pool' pub priv hgen coins coins' enc henc
  simp only [pqcSource, havail, Eff.run_lift_ok_bind] at hgen henc ⊢
  cases hgen
  cases henc
  have hlen : ((List.range 32).map coins).length = ((List.range 32).map pool).length := by simp
  simp only [ok_bind, PrivateHandle.asOqs, xorOqs]
  rw [if_neg (by simp), zipWith_xor_cancel _ _ hlen]

end CryptoFlex
