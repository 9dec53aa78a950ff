import CryptoFlex.Combiner
import CryptoFlex.Profiles

namespace CryptoFlex

open Lib

/-- AES-GCM as the `cryptography` package offers it: the constructor, which may refuse a key, and
the two methods on key, nonce, data and associated data. -/
structure Aead where
  init : Bytes → Except Exc Unit
  encrypt : Bytes → Bytes → Bytes → Bytes → Except Exc Bytes
  decrypt : Bytes → Bytes → Bytes → Bytes → Except Exc Bytes

/-- The documented behaviour of the constructor and of `decrypt`: a key of 256 bits is taken, the tag
takes 16 bytes, and no failure is one of the package's own. -/
structure Aead.Documented (a : Aead) : Prop where
  init_ok : ∀ key, key.length = 32 → a.init key = .ok ()
  init_raises : ∀ key e, a.init key = .error e → e.isDecryptionError = false
  decrypt_length : ∀ key nonce ct aad pt, a.decrypt key nonce ct aad = .ok pt →
    ct.length = pt.length + 16
  decrypt_raises : ∀ key nonce ct aad e, a.decrypt key nonce ct aad = .error e →
    e.isDecryptionError = false

/-- AES-GCM under a 256-bit key and a 96-bit nonce: inputs of less than 2^31 bytes are encrypted,
with a tag of 16 bytes, and decryption undoes it. -/
structure Aead.Correct (a : Aead) : Prop extends a.Documented where
  encrypt_ok : ∀ key nonce data aad, key.length = 32 → nonce.length = 12 →
    data.length < 2 ^ 31 → aad.length < 2 ^ 31 → ∃ ct, a.encrypt key nonce data aad = .ok ct
  decrypt_encrypt : ∀ key nonce data aad ct, a.encrypt key nonce data aad = .ok ct →
    ct.length = data.length + 16 ∧ a.decrypt key nonce ct aad = .ok data

/-- `aesgcm.encrypt` takes this plaintext, whatever the key and the nonce. -/
def Aead.Accepts (a : Aead) (plaintext : Bytes) : Prop :=
  ∀ key nonce aad, key.length = 32 → nonce.length = 12 → aad.length < 2 ^ 31 →
    ∃ ct, a.encrypt key nonce plaintext aad = .ok ct

theorem Aead.Correct.accepts {a : Aead} (ha : a.Correct) {plaintext : Bytes}
    (h : plaintext.length < 2 ^ 31) : a.Accepts plaintext :=
  fun key nonce aad hkey hnonce haad => ha.encrypt_ok key nonce plaintext aad hkey hnonce h haad

/-- A cipher that satisfies every assumption: the plaintext and a tag of zeros. -/
def zeroTagAead : Aead where
  init key :=
    if key.length = 16 ∨ key.length = 24 ∨ key.length = 32 then .ok ()
    else .error (.valueError "AESGCM key must be 128, 192, or 256 bits.")
  encrypt _ _ data _ := .ok (data ++ List.replicate 16 0)
  decrypt _ _ ct _ :=
    if 16 ≤ ct.length ∧ ct.drop (ct.length - 16) = List.replicate 16 0 then
      .ok (ct.take (ct.length - 16))
    else .error .invalidTag

theorem zeroTagAead_correct : zeroTagAead.Correct where
  init_ok _ h := if_pos (Or.inr (Or.inr h))
  init_raises := by
    intro key e h
    simp only [zeroTagAead] at h
    split at h <;> cases h
    rfl
  decrypt_length := by
    intro key nonce ct aad pt h
    simp only [zeroTagAead] at h
    split at h
    · next hct =>
      cases h
      rw [List.length_take]
      omega
    · cases h
  decrypt_raises := by
    intro key nonce ct aad e h
    simp only [zeroTagAead] at h
    split at h <;> cases h
    rfl
  encrypt_ok _ _ data _ _ _ _ _ := ⟨data ++ List.replicate 16 0, rfl⟩
  decrypt_encrypt := by
    intro key nonce data aad ct h
    cases h
    simp [zeroTagAead]

/-- What the package runs on: its profiles and the two symmetric primitives. -/
structure Env (H : Type) where
  profiles : Registry H
  hkdf : Hkdf
  aead : Aead

/-- The package as it is shipped, over its primitives. -/
def builtinEnv {K₁ K₂ : Type} (x : X25519 K₁) (o : Oqs K₂) (hkdf : Hkdf) (aead : Aead) :
    Env (PrivateHandle K₁ K₂) :=
  { profiles := profileRegistry x o, hkdf, aead }

/-- A key derivation that gives the first bytes of its input. -/
def xorHkdf : Hkdf := fun _ ikm => ⟨(ikm ++ List.replicate rootKeyLen 0).take rootKeyLen, by simp⟩

/-- The package on exclusive-or primitives. -/
abbrev xorEnv (aead : Aead) : Env (PrivateHandle Bytes Bytes) :=
  builtinEnv xorX25519 xorOqs xorHkdf aead

/-- The calls of primitives that a run makes. -/
inductive Event
  | encapsulate (algorithmId : PyStr)
  | decapsulate (algorithmId : PyStr)
  | aeadEncrypt (key nonce aad plaintext : Bytes) (result : Except Exc Bytes)
  | aeadDecrypt (key nonce aad data : Bytes) (result : Except Exc Bytes)

/-- A successful `AESGCM.encrypt` call with its output. -/
structure Seal where
  key : Bytes
  nonce : Bytes
  aad : Bytes
  plaintext : Bytes
  ciphertext : Bytes
  deriving DecidableEq

def Event.seal? : Event → Option Seal
  | aeadEncrypt key nonce aad plaintext (.ok ciphertext) =>
    some { key, nonce, aad, plaintext, ciphertext }
  | _ => none

/-- A call of `AESGCM.encrypt`, whatever came of it. -/
structure EncryptCall where
  key : Bytes
  nonce : Bytes
  aad : Bytes
  plaintext : Bytes
  deriving DecidableEq

def Event.encryptCall? : Event → Option EncryptCall
  | aeadEncrypt key nonce aad plaintext _ => some { key, nonce, aad, plaintext }
  | _ => none

/-- A call of `AESGCM.decrypt`, whatever came of it. -/
structure DecryptCall where
  key : Bytes
  nonce : Bytes
  aad : Bytes
  data : Bytes
  deriving DecidableEq

def Event.decryptCall? : Event → Option DecryptCall
  | aeadDecrypt key nonce aad data _ => some { key, nonce, aad, data }
  | _ => none

def Event.isKem : Event → Bool
  | encapsulate _ => true
  | decapsulate _ => true
  | _ => false

/-- The process state: the random pool, the bytearrays in the order of their creation, the
primitive calls made so far, and the free places of the key derivation semaphore. -/
structure Runtime where
  entropy : Entropy
  heap : List Bytes := []
  trace : List Event := []
  kdfPermits : Nat := 2

namespace Runtime

/-- What the process has sealed so far. -/
def seals (rt : Runtime) : List Seal := rt.trace.filterMap Event.seal?

/-- The calls of `AESGCM.encrypt` so far. -/
def encryptCalls (rt : Runtime) : List EncryptCall := rt.trace.filterMap Event.encryptCall?

/-- The calls of `AESGCM.decrypt` so far. -/
def decryptCalls (rt : Runtime) : List DecryptCall := rt.trace.filterMap Event.decryptCall?

def sample {α : Type} (x : Eff Exc Entropy α) : Eff Exc Runtime α :=
  Eff.zoom (·.entropy) (fun pool rt => { rt with entropy := pool }) x

def record (e : Event) : Eff Exc Runtime Unit :=
  Eff.modify fun rt => { rt with trace := rt.trace ++ [e] }

/-- `bytearray(b)`: the new buffer's place in the heap. -/
def newBuffer (b : Bytes) : Eff Exc Runtime Nat := do
  let rt ← Eff.get
  Eff.modify fun rt => { rt with heap := rt.heap ++ [b] }
  return rt.heap.length

/-- `bytes(buf)`. -/
def readBuffer (buf : Nat) : Eff Exc Runtime Bytes := do
  let rt ← Eff.get
  return rt.heap.getD buf []

/-- `zeroize(buf)` on a bytearray. -/
def zeroize (buf : Nat) : Eff Exc Runtime Unit :=
  Eff.modify fun rt => { rt with heap := rt.heap.modify buf fun b => List.replicate b.length 0 }

theorem seals_of_trace {rt rt' : Runtime} {e : Event} (h : rt'.trace = rt.trace ++ [e]) :
    rt'.seals = rt.seals ++ e.seal?.toList := by
  rw [seals, h, List.filterMap_append, seals]
  cases he : e.seal? with
  | none => simp [he]
  | some s => simp [he]

theorem modify_append_cons {α : Type} (f : α → α) (l : List α) (a : α) (r : List α) :
    (l ++ a :: r).modify l.length f = l ++ f a :: r := by
  induction l with
  | nil => rfl
  | cons b l ih => rw [List.cons_append, List.length_cons, List.modify_succ_cons, ih]; rfl

theorem zeroize_run (buf : Nat) (rt : Runtime) : (zeroize buf).run rt =
    (.ok (), { rt with heap := rt.heap.modify buf fun b => List.replicate b.length 0 }) := rfl

theorem newBuffer_run (b : Bytes) (rt : Runtime) :
    (newBuffer b).run rt = (.ok rt.heap.length, { rt with heap := rt.heap ++ [b] }) := rfl

/-- A new buffer holds what it was made of. -/
theorem readBuffer_new (b : Bytes) (rt : Runtime) :
    (readBuffer rt.heap.length).run { rt with heap := rt.heap ++ [b] } =
      (.ok b, { rt with heap := rt.heap ++ [b] }) := by
  have hget : (rt.heap ++ [b]).getD rt.heap.length [] = b := by simp
  rw [readBuffer, Eff.run_get_bind, Eff.run_pure, hget]

end Runtime

/-- A process whose generator gives nothing but zeros. -/
def zeroRuntime : Runtime := { entropy := fun _ => 0 }

/-- `AESGCM(key)`: the cipher object is its key. -/
def AESGCM (aead : Aead) (key : Bytes) : Except Exc Bytes := (aead.init key).map fun _ => key

section Aead

variable {H : Type} (env : Env H)

/-- `aesgcm.encrypt(nonce, data, aad)`. -/
def aesgcmEncrypt (key nonce data aad : Bytes) : Eff Exc Runtime Bytes := do
  let result := env.aead.encrypt key nonce data aad
  Runtime.record (.aeadEncrypt key nonce aad data result)
  Eff.lift result

/-- `aesgcm.decrypt(nonce, data, aad)`. -/
def aesgcmDecrypt (key nonce data aad : Bytes) : Eff Exc Runtime Bytes := do
  let result := env.aead.decrypt key nonce data aad
  Runtime.record (.aeadDecrypt key nonce aad data result)
  Eff.lift result

/-- A frame condition: nothing new is sealed. -/
def SealsNothing (rt rt' : Runtime) : Prop := rt'.seals = rt.seals

/-- A frame condition: `AESGCM.encrypt` is not called. -/
def SameCalls (rt rt' : Runtime) : Prop := rt'.encryptCalls = rt.encryptCalls

/-- A frame condition: `AESGCM.decrypt` is not called. -/
def SameOpenings (rt rt' : Runtime) : Prop := rt'.decryptCalls = rt.decryptCalls

theorem aesgcmEncrypt_run (key nonce data aad : Bytes) (rt : Runtime) :
    (aesgcmEncrypt env key nonce data aad).run rt = (env.aead.encrypt key nonce data aad,
      { rt with trace := rt.trace ++
        [.aeadEncrypt key nonce aad data (env.aead.encrypt key nonce data aad)] }) := rfl

theorem aesgcmDecrypt_run (key nonce data aad : Bytes) (rt : Runtime) :
    (aesgcmDecrypt env key nonce data aad).run rt = (env.aead.decrypt key nonce data aad,
      { rt with trace := rt.trace ++
        [.aeadDecrypt key nonce aad data (env.aead.decrypt key nonce data aad)] }) := rfl

end Aead

theorem AESGCM_of_init {aead : Aead} {key : Bytes} (h : aead.init key = .ok ()) :
    AESGCM aead key = .ok key := by
  rw [AESGCM, h]
  rfl

theorem AESGCM_of_error {aead : Aead} {key : Bytes} {e : Exc} (h : aead.init key = .error e) :
    AESGCM aead key = .error e := by
  rw [AESGCM, h]
  rfl

theorem AESGCM_eq_ok {aead : Aead} {key aesgcm : Bytes} (h : AESGCM aead key = .ok aesgcm) :
    aead.init key = .ok () ∧ aesgcm = key := by
  unfold AESGCM at h
  cases hinit : aead.init key with
  | error e =>
    rw [hinit] at h
    cases h
  | ok u =>
    rw [hinit] at h
    cases h
    exact ⟨rfl, rfl⟩

theorem Aead.Documented.AESGCM_of_length {aead : Aead} (ha : aead.Documented) {key : Bytes}
    (h : key.length = rootKeyLen) : AESGCM aead key = .ok key := AESGCM_of_init (ha.init_ok key h)

/-- The events of a body that calls the cipher `AESGCM(key)` once: none where the constructor
raises. -/
def Aead.traced (aead : Aead) (key : Bytes) (event : Event) : List Event :=
  match aead.init key with
  | .ok _ => [event]
  | .error _ => []

theorem Aead.mem_traced {aead : Aead} {key : Bytes} {event event' : Event}
    (h : event' ∈ aead.traced key event) : event' = event := by
  unfold Aead.traced at h
  split at h
  · exact List.mem_singleton.mp h
  · cases h

/-- Encryption under a key in a buffer of its own: the buffer is wiped whatever comes of it. -/
theorem sealInBuffer_run {H : Type} (env : Env H) (key nonce data aad : Bytes) (rt : Runtime) :
    (Eff.tryFinally (do
      let key ← Runtime.readBuffer rt.heap.length
      let aesgcm ← Eff.lift (AESGCM env.aead key)
      aesgcmEncrypt env aesgcm nonce data aad)
      (Runtime.zeroize rt.heap.length)).run { rt with heap := rt.heap ++ [key] } =
    (env.aead.init key >>= fun _ => env.aead.encrypt key nonce data aad,
      { rt with
        heap := rt.heap ++ [List.replicate key.length 0]
        trace := rt.trace ++ env.aead.traced key
          (.aeadEncrypt key nonce aad data (env.aead.encrypt key nonce data aad)) }) := by
  cases hinit : env.aead.init key with
  | error e =>
    have hbody : (do
        let key ← Runtime.readBuffer rt.heap.length
        let aesgcm ← Eff.lift (AESGCM env.aead key)
        aesgcmEncrypt env aesgcm nonce data aad : Eff Exc Runtime Bytes).run
          { rt with heap := rt.heap ++ [key] } =
        (.error e, { rt with heap := rt.heap ++ [key] }) := by
      rw [Eff.bind_ok (Runtime.readBuffer_new key rt), AESGCM_of_error hinit,
        Eff.run_lift_error_bind]
    apply Eff.tryFinally_run hbody
    rw [Runtime.zeroize_run, Runtime.modify_append_cons, Aead.traced, hinit, List.append_nil]
  | ok u =>
    have hbody : (do
        let key ← Runtime.readBuffer rt.heap.length
        let aesgcm ← Eff.lift (AESGCM env.aead key)
        aesgcmEncrypt env aesgcm nonce data aad : Eff Exc Runtime Bytes).run
          { rt with heap := rt.heap ++ [key] } =
        (aesgcmEncrypt env key nonce data aad).run { rt with heap := rt.heap ++ [key] } := by
      rw [Eff.bind_ok (Runtime.readBuffer_new key rt), AESGCM_of_init hinit, Eff.run_lift_ok_bind]
    rw [aesgcmEncrypt_run] at hbody
    apply Eff.tryFinally_run hbody
    rw [Runtime.zeroize_run, Runtime.modify_append_cons, Aead.traced, hinit]

end CryptoFlex
