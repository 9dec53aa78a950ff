import CryptoFlex.Api.KeyRecovery
import CryptoFlex.Header.Canonical

namespace CryptoFlex

open Lib CryptoflexHeader

variable {H : Type}

/-- `P` holds of every exception but the package's decryption errors. -/
def CoversForeign (P : Exc → Prop) : Prop := ∀ e : Exc, e.isDecryptionError = false → P e

theorem notDecryptionError_covers : CoversForeign (·.isDecryptionError = false) := fun _ h => h

theorem notDowngrade_covers : CoversForeign NotDowngrade := by
  intro e h
  cases e <;> first | rfl | cases h

/-- A source raises nothing but `P` when it decapsulates. -/
def Source.DecapsulateRaises (P : Exc → Prop) (s : Source H) : Prop :=
  ∀ handle ct e, s.decapsulate handle ct = .error e → P e

/-- A source raises nothing but `P` when it encapsulates. -/
def Source.EncapsulateRaises (P : Exc → Prop) (s : Source H) : Prop :=
  ∀ pub, Eff.Raises P (s.encapsulate pub)

/-- AES-GCM encryption, constructor included, raises nothing but `P`. -/
structure Aead.EncryptRaises (a : Aead) (P : Exc → Prop) : Prop where
  init : ∀ key e, a.init key = .error e → P e
  encrypt : ∀ key nonce data aad e, a.encrypt key nonce data aad = .error e → P e

/-- AES-GCM decryption, constructor included, raises nothing but `P`. -/
structure Aead.DecryptRaises (a : Aead) (P : Exc → Prop) : Prop where
  init : ∀ key e, a.init key = .error e → P e
  decrypt : ∀ key nonce ct aad e, a.decrypt key nonce ct aad = .error e → P e

theorem pack_raises {w : Nat} {v : Int} {e : Exc} (h : pack w v = .error e) : e = .structError := by
  unfold pack at h
  split at h <;> cases h
  rfl

theorem encode_raises {s : PyStr} {e : Exc} (h : s.encode = .error e) : e = .unicodeEncodeError := by
  cases s with
  | text s => cases h
  | surrogates codes =>
    cases h
    rfl

theorem encodeComponents_raises {components : List (PyStr × Bytes)} {e : Exc}
    (h : encodeComponents components = .error e) : e.isDecryptionError = false := by
  induction components generalizing e with
  | nil => cases h
  | cons c cs ih =>
    obtain ⟨algId, ciphertext⟩ := c
    rw [encodeComponents] at h
    rcases bind_eq_error.mp h with h | ⟨algBytes, -, h⟩
    · simp [encode_raises h, Exc.isDecryptionError]
    rcases bind_eq_error.mp h with h | ⟨algLen, -, h⟩
    · simp [pack_raises h, Exc.isDecryptionError]
    rcases bind_eq_error.mp h with h | ⟨ctLen, -, h⟩
    · simp [pack_raises h, Exc.isDecryptionError]
    rcases bind_eq_error.mp h with h | ⟨tail, -, h⟩
    · exact ih h
    · cases h

theorem encodeInfo_raises {context : Bytes} {components : List (PyStr × Bytes)} {specVersion : Int}
    {e : Exc} (h : encodeInfo context components specVersion = .error e) :
    e.isDecryptionError = false := by
  rw [encodeInfo] at h
  rcases bind_eq_error.mp h with h | ⟨version, -, h⟩
  · simp [pack_raises h, Exc.isDecryptionError]
  rcases bind_eq_error.mp h with h | ⟨contextLen, -, h⟩
  · simp [pack_raises h, Exc.isDecryptionError]
  rcases bind_eq_error.mp h with h | ⟨numComponents, -, h⟩
  · simp [pack_raises h, Exc.isDecryptionError]
  rcases bind_eq_error.mp h with h | ⟨out, -, h⟩
  · exact encodeComponents_raises h
  · cases h

theorem combine_raises {hkdf : Hkdf} {encs : List (PyStr × Encapsulation)} {context : Bytes}
    {e : Exc} (h : combine hkdf encs context = .error e) : e.isDecryptionError = false := by
  unfold combine at h
  by_cases hne : encs = []
  · rw [if_pos hne] at h
    cases h
    rfl
  · rw [if_neg hne] at h
    rcases bind_eq_error.mp h with h | ⟨info, -, h⟩
    · exact encodeInfo_raises h
    · cases h

theorem combineFromSecrets_raises {hkdf : Hkdf} {secrets components : List (PyStr × Bytes)}
    {context : Bytes} {e : Exc} (h : combineFromSecrets hkdf secrets components context = .error e) :
    e.isDecryptionError = false := by
  unfold combineFromSecrets at h
  dsimp only at h
  by_cases hids : secrets.map Prod.fst = components.map Prod.fst
  · rw [if_neg (not_not.mpr hids)] at h
    rcases bind_eq_error.mp h with h | ⟨info, -, h⟩
    · exact encodeInfo_raises h
    · cases h
  · rw [if_pos hids] at h
    cases h
    rfl

theorem getProfile_raises {profiles : Registry H} {id : PyStr} {e : Exc}
    (h : getProfile profiles id = .error e) : e.isDecryptionError = false := by
  obtain ⟨-, m, rfl⟩ := getProfile_error h
  rfl

theorem AESGCM_raises {P : Exc → Prop} {aead : Aead}
    (hinit : ∀ key e, aead.init key = .error e → P e) {key : Bytes} {e : Exc}
    (h : AESGCM aead key = .error e) : P e := by
  unfold AESGCM at h
  cases hkey : aead.init key with
  | ok u =>
    rw [hkey] at h
    cases h
  | error e' =>
    rw [hkey] at h
    cases h
    exact hinit key _ hkey

section Raises

variable {P : Exc → Prop}

theorem record_raises (e : Event) : Eff.Raises P (Runtime.record e) := Eff.Raises.modify _

theorem newBuffer_raises (b : Bytes) : Eff.Raises P (Runtime.newBuffer b) := by
  intro rt e t h
  cases h

theorem readBuffer_raises (buf : Nat) : Eff.Raises P (Runtime.readBuffer buf) := by
  intro rt e t h
  cases h

theorem zeroize_raises (buf : Nat) : Eff.Raises P (Runtime.zeroize buf) := Eff.Raises.modify _

theorem aesgcmEncrypt_raises {env : Env H} (ha : env.aead.EncryptRaises P)
    (key nonce data aad : Bytes) : Eff.Raises P (aesgcmEncrypt env key nonce data aad) :=
  Eff.Raises.bind (record_raises _) fun _ => Eff.Raises.lift (ha.encrypt key nonce data aad)

theorem aesgcmDecrypt_raises {env : Env H} (ha : env.aead.DecryptRaises P)
    (key nonce data aad : Bytes) : Eff.Raises P (aesgcmDecrypt env key nonce data aad) :=
  Eff.Raises.bind (record_raises _) fun _ => Eff.Raises.lift (ha.decrypt key nonce data aad)

theorem decapsulateAll_raises (hP : CoversForeign P) (l : List (Source H × H × PyStr × Bytes))
    (hl : ∀ entry ∈ l, entry.1.DecapsulateRaises P) : Eff.Raises P (decapsulateAll l) := by
  induction l with
  | nil => exact Eff.Raises.pure _
  | cons entry l ih =>
    obtain ⟨source, handle, algId, ct⟩ := entry
    rw [decapsulateAll]
    split
    · exact Eff.Raises.raise (hP _ rfl)
    · refine Eff.Raises.bind (record_raises _) ?_
      intro _
      refine Eff.Raises.bind (Eff.Raises.lift (hl _ List.mem_cons_self handle ct)) ?_
      intro secret
      refine Eff.Raises.bind (ih fun entry hentry => hl entry (List.mem_cons_of_mem _ hentry)) ?_
      intro secrets
      exact Eff.Raises.pure _

theorem recoverRootKeyInternal_raises (hP : CoversForeign P) (env : Env H) (handles : List H)
    (header : CryptoflexHeader) {profile : SecurityProfile H}
    (hs : ∀ s ∈ profile.sources, s.DecapsulateRaises P) :
    Eff.Raises P (recoverRootKeyInternal env handles header profile) := by
  unfold recoverRootKeyInternal
  split
  · exact Eff.Raises.raise (hP _ rfl)
  · have hall := decapsulateAll_raises hP
      (profile.sources.zip (handles.zip header.components)) fun entry hentry =>
        hs entry.1 (List.of_mem_zip hentry).1
    refine Eff.Raises.bind hall ?_
    intro secrets
    refine Eff.Raises.bind (Eff.Raises.lift fun e he => hP e (combineFromSecrets_raises he)) ?_
    intro combined
    exact Eff.Raises.pure _

end Raises

theorem componentToBytes_raises {c : PyStr × Bytes} {e : Exc}
    (h : componentToBytes c = .error e) : e.isDecryptionError = false := by
  unfold componentToBytes at h
  rcases bind_eq_error.mp h with h | ⟨algBytes, -, h⟩
  · simp [encode_raises h, Exc.isDecryptionError]
  split at h
  · cases h
    rfl
  split at h
  · cases h
    rfl
  rcases bind_eq_error.mp h with h | ⟨algLen, -, h⟩
  · simp [pack_raises h, Exc.isDecryptionError]
  rcases bind_eq_error.mp h with h | ⟨ctLen, -, h⟩
  · simp [pack_raises h, Exc.isDecryptionError]
  · cases h

theorem componentsToBytes_raises {cs : List (PyStr × Bytes)} {e : Exc}
    (h : componentsToBytes cs = .error e) : e.isDecryptionError = false := by
  induction cs generalizing e with
  | nil => cases h
  | cons c cs ih =>
    rw [componentsToBytes] at h
    rcases bind_eq_error.mp h with h | ⟨out, -, h⟩
    · exact componentToBytes_raises h
    rcases bind_eq_error.mp h with h | ⟨tail, -, h⟩
    · exact ih h
    · cases h

theorem nonceToBytes_raises {version : Int} {nonce : Option Bytes} {e : Exc}
    (h : nonceToBytes version nonce = .error e) : e.isDecryptionError = false := by
  unfold nonceToBytes at h
  split at h
  · cases h
  split at h
  · cases h
    rfl
  · split at h
    · cases h
      rfl
    · split at h <;> cases h
      rfl

theorem toBytes_raises {header : CryptoflexHeader} {e : Exc} (h : header.toBytes = .error e) :
    e.isDecryptionError = false := by
  unfold toBytes at h
  split at h
  · cases h
    rfl
  rcases bind_eq_error.mp h with h | ⟨version, -, h⟩
  · simp [pack_raises h, Exc.isDecryptionError]
  rcases bind_eq_error.mp h with h | ⟨profileBytes, -, h⟩
  · simp [encode_raises h, Exc.isDecryptionError]
  split at h
  · cases h
    rfl
  rcases bind_eq_error.mp h with h | ⟨profileLen, -, h⟩
  · simp [pack_raises h, Exc.isDecryptionError]
  split at h
  · cases h
    rfl
  rcases bind_eq_error.mp h with h | ⟨numComponents, -, h⟩
  · simp [pack_raises h, Exc.isDecryptionError]
  rcases bind_eq_error.mp h with h | ⟨components, -, h⟩
  · exact componentsToBytes_raises h
  rcases bind_eq_error.mp h with h | ⟨nonce, -, h⟩
  · exact nonceToBytes_raises h
  · cases h

/-- The sources of the registry raise nothing but `P` when they encapsulate. -/
def Env.EncapsulateRaises (env : Env H) (P : Exc → Prop) : Prop :=
  ∀ id profile, env.profiles.lookup id = some profile →
    ∀ s ∈ profile.sources, s.EncapsulateRaises P

section Raises

variable {P : Exc → Prop}

theorem encapsulateAll_raises (hP : CoversForeign P) (l : List (Source H × PyStr × Bytes))
    (hl : ∀ entry ∈ l, entry.1.EncapsulateRaises P) : Eff.Raises P (encapsulateAll l) := by
  induction l with
  | nil => exact Eff.Raises.pure _
  | cons entry l ih =>
    obtain ⟨source, algId, pub⟩ := entry
    rw [encapsulateAll]
    split
    · exact Eff.Raises.raise (hP _ rfl)
    · refine Eff.Raises.bind (record_raises _) ?_
      intro _
      refine Eff.Raises.bind (Eff.Raises.zoom (hl _ List.mem_cons_self pub)) ?_
      intro enc
      refine Eff.Raises.bind (ih fun entry hentry => hl entry (List.mem_cons_of_mem _ hentry)) ?_
      intro encs
      exact Eff.Raises.pure _

theorem deriveRootKey_raises (hP : CoversForeign P) {env : Env H} (hs : env.EncapsulateRaises P)
    (bundle : PublicBundle) : Eff.Raises P (deriveRootKey env bundle) := by
  unfold deriveRootKey
  refine Eff.Raises.lift_bind (fun e he => hP e (getProfile_raises he)) ?_
  intro profile hprofile
  have hreg := getProfile_eq_ok.mp hprofile
  split
  · exact Eff.Raises.raise (hP _ rfl)
  · have hall := encapsulateAll_raises hP (profile.sources.zip bundle.publicKeys)
      fun entry hentry => hs _ _ hreg entry.1 (List.of_mem_zip hentry).1
    refine Eff.Raises.bind hall ?_
    intro encs
    refine Eff.Raises.bind (Eff.Raises.lift fun e he => hP e (combine_raises he)) ?_
    intro combined
    have hurandom : Eff.Raises P (Runtime.sample (urandom nonceLen)) := by
      intro rt e t h
      cases h
    refine Eff.Raises.bind hurandom ?_
    intro nonce
    exact Eff.Raises.pure _

theorem encrypt_raises (hP : CoversForeign P) {env : Env H} (hs : env.EncapsulateRaises P)
    (ha : env.aead.EncryptRaises P) (bundle : PublicBundle) (plaintext : Bytes) :
    Eff.Raises P (encrypt env bundle plaintext) := by
  unfold encrypt
  refine Eff.Raises.bind (deriveRootKey_raises hP hs bundle) ?_
  intro derived
  refine Eff.Raises.bind (Eff.Raises.lift fun e he => hP e (toBytes_raises he)) ?_
  intro headerBytes
  split
  · exact Eff.Raises.raise (hP _ rfl)
  · next nonce _ =>
    refine Eff.Raises.bind (newBuffer_raises _) ?_
    intro rootKeyBuf
    refine Eff.Raises.bind (readBuffer_raises _) ?_
    intro key
    refine Eff.Raises.bind (Eff.Raises.lift fun _ => AESGCM_raises ha.init) ?_
    intro aesgcm
    have hseal := aesgcmEncrypt_raises ha aesgcm nonce plaintext headerBytes
    refine Eff.Raises.bind (Eff.Raises.tryFinally hseal (zeroize_raises _)) ?_
    intro ctWithTag
    exact Eff.Raises.pure _

end Raises

/-- Besides a downgrade there is one failure only. -/
def Uniform (e : Exc) : Prop :=
  e.isDowngradeError = true ∨ e = .decryptionError "decryption failed"

theorem collapse_uniform {e : Exc} (h : e.isDecryptionError = false) : Uniform e.collapse := by
  unfold Exc.collapse
  rw [h]
  exact Or.inr rfl

theorem parseHeader_raises {data : Bytes} {msg : String} {e : Exc}
    (h : parseHeader data msg = .error e) : e = .decryptionError msg := by
  unfold parseHeader at h
  split at h
  · cases h
    rfl
  · next hne =>
    obtain ⟨m, rfl⟩ := fromBytes_error h
    exact absurd h (hne m)

theorem checkDowngrade_raises {env : Env H} {header : CryptoflexHeader} {minProfile : Option PyStr}
    {e : Exc} (h : checkDowngrade env header minProfile = .error e) : Uniform e := by
  unfold checkDowngrade at h
  split at h
  · cases h
  · split at h
    · split at h
      · cases h
        exact Or.inl rfl
      · cases h
    · cases h
      exact Or.inr rfl

/-- The sources of the registry raise nothing but `P` when they decapsulate. -/
def Env.DecapsulateRaises (env : Env H) (P : Exc → Prop) : Prop :=
  ∀ id profile, env.profiles.lookup id = some profile →
    ∀ s ∈ profile.sources, s.DecapsulateRaises P

/-- Under the outer handler of `decrypt`: from the profile to the opened plaintext. -/
theorem openBlob_raises {P : Exc → Prop} (hP : CoversForeign P) {env : Env H}
    (hs : env.DecapsulateRaises P) (ha : env.aead.DecryptRaises P) (handles : List H)
    (blob : Bytes) (header : CryptoflexHeader) (consumed : Nat) (nonce : Bytes) :
    Eff.Raises P (do
      let profile ← Eff.lift (getProfile env.profiles header.profileId)
      let rawRootKey ← recoverRootKeyInternal env handles header profile
      let headerBytes := blob.take consumed
      let aeadPayload := blob.drop consumed
      let rootKeyBuf ← Runtime.newBuffer rawRootKey
      Eff.tryFinally (do
        let key ← Runtime.readBuffer rootKeyBuf
        let aesgcm ← Eff.lift (AESGCM env.aead key)
        aesgcmDecrypt env aesgcm nonce aeadPayload headerBytes)
        (Runtime.zeroize rootKeyBuf)) := by
  refine Eff.Raises.lift_bind (fun e he => hP e (getProfile_raises he)) ?_
  intro profile hprofile
  have hreg := getProfile_eq_ok.mp hprofile
  refine Eff.Raises.bind (recoverRootKeyInternal_raises hP env handles header (hs _ _ hreg)) ?_
  intro rawRootKey
  refine Eff.Raises.bind (newBuffer_raises _) ?_
  intro rootKeyBuf
  refine Eff.Raises.tryFinally ?_ (zeroize_raises _)
  refine Eff.Raises.bind (readBuffer_raises _) ?_
  intro key
  refine Eff.Raises.lift_bind (fun _ => AESGCM_raises ha.init) ?_
  intro aesgcm _
  exact aesgcmDecrypt_raises ha _ _ _ _

theorem decrypt_raises {P Q : Exc → Prop} (hP : CoversForeign P) {env : Env H}
    (hs : env.DecapsulateRaises P) (ha : env.aead.DecryptRaises P)
    (hQ : ∀ e, Uniform e → Q e) (hcollapse : ∀ e, P e → Q e.collapse) (handles : List H)
    (blob : Bytes) (minProfile : Option PyStr) :
    Eff.Raises Q (decrypt env handles blob minProfile) := by
  have hfailed : Q (.decryptionError "decryption failed") := hQ _ (Or.inr rfl)
  unfold decrypt
  have hparse : ∀ e, parseHeader blob "decryption failed" = .error e → Q e := by
    intro e he
    rw [parseHeader_raises he]
    exact hfailed
  refine Eff.Raises.bind (Eff.Raises.lift hparse) ?_
  intro parsed
  refine Eff.Raises.bind (Eff.Raises.lift fun e he => hQ e (checkDowngrade_raises he)) ?_
  intro _
  split
  · exact Eff.Raises.raise hfailed
  · next nonce _ =>
    refine Eff.Raises.tryCatch (openBlob_raises hP hs ha handles blob parsed.1 parsed.2 nonce) ?_
    intro e he
    exact Eff.Raises.raise (hcollapse e he)

theorem recoverRootKey_raises {P Q : Exc → Prop} (hP : CoversForeign P) {env : Env H}
    (hs : env.DecapsulateRaises P) (hQ : ∀ e, Uniform e → Q e)
    (hcollapse : ∀ e, P e → Q e.collapse) (handles : List H) (header : CryptoflexHeader)
    (minProfile : Option PyStr) :
    Eff.Raises Q (recoverRootKey env handles header minProfile) := by
  have hfailed : Q (.decryptionError "decryption failed") := hQ _ (Or.inr rfl)
  unfold recoverRootKey
  split
  · exact Eff.Raises.raise hfailed
  · next profile hprofile =>
    have hreg := getProfile_eq_ok.mp hprofile
    have hbody : Eff.Raises Q (Eff.tryCatch (recoverRootKeyInternal env handles header profile)
        fun e => Eff.raise e.collapse) := by
      refine Eff.Raises.tryCatch (recoverRootKeyInternal_raises hP env handles header (hs _ _ hreg)) ?_
      intro e he
      exact Eff.Raises.raise (hcollapse e he)
    dsimp only
    split
    · exact hbody
    · split
      · exact Eff.Raises.raise hfailed
      · split
        · exact Eff.Raises.raise (hQ _ (Or.inl rfl))
        · exact hbody

/-- Whatever the sources do, a blob that is not read fails with the one message, or as a
downgrade. -/
theorem decrypt_uniform (env : Env H) (hs : env.DecapsulateRaises (·.isDecryptionError = false))
    (ha : env.aead.DecryptRaises (·.isDecryptionError = false)) (handles : List H)
    (minProfile : Option PyStr) (rt : Runtime) :
    (∀ blob e, ((decrypt env handles blob minProfile).run rt).1 = .error e → Uniform e) ∧
    (∀ message e, ((ephemeralDecrypt env handles message minProfile).run rt).1 = .error e →
      Uniform e) ∧
    ∀ header e, ((recoverRootKey env handles header minProfile).run rt).1 = .error e →
      Uniform e := by
  have hdecrypt := decrypt_raises notDecryptionError_covers hs ha (fun _ h => h)
    (fun _ h => collapse_uniform h) handles
  have hrecover := recoverRootKey_raises notDecryptionError_covers hs (fun _ h => h)
    (fun _ h => collapse_uniform h) handles
  refine ⟨?_, ?_, ?_⟩
  · intro blob e h
    exact hdecrypt blob minProfile rt e _ (Prod.ext h rfl)
  · intro message e h
    exact hdecrypt message.encryptedBlob minProfile rt e _ (Prod.ext h rfl)
  · intro header e h
    exact hrecover header minProfile rt e _ (Prod.ext h rfl)

theorem classicalSource_xor_raises {K : Type} :
    (classicalSource xorX25519 : Source (PrivateHandle Bytes K)).DecapsulateRaises
      (·.isDecryptionError = false) := by
  intro handle ct e h
  cases handle with
  | oqs kem =>
    cases h
    rfl
  | x25519 key =>
    simp only [classicalSource, PrivateHandle.asX25519, ok_bind, xorX25519] at h
    split at h
    · cases h
    · cases h
      rfl

theorem pqcSource_xor_raises {K : Type} (kemName : String) :
    (pqcSource xorOqs kemName : Source (PrivateHandle K Bytes)).DecapsulateRaises
      (·.isDecryptionError = false) := by
  intro handle ct e h
  simp only [pqcSource] at h
  rcases bind_eq_error.mp h with h | ⟨_, -, h⟩
  · unfold pqcRequireAvailable at h
    split at h <;> cases h
    rfl
  rcases bind_eq_error.mp h with h | ⟨kem, -, h⟩
  · cases handle <;> cases h
    rfl
  · simp only [xorOqs] at h
    split at h <;> cases h
    rfl

theorem classicalSource_xor_encapsulateRaises {K : Type} {P : Exc → Prop} (hP : CoversForeign P) :
    (classicalSource xorX25519 : Source (PrivateHandle Bytes K)).EncapsulateRaises P := by
  intro pub
  have hgenerate : Eff.Raises P xorX25519.generate := by
    intro pool e t h
    cases h
  refine Eff.Raises.bind hgenerate ?_
  intro ephPriv
  refine Eff.Raises.bind (Eff.Raises.lift ?_) ?_
  · intro e he
    simp only [xorX25519] at he
    split at he <;> cases he
    exact hP _ rfl
  · intro peerPub
    refine Eff.Raises.bind (Eff.Raises.lift ?_) fun _ => Eff.Raises.pure _
    intro e he
    cases he

theorem pqcSource_xor_encapsulateRaises {K : Type} {P : Exc → Prop} (hP : CoversForeign P)
    (kemName : String) :
    (pqcSource xorOqs kemName : Source (PrivateHandle K Bytes)).EncapsulateRaises P := by
  intro pub
  refine Eff.Raises.bind (Eff.Raises.lift ?_) ?_
  · intro e he
    unfold pqcRequireAvailable at he
    split at he <;> cases he
    exact hP _ rfl
  · intro _
    have hencap : Eff.Raises P (xorOqs.encapSecret kemName pub) := by
      intro pool e t h
      cases h
    exact Eff.Raises.bind hencap fun _ => Eff.Raises.pure _

theorem xorEnv_encapsulateRaises {P : Exc → Prop} (hP : CoversForeign P) (aead : Aead) :
    (xorEnv aead).EncapsulateRaises P := by
  intro id profile h
  exact profileRegistry_sources (classicalSource_xor_encapsulateRaises hP)
    (fun kemName _ => pqcSource_xor_encapsulateRaises hP kemName) h

theorem xorEnv_decapsulateRaises (aead : Aead) :
    (xorEnv aead).DecapsulateRaises (·.isDecryptionError = false) := by
  intro id profile h
  exact profileRegistry_sources classicalSource_xor_raises
    (fun kemName _ => pqcSource_xor_raises kemName) h

theorem Aead.Documented.decryptRaises {a : Aead} (ha : a.Documented) :
    a.DecryptRaises (·.isDecryptionError = false) := ⟨ha.init_raises, ha.decrypt_raises⟩

/-- A blob with a good header and a wrong tag. -/
theorem decrypt_uniform_forged : ∃ e,
    ((decrypt (xorEnv zeroTagAead) zeroHandles (zeroHeaderBytes ++ List.replicate 16 1) none).run
      zeroRuntime).1 = .error e ∧ Uniform e := by
  have hforged : ((decrypt (xorEnv zeroTagAead) zeroHandles (zeroHeaderBytes ++ List.replicate 16 1)
      none).run zeroRuntime).1 = .error (.decryptionError "decryption failed") := by
    decide +kernel
  exact ⟨_, hforged, (decrypt_uniform _ (xorEnv_decapsulateRaises zeroTagAead)
    zeroTagAead_correct.toDocumented.decryptRaises zeroHandles none zeroRuntime).1 _ _ hforged⟩

end CryptoFlex
