import CryptoFlex.Keystore

namespace CryptoFlex

open Lib

variable {H : Type}

/-- With a place free, the semaphore is as it was after the derivation. -/
theorem deriveWrappingKey_run (kdf : PasswordKdf) {password : Password} {pw : Bytes}
    (hpw : password.encode = .ok pw) (hne : pw ≠ []) (salt : Bytes) (kdfType : KdfType)
    {rt : Runtime} (hp : rt.kdfPermits ≠ 0) :
    (deriveWrappingKey kdf password salt kdfType).run rt =
      ((kdf.derive kdfType salt pw).map Subtype.val, rt) := by
  have hacquire : Runtime.acquireKdf.run rt =
      (.ok true, { rt with kdfPermits := rt.kdfPermits - 1 }) := by
    rw [Runtime.acquireKdf, Eff.run_get_bind, if_neg hp]
    rfl
  have hrelease : Runtime.releaseKdf.run { rt with kdfPermits := rt.kdfPermits - 1 } =
      (.ok (), rt) := by
    show (Except.ok (), { rt with kdfPermits := rt.kdfPermits - 1 + 1 }) = _
    rw [Nat.sub_add_cancel (Nat.pos_of_ne_zero hp)]
  unfold deriveWrappingKey
  rw [hpw, Eff.run_lift_ok_bind, if_neg hne, Eff.bind_ok hacquire, if_neg (by simp)]
  cases hderive : kdf.derive kdfType salt pw with
  | ok key => exact Eff.tryFinally_run rfl hrelease
  | error e => exact Eff.tryFinally_run rfl hrelease

/-- The derivation is refused, or called with the encoded password. -/
theorem deriveWrappingKey_cases (kdf : PasswordKdf) (password : Password) (salt : Bytes)
    (kdfType : KdfType) (rt : Runtime) :
    (∃ e, (deriveWrappingKey kdf password salt kdfType).run rt = (.error e, rt)) ∨
    ∃ pw, password.encode = .ok pw ∧ pw ≠ [] ∧ rt.kdfPermits ≠ 0 ∧
      (deriveWrappingKey kdf password salt kdfType).run rt =
        ((kdf.derive kdfType salt pw).map Subtype.val, rt) := by
  cases hpw : password.encode with
  | error e =>
    left
    unfold deriveWrappingKey
    rw [hpw, Eff.run_lift_error_bind]
    exact ⟨e, rfl⟩
  | ok pw =>
  by_cases hne : pw = []
  · left
    unfold deriveWrappingKey
    rw [hpw, Eff.run_lift_ok_bind, if_pos hne]
    exact ⟨_, rfl⟩
  by_cases hp : rt.kdfPermits = 0
  · have hacquire : Runtime.acquireKdf.run rt = (.ok false, rt) := by
      rw [Runtime.acquireKdf, Eff.run_get_bind, if_pos hp]
      rfl
    left
    unfold deriveWrappingKey
    rw [hpw, Eff.run_lift_ok_bind, if_neg hne, Eff.bind_ok hacquire, if_pos (by simp)]
    exact ⟨_, rfl⟩
  · exact Or.inr ⟨pw, rfl, hne, hp, deriveWrappingKey_run kdf hpw hne salt kdfType hp⟩

/-- Whatever comes of it, the process is as it was: the place is given back. -/
theorem deriveWrappingKey_frame (kdf : PasswordKdf) (password : Password) (salt : Bytes)
    (kdfType : KdfType) (rt : Runtime) :
    ((deriveWrappingKey kdf password salt kdfType).run rt).2 = rt := by
  rcases deriveWrappingKey_cases kdf password salt kdfType rt with ⟨e, h⟩ | ⟨pw, -, -, -, h⟩
  · rw [h]
  · rw [h]

/-- A wrapping key comes of a non-empty password and a free place. -/
theorem deriveWrappingKey_eq_ok {kdf : PasswordKdf} {password : Password} {salt : Bytes}
    {kdfType : KdfType} {rt rt' : Runtime} {key : Bytes}
    (h : (deriveWrappingKey kdf password salt kdfType).run rt = (.ok key, rt')) :
    rt' = rt ∧ rt.kdfPermits ≠ 0 ∧ ∃ pw derived, password.encode = .ok pw ∧ pw ≠ [] ∧
      kdf.derive kdfType salt pw = .ok derived ∧ derived.val = key := by
  rcases deriveWrappingKey_cases kdf password salt kdfType rt with
    ⟨e, hrun⟩ | ⟨pw, hpw, hne, hp, hrun⟩
  · rw [hrun] at h
    cases h
  rw [hrun] at h
  obtain ⟨hkey, hrt⟩ := Prod.mk.inj h
  cases hderive : kdf.derive kdfType salt pw with
  | error e =>
    rw [hderive] at hkey
    cases hkey
  | ok derived =>
    rw [hderive] at hkey
    cases hkey
    exact ⟨hrt.symm, hp, pw, derived, hpw, hne, hderive, rfl⟩

/-- The derivation does not raise for this password. -/
def PasswordKdf.Returns (kdf : PasswordKdf) (pw : Bytes) : Prop :=
  ∀ salt, (∃ key, kdf.derive .argon2id salt pw = .ok key) ∧
    ∃ key, kdf.derive .scrypt salt pw = .ok key

theorem kdfTypeOf_cases (magic : Bytes) :
    (magic = magicKeystoreArgon2 ∧ kdfTypeOf magic = .ok .argon2id) ∨
    (magic = magicKeystoreScrypt ∧ kdfTypeOf magic = .ok .scrypt) ∨
    ∃ m, kdfTypeOf magic = .error (.decryptionError m) := by
  unfold kdfTypeOf
  split
  · next h => exact Or.inl ⟨h, rfl⟩
  split
  · next h => exact Or.inr (Or.inl ⟨h, rfl⟩)
  · exact Or.inr (Or.inr ⟨_, rfl⟩)

theorem PasswordKdf.Returns.derive {kdf : PasswordKdf} {pw : Bytes} (h : kdf.Returns pw)
    {magic : Bytes} {kdfType : KdfType} (hm : kdfTypeOf magic = .ok kdfType) (salt : Bytes) :
    ∃ key, kdf.derive kdfType salt pw = .ok key := by
  rcases kdfTypeOf_cases magic with ⟨-, hkdf⟩ | ⟨-, hkdf⟩ | ⟨m, hkdf⟩ <;> rw [hkdf] at hm <;>
    cases hm
  · exact (h salt).1
  · exact (h salt).2

/-- What `import_keyset_bytes` makes of a decrypted payload. -/
def parsePayload (plaintext : Bytes) : Except Exc Json := do
  let text ← PyStr.decode plaintext
  Json.loads text

/-- The payload of a keystore, under the encoded password. -/
def openKeystore (env : Env H) (kdf : PasswordKdf) (data pw : Bytes) : Except Exc Json :=
  if data.length > maxKeystoreSize then
    .error (.decryptionError
      s!"keystore exceeds maximum accepted size ({maxKeystoreSize} bytes)")
  else if data.length < 4 + saltLen + nonceLen then
    .error (.decryptionError "invalid or corrupted keystore format")
  else do
    let kdfType ← kdfTypeOf (data.take 4)
    let key ← kdf.derive kdfType (slice data 4 (4 + saltLen)) pw
    (do
      env.aead.init key.val
      let plaintext ← env.aead.decrypt key.val
        (slice data (4 + saltLen) (4 + saltLen + nonceLen)) (data.drop (4 + saltLen + nonceLen))
        (data.take 4)
      parsePayload plaintext).mapError fun _ =>
    .decryptionError "invalid password or corrupted keystore"

/-- The decryption under its handler, before the buffer is wiped. -/
theorem decryptPayload_run (env : Env H) (key nonce ct magic : Bytes) (rt : Runtime) : ∃ rt',
    rt'.trace = rt.trace ++ env.aead.traced key
      (.aeadDecrypt key nonce magic ct (env.aead.decrypt key nonce ct magic)) ∧
    (Eff.tryFinally
      (Eff.tryCatch (do
        let key ← Runtime.readBuffer rt.heap.length
        let aesgcm ← Eff.lift (AESGCM env.aead key)
        let plaintext ← aesgcmDecrypt env aesgcm nonce ct magic
        Eff.lift (do
          let text ← PyStr.decode plaintext
          Json.loads text)) fun _ =>
        Eff.raise (.decryptionError "invalid password or corrupted keystore"))
      (Runtime.zeroize rt.heap.length)).run { rt with heap := rt.heap ++ [key] } =
    ((do
      env.aead.init key
      let plaintext ← env.aead.decrypt key nonce ct magic
      parsePayload plaintext).mapError fun _ =>
        .decryptionError "invalid password or corrupted keystore", rt') := by
  let rt₁ : Runtime := { rt with heap := rt.heap ++ [key] }
  have hread : (Runtime.readBuffer rt.heap.length).run rt₁ = (.ok key, rt₁) :=
    Runtime.readBuffer_new key rt
  have hrun : ∃ rt₂ : Runtime, rt₂.trace = rt.trace ++ env.aead.traced key
        (.aeadDecrypt key nonce magic ct (env.aead.decrypt key nonce ct magic)) ∧
      (do
        let key ← Runtime.readBuffer rt.heap.length
        let aesgcm ← Eff.lift (AESGCM env.aead key)
        let plaintext ← aesgcmDecrypt env aesgcm nonce ct magic
        Eff.lift (parsePayload plaintext) : Eff Exc Runtime Json).run rt₁ =
      (do
        env.aead.init key
        let plaintext ← env.aead.decrypt key nonce ct magic
        parsePayload plaintext, rt₂) := by
    rw [Eff.bind_ok hread, Aead.traced]
    cases hinit : env.aead.init key with
    | error e =>
      rw [AESGCM_of_error hinit, Eff.run_lift_error_bind]
      exact ⟨rt₁, (List.append_nil _).symm, rfl⟩
    | ok u =>
      rw [AESGCM_of_init hinit, Eff.run_lift_ok_bind]
      exact ⟨_, rfl, Eff.bind_lift (aesgcmDecrypt_run env key nonce ct magic rt₁) parsePayload⟩
  obtain ⟨rt₂, htrace, hrun⟩ := hrun
  have hcatch := Eff.tryCatch_raise hrun fun _ =>
    .decryptionError "invalid password or corrupted keystore"
  have hwiped := Eff.tryFinally_run hcatch (Runtime.zeroize_run rt.heap.length rt₂)
  refine ⟨_, ?_, hwiped⟩
  exact htrace

/-- An import that has its wrapping key: the one call of the cipher is on the fields of the
keystore. -/
theorem importKeysetBytes_run_of_key (env : Env H) {kdf : PasswordKdf} {data : Bytes}
    {password : Password} (hlarge : ¬data.length > maxKeystoreSize)
    (hshort : ¬data.length < 4 + saltLen + nonceLen) {kdfType : KdfType}
    (hkdf : kdfTypeOf (data.take 4) = .ok kdfType) {rt : Runtime} {key : Bytes}
    (hderive : (deriveWrappingKey kdf password (slice data 4 (4 + saltLen)) kdfType).run rt =
      (.ok key, rt)) : ∃ rt',
    rt'.trace = rt.trace ++ env.aead.traced key
      (.aeadDecrypt key (slice data (4 + saltLen) (4 + saltLen + nonceLen))
        (data.take 4) (data.drop (4 + saltLen + nonceLen))
        (env.aead.decrypt key (slice data (4 + saltLen) (4 + saltLen + nonceLen))
          (data.drop (4 + saltLen + nonceLen)) (data.take 4))) ∧
    (importKeysetBytes env kdf data password).run rt =
      (((do
        env.aead.init key
        let plaintext ← env.aead.decrypt key
          (slice data (4 + saltLen) (4 + saltLen + nonceLen))
          (data.drop (4 + saltLen + nonceLen)) (data.take 4)
        parsePayload plaintext).mapError fun _ : Exc =>
          Exc.decryptionError "invalid password or corrupted keystore") >>= importPayload env,
        rt') := by
  obtain ⟨rt', htrace, hrun⟩ := decryptPayload_run env key
    (slice data (4 + saltLen) (4 + saltLen + nonceLen)) (data.drop (4 + saltLen + nonceLen))
    (data.take 4) rt
  refine ⟨rt', htrace, ?_⟩
  unfold importKeysetBytes
  rw [if_neg hlarge, if_neg hshort]
  dsimp only
  rw [hkdf, Eff.run_lift_ok_bind, Eff.bind_ok hderive, Eff.bind_ok (Runtime.newBuffer_run _ _)]
  exact Eff.bind_lift hrun (importPayload env)

/-- With a place free, importing is opening the keystore and reading its payload. -/
theorem importKeysetBytes_outcome (env : Env H) (kdf : PasswordKdf) (data : Bytes)
    {password : Password} {pw : Bytes} (hpw : password.encode = .ok pw) (hne : pw ≠ [])
    {rt : Runtime} (hp : rt.kdfPermits ≠ 0) :
    ((importKeysetBytes env kdf data password).run rt).1 =
      openKeystore env kdf data pw >>= importPayload env := by
  unfold openKeystore
  by_cases hlarge : data.length > maxKeystoreSize
  · unfold importKeysetBytes
    rw [if_pos hlarge, if_pos hlarge]
    rfl
  by_cases hshort : data.length < 4 + saltLen + nonceLen
  · unfold importKeysetBytes
    rw [if_neg hlarge, if_neg hlarge, if_pos hshort, if_pos hshort]
    rfl
  rw [if_neg hlarge, if_neg hshort]
  cases hkdf : kdfTypeOf (data.take 4) with
  | error e =>
    unfold importKeysetBytes
    rw [if_neg hlarge, if_neg hshort]
    dsimp only
    rw [hkdf]
    rfl
  | ok kdfType =>
    have hderive := deriveWrappingKey_run kdf hpw hne (slice data 4 (4 + saltLen)) kdfType hp
    rw [ok_bind]
    cases hkey : kdf.derive kdfType (slice data 4 (4 + saltLen)) pw with
    | error e =>
      rw [hkey] at hderive
      unfold importKeysetBytes
      rw [if_neg hlarge, if_neg hshort]
      dsimp only
      rw [hkdf, Eff.run_lift_ok_bind, Eff.bind_error hderive]
      rfl
    | ok key =>
      rw [hkey] at hderive
      obtain ⟨rt', -, hrun⟩ := importKeysetBytes_run_of_key env hlarge hshort hkdf hderive
      rw [hrun, ok_bind]

/-- Nothing is imported without a non-empty password and a free place. -/
theorem importKeysetBytes_needs {env : Env H} {kdf : PasswordKdf} {data : Bytes}
    {password : Password} {rt rt' : Runtime} {k : KeySet H}
    (h : (importKeysetBytes env kdf data password).run rt = (.ok k, rt')) :
    ∃ pw, password.encode = .ok pw ∧ pw ≠ [] ∧ rt.kdfPermits ≠ 0 := by
  unfold importKeysetBytes at h
  split at h
  · cases h
  split at h
  · cases h
  dsimp only at h
  obtain ⟨kdfType, rt₁, hlift, h⟩ := Eff.bind_eq_ok.mp h
  obtain ⟨-, heq⟩ := Prod.mk.inj hlift
  subst heq
  obtain ⟨key, rt₂, hkey, -⟩ := Eff.bind_eq_ok.mp h
  obtain ⟨-, hp, pw, derived, hpw, hne, -⟩ := deriveWrappingKey_eq_ok hkey
  exact ⟨pw, hpw, hne, hp⟩

/-- Under the encoded password, `data` is a keystore with this authentic JSON document in it. -/
structure SealedPayload (env : Env H) (kdf : PasswordKdf) (pw data : Bytes) (payload : Json) :
    Prop where
  size : data.length ≤ maxKeystoreSize
  parts : ∃ magic salt nonce ct kdfType key plaintext,
    data = magic ++ salt ++ nonce ++ ct ∧ salt.length = saltLen ∧ nonce.length = nonceLen ∧
    kdfTypeOf magic = .ok kdfType ∧ kdf.derive kdfType salt pw = .ok key ∧
    env.aead.init key.val = .ok () ∧ env.aead.decrypt key.val nonce ct magic = .ok plaintext ∧
    parsePayload plaintext = .ok payload

theorem kdfTypeOf_length {magic : Bytes} {kdfType : KdfType} (h : kdfTypeOf magic = .ok kdfType) :
    magic.length = 4 := by
  rcases kdfTypeOf_cases magic with ⟨rfl, -⟩ | ⟨rfl, -⟩ | ⟨m, hkdf⟩
  · rfl
  · rfl
  · rw [hkdf] at h
    cases h

/-- The fields of a keystore are where `import_keyset_bytes` looks for them. -/
theorem keystore_slices {magic salt nonce : Bytes} (ct : Bytes) (hmagic : magic.length = 4)
    (hsalt : salt.length = saltLen) (hnonce : nonce.length = nonceLen) :
    (magic ++ salt ++ nonce ++ ct).take 4 = magic ∧
      slice (magic ++ salt ++ nonce ++ ct) 4 (4 + saltLen) = salt ∧
      slice (magic ++ salt ++ nonce ++ ct) (4 + saltLen) (4 + saltLen + nonceLen) = nonce ∧
      (magic ++ salt ++ nonce ++ ct).drop (4 + saltLen + nonceLen) = ct := by
  have hfour : (magic ++ salt).length = 4 + saltLen := by simp [hmagic, hsalt]
  have hall : (magic ++ salt ++ nonce).length = 4 + saltLen + nonceLen := by
    rw [List.length_append, hfour, hnonce]
  refine ⟨?_, ?_, ?_, List.drop_left' hall⟩
  · rw [List.append_assoc, List.append_assoc, List.take_left' hmagic]
  · rw [slice, List.append_assoc, List.append_assoc, List.drop_left' hmagic,
      List.take_left' (by rw [hsalt]; omega)]
  · rw [slice, List.append_assoc, List.drop_left' hfour, List.take_left' (by rw [hnonce]; omega)]

theorem keystore_split (data : Bytes) :
    data.take 4 ++ slice data 4 (4 + saltLen) ++
      slice data (4 + saltLen) (4 + saltLen + nonceLen) ++
      data.drop (4 + saltLen + nonceLen) = data := by
  have hmagic := List.take_append_drop 4 data
  have hsalt := List.take_append_drop saltLen (data.drop 4)
  have hnonce := List.take_append_drop nonceLen (data.drop (4 + saltLen))
  rw [List.drop_drop] at hsalt hnonce
  rw [slice, slice, Nat.add_sub_cancel_left, Nat.add_sub_cancel_left, List.append_assoc,
    List.append_assoc, hnonce, hsalt, hmagic]

theorem openKeystore_eq_ok {env : Env H} {kdf : PasswordKdf} {data pw : Bytes} {payload : Json} :
    openKeystore env kdf data pw = .ok payload ↔ SealedPayload env kdf pw data payload := by
  constructor
  · intro h
    unfold openKeystore at h
    split at h
    · cases h
    next hlarge =>
    split at h
    · cases h
    next hshort =>
    obtain ⟨kdfType, hkdf, h⟩ := bind_eq_ok.mp h
    obtain ⟨key, hkey, h⟩ := bind_eq_ok.mp h
    cases hinit : env.aead.init key.val with
    | error e => rw [hinit] at h; cases h
    | ok u =>
    rw [hinit, ok_bind] at h
    cases hd : env.aead.decrypt key.val (slice data (4 + saltLen) (4 + saltLen + nonceLen))
        (data.drop (4 + saltLen + nonceLen)) (data.take 4) with
    | error e => rw [hd] at h; cases h
    | ok plaintext =>
    rw [hd, ok_bind] at h
    cases hparse : parsePayload plaintext with
    | error e => rw [hparse] at h; cases h
    | ok j =>
    rw [hparse] at h
    cases h
    refine ⟨Nat.le_of_not_lt hlarge, _, _, _, _, kdfType, key, plaintext, ?_, ?_, ?_, hkdf, hkey,
      hinit, hd, hparse⟩
    · exact (keystore_split data).symm
    · simp only [slice, List.length_take, List.length_drop]
      omega
    · simp only [slice, List.length_take, List.length_drop]
      omega
  · rintro ⟨hsize, magic, salt, nonce, ct, kdfType, key, plaintext, rfl, hsalt, hnonce, hkdf, hkey,
      hinit, hd, hparse⟩
    have hmagic := kdfTypeOf_length hkdf
    obtain ⟨h₁, h₂, h₃, h₄⟩ := keystore_slices ct hmagic hsalt hnonce
    have hlong : ¬(magic ++ salt ++ nonce ++ ct).length < 4 + saltLen + nonceLen := by
      simp only [List.length_append]
      omega
    rw [openKeystore, if_neg (Nat.not_lt.mpr hsize), if_neg hlong, h₁, h₂, h₃, h₄, hkdf, ok_bind,
      hkey, ok_bind, hinit, ok_bind, hd, ok_bind, hparse]
    rfl

end CryptoFlex
