import CryptoFlex.Integrity.Blob
import CryptoFlex.Keystore.Reopening

namespace CryptoFlex

open Lib

variable {H : Type}

/-- A call of `export_keyset_bytes`, with the process state it starts in. -/
structure ExportCall (H : Type) where
  rt : Runtime
  keyset : KeySet H
  password : Password
  useArgon2 : Bool

namespace ExportCall

def magic (c : ExportCall H) : Bytes :=
  if c.useArgon2 then magicKeystoreArgon2 else magicKeystoreScrypt

def kdfType (c : ExportCall H) : KdfType :=
  if c.useArgon2 then KdfType.argon2id else KdfType.scrypt

def run (env : Env H) (kdf : PasswordKdf) (c : ExportCall H) : Except Exc Bytes × Runtime :=
  (exportKeysetBytes env kdf c.keyset c.password c.useArgon2).run c.rt.fresh

/-- The outputs of `AESGCM.encrypt` in the call. -/
def seals (env : Env H) (kdf : PasswordKdf) (c : ExportCall H) : List Seal :=
  (c.run env kdf).2.seals

theorem kdfTypeOf_magic (c : ExportCall H) : kdfTypeOf c.magic = .ok c.kdfType := by
  cases h : c.useArgon2 <;> simp [magic, kdfType, h] <;> rfl

theorem magic_length (c : ExportCall H) : c.magic.length = 4 := kdfTypeOf_length c.kdfTypeOf_magic

/-- `sl` is what the call has sealed, and `blob` the keystore around it. -/
structure Made (c : ExportCall H) (env : Env H) (kdf : PasswordKdf) (sl : Seal)
    (blob salt pw : Bytes) : Prop where
  sealed : env.aead.encrypt sl.key sl.nonce sl.plaintext sl.aad = .ok sl.ciphertext
  fields : blob = c.magic ++ salt ++ sl.nonce ++ sl.ciphertext
  saltLength : salt.length = saltLen
  nonceLength : sl.nonce.length = nonceLen
  aad : sl.aad = c.magic
  password : c.password.encode = .ok pw
  key : ∃ derived, kdf.derive c.kdfType salt pw = .ok derived ∧ sl.key = derived.val

/-- A call seals once and returns the keystore, or it raises and has sealed nothing. -/
inductive Outcome (c : ExportCall H) (env : Env H) (kdf : PasswordKdf) :
    Except Exc Bytes → Runtime → Prop
  | raised {e : Exc} {rt' : Runtime} (seals : rt'.seals = []) : Outcome c env kdf (.error e) rt'
  | returned {sl : Seal} {blob salt pw : Bytes} {rt' : Runtime} (seals : rt'.seals = [sl])
    (made : c.Made env kdf sl blob salt pw) : Outcome c env kdf (.ok blob) rt'

theorem run_outcome (env : Env H) (kdf : PasswordKdf) (c : ExportCall H) :
    Eff.Post (exportKeysetBytes env kdf c.keyset c.password c.useArgon2) c.rt.fresh
      (c.Outcome env kdf) := by
  unfold exportKeysetBytes
  cases exportPlaintext c.keyset with
  | error e => exact Outcome.raised rfl
  | ok plaintext =>
  apply Eff.Post.lift_ok
  obtain ⟨salt, rt₁, hsalt, hsaltLen, htrace₁⟩ : ∃ salt rt₁,
      (Runtime.sample (urandom saltLen)).run c.rt.fresh = (.ok salt, rt₁) ∧
      salt.length = saltLen ∧ rt₁.trace = [] := ⟨_, _, rfl, by simp, rfl⟩
  obtain ⟨nonce, rt₂, hnonce, hnonceLen, htrace₂⟩ : ∃ nonce rt₂,
      (Runtime.sample (urandom nonceLen)).run rt₁ = (.ok nonce, rt₂) ∧
      nonce.length = nonceLen ∧ rt₂.trace = [] := ⟨_, _, rfl, by simp, htrace₁⟩
  have hseals : rt₂.seals = [] := by rw [Runtime.seals, htrace₂, List.filterMap_nil]
  apply Eff.Post.bind (Eff.Post.of_eq hsalt _)
  apply Eff.Post.bind (Eff.Post.of_eq hnonce _)
  show Eff.Post (deriveWrappingKey kdf c.password salt c.kdfType >>= _) rt₂ _
  have hframe := deriveWrappingKey_frame kdf c.password salt c.kdfType rt₂
  rcases hderive : (deriveWrappingKey kdf c.password salt c.kdfType).run rt₂ with ⟨_ | key, rt₃⟩
  · rw [hderive] at hframe
    have hrt : rt₃ = rt₂ := hframe
    rw [hrt] at hderive
    apply Eff.Post.bind (Eff.Post.of_eq hderive _)
    exact Outcome.raised hseals
  · obtain ⟨hrt, -, pw, derived, hpw, -, hkdf, hkey⟩ := deriveWrappingKey_eq_ok hderive
    rw [hrt, ← hkey] at hderive
    apply Eff.Post.bind (Eff.Post.of_eq hderive _)
    apply Eff.Post.bind (Eff.Post.of_eq (Runtime.newBuffer_run _ _) _)
    have hseal := sealInBuffer_run env derived.val nonce plaintext c.magic rt₂
    apply Eff.Post.bind (Eff.Post.of_eq hseal _)
    cases hinit : env.aead.init derived.val with
    | error e =>
      apply Outcome.raised
      rw [Runtime.seals, htrace₂, Aead.traced, hinit]
      rfl
    | ok u =>
    cases hct : env.aead.encrypt derived.val nonce plaintext c.magic with
    | error e =>
      apply Outcome.raised
      rw [Runtime.seals, htrace₂, Aead.traced, hinit]
      rfl
    | ok ct =>
      let sl : Seal := ⟨derived.val, nonce, c.magic, plaintext, ct⟩
      have hmade : c.Made env kdf sl (c.magic ++ salt ++ nonce ++ ct) salt pw :=
        ⟨hct, rfl, hsaltLen, hnonceLen, rfl, hpw, derived, hkdf, rfl⟩
      apply Outcome.returned _ hmade
      rw [Runtime.seals, htrace₂, Aead.traced, hinit]
      rfl

theorem Outcome.of_run {env : Env H} {kdf : PasswordKdf} {c : ExportCall H} {r : Except Exc Bytes}
    {rt' : Runtime} (h : c.run env kdf = (r, rt')) : c.Outcome env kdf r rt' :=
  (run_outcome env kdf c).elim h

/-- An export uses the cipher for encryption only. -/
theorem run_congr {env env' : Env H} (hinit : env.aead.init = env'.aead.init)
    (h : env.aead.encrypt = env'.aead.encrypt) (kdf : PasswordKdf) (c : ExportCall H) :
    c.run env kdf = c.run env' kdf := by
  unfold run exportKeysetBytes aesgcmEncrypt AESGCM
  rw [h, hinit]

theorem of_mem_seals {env : Env H} {kdf : PasswordKdf} {c : ExportCall H} {sl : Seal}
    (h : sl ∈ c.seals env kdf) :
    ∃ blob salt pw, (c.run env kdf).1 = .ok blob ∧ c.Made env kdf sl blob salt pw := by
  rcases hrun : c.run env kdf with ⟨r, rt'⟩
  rw [seals, hrun] at h
  cases Outcome.of_run hrun with
  | raised seals =>
    rw [seals] at h
    cases h
  | @returned sl' blob salt pw _ seals made =>
    rw [seals] at h
    have hsl := List.mem_singleton.mp h
    exact ⟨blob, salt, pw, rfl, by rw [hsl]; exact made⟩

end ExportCall

/-- AES-GCM opens nothing but what some export of the history has sealed. -/
def IdealForExports (env : Env H) (kdf : PasswordKdf) (history : List (ExportCall H)) : Prop :=
  ∀ key nonce ct aad plaintext, env.aead.decrypt key nonce ct aad = .ok plaintext →
    ∃ c ∈ history, ∃ sl ∈ c.seals env kdf,
      sl.key = key ∧ sl.nonce = nonce ∧ sl.aad = aad ∧ sl.ciphertext = ct

/-- On these passwords the derived key determines the function, the salt and the password. -/
def PasswordKdf.InjectiveOn (kdf : PasswordKdf) (passwords : Set Bytes) : Prop :=
  ∀ kdfType kdfType' salt salt', salt.length = saltLen → salt'.length = saltLen →
    ∀ pw ∈ passwords, ∀ pw' ∈ passwords, ∀ key key', kdf.derive kdfType salt pw = .ok key →
      kdf.derive kdfType' salt' pw' = .ok key' → key.val = key'.val →
      kdfType = kdfType' ∧ salt = salt' ∧ pw = pw'

/-- The ways an import can go: refused for its size or its magic, stopped without a wrapping key,
or through to the one call of the cipher. -/
inductive ImportRun (env : Env H) (kdf : PasswordKdf) (data : Bytes) (password : Password)
    (rt : Runtime) : Except Exc (KeySet H) → Runtime → Prop
  | refused {m : String} : ImportRun env kdf data password rt (.error (.decryptionError m)) rt
  | keyless {kdfType : KdfType} {e : Exc} (named : kdfTypeOf (data.take 4) = .ok kdfType)
    (raised : (deriveWrappingKey kdf password (slice data 4 (4 + saltLen)) kdfType).run rt =
      (.error e, rt)) :
    ImportRun env kdf data password rt (.error e) rt
  | called {magic salt nonce ct pw : Bytes} {kdfType : KdfType} {key : KeyOfLength keyLen}
    {rt' : Runtime} (split : data = magic ++ salt ++ nonce ++ ct) (saltLength : salt.length = saltLen)
    (named : kdfTypeOf magic = .ok kdfType) (encoded : password.encode = .ok pw)
    (derived : kdf.derive kdfType salt pw = .ok key)
    (trace : rt'.trace = rt.trace ++ env.aead.traced key.val
      (.aeadDecrypt key.val nonce magic ct (env.aead.decrypt key.val nonce ct magic))) :
    ImportRun env kdf data password rt
      (((do
        env.aead.init key.val
        let plaintext ← env.aead.decrypt key.val nonce ct magic
        parsePayload plaintext).mapError fun _ : Exc =>
          Exc.decryptionError "invalid password or corrupted keystore") >>= importPayload env) rt'

theorem importKeysetBytes_run (env : Env H) (kdf : PasswordKdf) (data : Bytes)
    (password : Password) (rt : Runtime) : ∃ r rt',
    (importKeysetBytes env kdf data password).run rt = (r, rt') ∧
      ImportRun env kdf data password rt r rt' := by
  by_cases hlarge : data.length > maxKeystoreSize
  · unfold importKeysetBytes
    rw [if_pos hlarge]
    exact ⟨_, _, rfl, ImportRun.refused⟩
  by_cases hshort : data.length < 4 + saltLen + nonceLen
  · unfold importKeysetBytes
    rw [if_neg hlarge, if_pos hshort]
    exact ⟨_, _, rfl, ImportRun.refused⟩
  cases hkdf : kdfTypeOf (data.take 4) with
  | error e =>
    obtain ⟨m, hm⟩ : ∃ m, e = .decryptionError m := by
      rcases kdfTypeOf_cases (data.take 4) with ⟨-, hok⟩ | ⟨-, hok⟩ | ⟨m, hraise⟩
      · rw [hok] at hkdf
        cases hkdf
      · rw [hok] at hkdf
        cases hkdf
      · rw [hraise] at hkdf
        exact ⟨m, (Except.error.inj hkdf).symm⟩
    unfold importKeysetBytes
    rw [if_neg hlarge, if_neg hshort]
    dsimp only
    rw [hkdf, hm]
    exact ⟨_, _, rfl, ImportRun.refused⟩
  | ok kdfType =>
  have hframe := deriveWrappingKey_frame kdf password (slice data 4 (4 + saltLen)) kdfType rt
  rcases hderive : (deriveWrappingKey kdf password (slice data 4 (4 + saltLen)) kdfType).run rt with
    ⟨_ | key, rt₁⟩
  · next e =>
    rw [hderive] at hframe
    dsimp only at hframe
    subst hframe
    unfold importKeysetBytes
    rw [if_neg hlarge, if_neg hshort]
    dsimp only
    rw [hkdf, Eff.run_lift_ok_bind, Eff.bind_error hderive]
    exact ⟨_, _, rfl, ImportRun.keyless hkdf hderive⟩
  · obtain ⟨hrt, -, pw, derived, hpw, -, hkey, hval⟩ := deriveWrappingKey_eq_ok hderive
    subst hrt hval
    obtain ⟨rt', htrace, hrun⟩ := importKeysetBytes_run_of_key env hlarge hshort hkdf hderive
    have hsalt : (slice data 4 (4 + saltLen)).length = saltLen := by
      simp only [slice, List.length_take, List.length_drop]
      omega
    exact ⟨_, rt', hrun,
      ImportRun.called (keystore_split data).symm hsalt hkdf hpw hkey htrace⟩

/-- The call returned the keystore `data`, under the password bytes and the derivation function that
an import of `data` uses. -/
def ExportCall.Exports (env : Env H) (kdf : PasswordKdf) (data : Bytes) (password : Password)
    (c : ExportCall H) : Prop :=
  (c.run env kdf).1 = .ok data ∧ kdfTypeOf (data.take 4) = .ok c.kdfType ∧
    ∃ pw, c.password.encode = .ok pw ∧ password.encode = .ok pw

/-- The run has had a plaintext from the cipher. -/
def Runtime.Decrypted (rt : Runtime) : Prop :=
  ∃ key nonce aad ct plaintext, Event.aeadDecrypt key nonce aad ct (.ok plaintext) ∈ rt.trace

/-- Fields that the cipher opens are those of one export. -/
theorem IdealForExports.exports {env : Env H} {kdf : PasswordKdf} {history : List (ExportCall H)}
    (hideal : IdealForExports env kdf history) {passwords : Set Bytes}
    (hkdf : kdf.InjectiveOn passwords)
    (hin : ∀ c ∈ history, ∀ pw, c.password.encode = .ok pw → pw ∈ passwords)
    {magic salt nonce ct pw plaintext : Bytes} {password : Password} {kdfType : KdfType}
    {key : KeyOfLength keyLen} (hsalt : salt.length = saltLen)
    (hnamed : kdfTypeOf magic = .ok kdfType) (hpw : password.encode = .ok pw)
    (hmem : pw ∈ passwords) (hkey : kdf.derive kdfType salt pw = .ok key)
    (hopen : env.aead.decrypt key.val nonce ct magic = .ok plaintext) :
    ∃ c ∈ history, c.Exports env kdf (magic ++ salt ++ nonce ++ ct) password := by
  obtain ⟨c, hc, sl, hsl, hslKey, hslNonce, hslAad, hslCt⟩ := hideal _ _ _ _ _ hopen
  obtain ⟨blob, salt', pw', hrun, hmade⟩ := ExportCall.of_mem_seals hsl
  obtain ⟨derived, hderived, hval⟩ := hmade.key
  have hsame : key.val = derived.val := hslKey.symm.trans hval
  obtain ⟨htype, hsalts, hpws⟩ := hkdf kdfType c.kdfType salt salt' hsalt hmade.saltLength pw hmem pw'
    (hin c hc pw' hmade.password) key derived hkey hderived hsame
  have hmagic : c.magic = magic := hmade.aad.symm.trans hslAad
  have hblob : blob = magic ++ salt ++ nonce ++ ct := by
    rw [hmade.fields, hmagic, hsalts, hslNonce, hslCt]
  have htake : (magic ++ salt ++ nonce ++ ct).take 4 = magic := by
    rw [List.append_assoc, List.append_assoc, List.take_left' (kdfTypeOf_length hnamed)]
  refine ⟨c, hc, ?_, ?_, pw, ?_, hpw⟩
  · rw [hrun, hblob]
  · rw [htake, hnamed, htype]
  · rw [hmade.password, hpws]

/-- Where AES-GCM opens only what was sealed and the derived key determines its inputs, an import
decrypts nothing but the keystore of one export, under its password and its derivation function;
every other byte string is refused, with a `DecryptionError` once a wrapping key is derived. -/
theorem importKeysetBytes_onlyExports {H : Type} (env : Env H) (kdf : PasswordKdf)
    (history : List (ExportCall H)) (hideal : IdealForExports env kdf history)
    (passwords : Set Bytes) (hkdf : kdf.InjectiveOn passwords)
    (hin : ∀ c ∈ history, ∀ pw, c.password.encode = .ok pw → pw ∈ passwords) (data : Bytes)
    (password : Password) (hpw : ∀ pw, password.encode = .ok pw → pw ∈ passwords)
    (rt rt' : Runtime) (r : Except Exc (KeySet H))
    (h : (importKeysetBytes env kdf data password).run rt.fresh = (r, rt')) :
    (rt'.Decrypted → ∃ c ∈ history, c.Exports env kdf data password) ∧
    ((¬∃ c ∈ history, c.Exports env kdf data password) → ∃ e, r = .error e ∧
      (IsDecryptionError e ∨ ∃ kdfType, kdfTypeOf (data.take 4) = .ok kdfType ∧
        (deriveWrappingKey kdf password (slice data 4 (4 + saltLen)) kdfType).run rt.fresh =
          (.error e, rt.fresh))) := by
  obtain ⟨r', rt'', hrun, himport⟩ := importKeysetBytes_run env kdf data password rt.fresh
  rw [h] at hrun
  obtain ⟨hr, hrt⟩ := Prod.mk.inj hrun
  subst hr hrt
  cases himport with
  | @refused m =>
    constructor
    · rintro ⟨_, _, _, _, _, hmem⟩
      cases hmem
    · exact fun _ => ⟨_, rfl, Or.inl ⟨m, rfl⟩⟩
  | @keyless kdfType e named raised =>
    constructor
    · rintro ⟨_, _, _, _, _, hmem⟩
      cases hmem
    · exact fun _ => ⟨e, rfl, Or.inr ⟨kdfType, named, raised⟩⟩
  | @called magic salt nonce ct pw kdfType key _ split saltLength named encoded derived trace =>
    have hexports : ∀ plaintext, env.aead.decrypt key.val nonce ct magic = .ok plaintext →
        ∃ c ∈ history, c.Exports env kdf data password := by
      intro plaintext hopen
      rw [split]
      exact hideal.exports hkdf hin saltLength named encoded (hpw pw encoded) derived hopen
    constructor
    · rintro ⟨_, _, _, _, plaintext, hmem⟩
      rw [trace] at hmem
      have hevent := Aead.mem_traced hmem
      exact hexports plaintext (Event.aeadDecrypt.inj hevent).2.2.2.2.symm
    · intro hnone
      cases env.aead.init key.val with
      | error e => exact ⟨_, rfl, Or.inl ⟨_, rfl⟩⟩
      | ok u =>
      cases hopen : env.aead.decrypt key.val nonce ct magic with
      | ok plaintext => exact absurd (hexports plaintext hopen) hnone
      | error e => exact ⟨_, rfl, Or.inl ⟨_, rfl⟩⟩

/-- The function's name, the password behind its length, and the salt, brought to the length of the
key. -/
def namedKdf : PasswordKdf where
  argon2id salt length _ _ _ password :=
    .ok (padKey salt (0 :: UInt8.ofNat password.length :: password) length)
  scrypt salt length _ _ _ password :=
    .ok (padKey salt (1 :: UInt8.ofNat password.length :: password) length)

theorem padKey_take {salt password : Bytes} {length n : Nat}
    (h : (password ++ salt).length ≤ length) (hn : n ≤ (password ++ salt).length) :
    (padKey salt password length).val.take n = (password ++ salt).take n := by
  show ((password ++ salt ++ List.replicate length 0).take length).take n = _
  rw [List.take_take, Nat.min_eq_left (hn.trans h), List.take_append_of_le_length hn]

/-- The passwords that a key has room for, behind the name and the length and before the salt. -/
def shortPasswords : Set Bytes := { pw | pw.length ≤ 14 }

theorem namedKdf_injectiveOn : namedKdf.InjectiveOn shortPasswords := by
  have hderive : ∀ kdfType salt pw key, namedKdf.derive kdfType salt pw = .ok key →
      ∃ name, key.val = (padKey salt (name :: UInt8.ofNat pw.length :: pw) keyLen).val ∧
        (name = 0 ∧ kdfType = .argon2id ∨ name = 1 ∧ kdfType = .scrypt) := by
    intro kdfType salt pw key h
    cases kdfType with
    | argon2id =>
      cases h
      exact ⟨0, rfl, Or.inl ⟨rfl, rfl⟩⟩
    | scrypt =>
      cases h
      exact ⟨1, rfl, Or.inr ⟨rfl, rfl⟩⟩
    | other name => cases h
  intro kdfType kdfType' salt salt' hsalt hsalt' pw hpw pw' hpw' key key' h h' hval
  have hlen : pw.length ≤ 14 := hpw
  have hlen' : pw'.length ≤ 14 := hpw'
  obtain ⟨name, hkey, hname⟩ := hderive kdfType salt pw key h
  obtain ⟨name', hkey', hname'⟩ := hderive kdfType' salt' pw' key' h'
  have hfit : (name :: UInt8.ofNat pw.length :: pw ++ salt).length ≤ keyLen := by
    simp [hsalt, saltLen, keyLen]
    omega
  have hfit' : (name' :: UInt8.ofNat pw'.length :: pw' ++ salt').length ≤ keyLen := by
    simp [hsalt', saltLen, keyLen]
    omega
  rw [hkey, hkey'] at hval
  -- The first two bytes are the name and the length, which says where the salt starts.
  have hfront := congrArg (List.take 2) hval
  rw [padKey_take hfit (by simp), padKey_take hfit' (by simp)] at hfront
  simp only [List.cons_append, List.take_succ_cons, List.take_zero, List.cons.injEq,
    and_true] at hfront
  obtain ⟨hnames, hlengths⟩ := hfront
  have hcount : pw.length = pw'.length := by
    have htoNat := congrArg UInt8.toNat hlengths
    rw [UInt8.toNat_ofNat', UInt8.toNat_ofNat'] at htoNat
    omega
  have htotal : (name' :: UInt8.ofNat pw'.length :: pw' ++ salt').length =
      (name :: UInt8.ofNat pw.length :: pw ++ salt).length := by
    simp [hsalt, hsalt', hcount]
  have hall := congrArg (List.take (name :: UInt8.ofNat pw.length :: pw ++ salt).length) hval
  rw [padKey_take hfit le_rfl, padKey_take hfit' htotal.ge, List.take_length, ← htotal,
    List.take_length] at hall
  simp only [List.cons_append, List.cons.injEq] at hall
  obtain ⟨hpws, hsalts⟩ := List.append_inj hall.2.2 hcount
  refine ⟨?_, hsalts, hpws⟩
  rcases hname with ⟨rfl, rfl⟩ | ⟨rfl, rfl⟩ <;> rcases hname' with ⟨rfl, rfl⟩ | ⟨rfl, rfl⟩
  · rfl
  · cases hnames
  · cases hnames
  · rfl

def zeroExport : ExportCall (PrivateHandle Bytes Bytes) where
  rt := zeroRuntime
  keyset := zeroKeyset
  password := .bytes [0x70]
  useArgon2 := true

theorem zeroExport_returns (log : List Seal) : ∃ blob rt',
    zeroExport.run (xorEnv (logAead log)) namedKdf = (.ok blob, rt') := by
  have htext : (zeroExport.keyset.payload zeroEntries).Textual := keystoreJson_textual _ _ _
  obtain ⟨plaintext, hencode, -⟩ := Json.encode_dumps htext none
  have hconsistent : zeroExport.keyset.Consistent := ⟨rfl, rfl, rfl⟩
  have hplain := exportPlaintext_eq_ok.mpr
    ⟨hconsistent, zeroEntries, zeroKeyset_serialized, hencode⟩
  have haccepts : (xorEnv (logAead log)).aead.Accepts plaintext := fun _ _ _ _ _ _ => ⟨_, rfl⟩
  have hkdf : namedKdf.Returns [0x70] := fun _ => ⟨⟨_, rfl⟩, ⟨_, rfl⟩⟩
  have hpw : zeroExport.password.encode = .ok [0x70] := rfl
  have hp : zeroExport.rt.fresh.kdfPermits ≠ 0 := by decide
  have hreturns := exportKeysetBytes_returns (logAead_documented log) hplain haccepts hpw (by simp) hkdf
    zeroExport.useArgon2 hp
  rw [ExportCall.run]
  exact hreturns

/-- A cipher that opens the seals of `zeroExport` only. -/
theorem zeroExport_ideal : ∃ log blob rt',
    zeroExport.run (xorEnv (logAead log)) namedKdf = (.ok blob, rt') ∧
    blob.length ≤ maxKeystoreSize ∧ zeroExport.seals (xorEnv (logAead log)) namedKdf = log ∧
    IdealForExports (xorEnv (logAead log)) namedKdf [zeroExport] := by
  obtain ⟨log, hmade⟩ : ∃ log, (zeroExport.run (xorEnv zeroTagAead) namedKdf).2.seals = log :=
    ⟨_, rfl⟩
  have hinit : (xorEnv (logAead log)).aead.init = (xorEnv zeroTagAead).aead.init := rfl
  have hencrypt : (xorEnv (logAead log)).aead.encrypt = (xorEnv zeroTagAead).aead.encrypt := rfl
  have hrun : zeroExport.run (xorEnv (logAead log)) namedKdf =
      zeroExport.run (xorEnv zeroTagAead) namedKdf :=
    ExportCall.run_congr hinit hencrypt namedKdf zeroExport
  have hlog : zeroExport.seals (xorEnv (logAead log)) namedKdf = log := by
    rw [ExportCall.seals, hrun]
    exact hmade
  obtain ⟨blob, rt', hexport⟩ := zeroExport_returns log
  refine ⟨log, blob, rt', hexport, ?_, hlog, ?_⟩
  · have hzero := hexport
    rw [hrun, ExportCall.run] at hzero
    have hkeyset : zeroExport.keyset = zeroKeyset := rfl
    rw [hkeyset] at hzero
    obtain ⟨entries, -, -, hser, -, -, hlen, -⟩ := exportKeysetBytes_sealed zeroTagAead_correct hzero
    have hentries := hser.unique zeroKeyset_serialized
    rw [hlen, hentries]
    exact zeroKeyset_size
  · intro key nonce ct aad plaintext hopen
    refine ⟨zeroExport, List.mem_singleton_self _, ⟨key, nonce, aad, plaintext, ct⟩, ?_, rfl, rfl,
      rfl, rfl⟩
    rw [hlog]
    exact logAead_decrypt hopen

/-- The keystore is one field behind the other, with its magic in front. -/
theorem zeroExport_fields {env : Env (PrivateHandle Bytes Bytes)} {kdf : PasswordKdf} {blob : Bytes}
    {rt' : Runtime} (h : zeroExport.run env kdf = (.ok blob, rt')) :
    blob.take 4 = magicKeystoreArgon2 ∧ ¬blob.length < 4 + saltLen + nonceLen := by
  cases ExportCall.Outcome.of_run h with
  | @returned sl _ salt pw _ seals made =>
  have hmagic := zeroExport.magic_length
  constructor
  · rw [made.fields, List.append_assoc, List.append_assoc, List.take_left' hmagic]
    rfl
  · rw [made.fields]
    simp only [List.length_append, hmagic, made.saltLength, made.nonceLength]
    omega

/-- What opens is the keystore that was made. -/
theorem importKeysetBytes_onlyExports_zero : ∃ log blob r rt',
    (importKeysetBytes (xorEnv (logAead log)) namedKdf blob (.bytes [0x70])).run
      zeroRuntime.fresh = (r, rt') ∧ rt'.Decrypted ∧
    ∃ c ∈ [zeroExport], c.Exports (xorEnv (logAead log)) namedKdf blob (.bytes [0x70]) := by
  obtain ⟨log, blob, rt₁, hexport, hsize, hlog, hideal⟩ := zeroExport_ideal
  have hshortPassword : ∀ pw, (Password.bytes [0x70]).encode = .ok pw → pw ∈ shortPasswords := by
    intro pw hpw
    cases hpw
    show [(0x70 : UInt8)].length ≤ 14
    decide
  have hin : ∀ c ∈ [zeroExport], ∀ pw, c.password.encode = .ok pw → pw ∈ shortPasswords := by
    intro c hc pw hpw
    rw [List.mem_singleton.mp hc] at hpw
    exact hshortPassword pw hpw
  obtain ⟨h₁, hshort⟩ := zeroExport_fields hexport
  -- The cipher opens the one seal of the export, which is at its place in the keystore.
  cases ExportCall.Outcome.of_run hexport with
  | @returned sl _ salt pw _ seals made =>
  obtain ⟨derived, hderived, hval⟩ := made.key
  have hmem : sl ∈ log := by
    rw [← hlog, ExportCall.seals, hexport, seals]
    exact List.mem_singleton_self _
  have hopen := logAead_opens hmem made.sealed
  obtain ⟨-, h₂, h₃, h₄⟩ :=
    keystore_slices sl.ciphertext zeroExport.magic_length made.saltLength made.nonceLength
  rw [← made.fields] at h₂ h₃ h₄
  have hkdfType : kdfTypeOf (blob.take 4) = .ok zeroExport.kdfType := by
    rw [h₁]
    rfl
  have hencode : (Password.bytes [0x70]).encode = .ok pw := made.password
  have hne : pw ≠ [] := by
    cases hencode
    simp
  have hp : zeroRuntime.fresh.kdfPermits ≠ 0 := by decide
  have hderive := deriveWrappingKey_run namedKdf hencode hne (slice blob 4 (4 + saltLen))
    zeroExport.kdfType hp
  rw [h₂, hderived, ← h₂] at hderive
  obtain ⟨rt', htrace, himport⟩ := importKeysetBytes_run_of_key (xorEnv (logAead log))
    (Nat.not_lt.mpr hsize) hshort hkdfType hderive
  have hdecrypted : rt'.Decrypted := by
    have haad : magicKeystoreArgon2 = sl.aad := made.aad.symm
    rw [h₁, h₃, h₄, ← hval, haad] at htrace
    have hevent : (xorEnv (logAead log)).aead.decrypt sl.key sl.nonce sl.ciphertext sl.aad =
      .ok sl.plaintext := hopen
    have hinit : (xorEnv (logAead log)).aead.init sl.key = .ok () := by
      rw [hval]
      exact (logAead_documented log).init_ok _ derived.property
    rw [hevent, Aead.traced, hinit] at htrace
    refine ⟨sl.key, sl.nonce, sl.aad, sl.ciphertext, sl.plaintext, ?_⟩
    rw [htrace]
    exact List.mem_append_right _ (List.mem_singleton_self _)
  exact ⟨log, blob, _, rt', himport, hdecrypted, (importKeysetBytes_onlyExports
    (xorEnv (logAead log)) namedKdf [zeroExport] hideal shortPasswords namedKdf_injectiveOn hin
    blob (.bytes [0x70]) hshortPassword zeroRuntime rt' _ himport).1 hdecrypted⟩

/-- An empty password is refused before the cipher sees the bytes, and not as a `DecryptionError`. -/
theorem importKeysetBytes_emptyPassword (env : Env H) (kdf : PasswordKdf) {data : Bytes}
    (hlarge : ¬data.length > maxKeystoreSize) (hshort : ¬data.length < 4 + saltLen + nonceLen)
    {kdfType : KdfType} (hkdf : kdfTypeOf (data.take 4) = .ok kdfType) (rt : Runtime) :
    (importKeysetBytes env kdf data (.bytes [])).run rt =
      (.error (.valueError "keystore password must not be empty"), rt) := by
  have hderive : (deriveWrappingKey kdf (.bytes []) (slice data 4 (4 + saltLen)) kdfType).run rt =
    (.error (.valueError "keystore password must not be empty"), rt) := rfl
  unfold importKeysetBytes
  rw [if_neg hlarge, if_neg hshort]
  dsimp only
  rw [hkdf, Eff.run_lift_ok_bind, Eff.bind_error hderive]

/-- With the other magic in front and an empty password, a keystore is refused with a
`ValueError`. -/
theorem importKeysetBytes_swappedMagic_emptyPassword : ∃ log blob,
    (zeroExport.run (xorEnv (logAead log)) namedKdf).1 = .ok blob ∧
    IdealForExports (xorEnv (logAead log)) namedKdf [zeroExport] ∧
    namedKdf.InjectiveOn shortPasswords ∧
    (¬∃ c ∈ [zeroExport], c.Exports (xorEnv (logAead log)) namedKdf
      (magicKeystoreScrypt ++ blob.drop 4) (.bytes [])) ∧
    ∃ e, ((importKeysetBytes (xorEnv (logAead log)) namedKdf (magicKeystoreScrypt ++ blob.drop 4)
      (.bytes [])).run zeroRuntime.fresh).1 = .error e ∧ ¬IsDecryptionError e := by
  obtain ⟨log, blob, rt', hexport, hsize, -, hideal⟩ := zeroExport_ideal
  obtain ⟨hmagic, hshort⟩ := zeroExport_fields hexport
  have hlength : (magicKeystoreScrypt ++ blob.drop 4).length = blob.length := by
    rw [List.length_append, List.length_drop]
    have hfour : magicKeystoreScrypt.length = 4 := rfl
    omega
  have htake : (magicKeystoreScrypt ++ blob.drop 4).take 4 = magicKeystoreScrypt := rfl
  refine ⟨log, blob, by rw [hexport], hideal, namedKdf_injectiveOn, ?_, ?_⟩
  · rintro ⟨c, hc, hrun, -⟩
    rw [List.mem_singleton.mp hc, hexport] at hrun
    rw [Except.ok.inj hrun, htake] at hmagic
    cases hmagic
  · have hrun := importKeysetBytes_emptyPassword (xorEnv (logAead log)) namedKdf
      (by rw [hlength]; exact Nat.not_lt.mpr hsize) (by rw [hlength]; exact hshort)
      (by rw [htake]; rfl) zeroRuntime.fresh
    refine ⟨_, by rw [hrun], ?_⟩
    rintro ⟨m, hm⟩
    cases hm

end CryptoFlex
