import CryptoFlex.Api.Blob
import CryptoFlex.Combiner.Binding

namespace CryptoFlex

open Lib CryptoflexHeader

variable {H : Type}

/-- A key encapsulation mechanism: encapsulation to a generated key returns, with a ciphertext that
a header can hold, and the key's handle recovers the secret. -/
structure Source.Kem (s : Source H) : Prop where
  correct : s.Correct
  encapsulates : ∀ pool pool' pub priv, s.generateKeypair.run pool = (.ok (pub, priv), pool') →
    ∀ coins, ∃ enc coins', (s.encapsulate pub).run coins = (.ok enc, coins') ∧
      enc.ciphertext.length ≤ 65535

/-- Encapsulation to each of the keys returns. -/
inductive Encapsulable : List (Source H) → List (PyStr × Bytes) → Prop
  | nil : Encapsulable [] []
  | cons {s : Source H} {ss : List (Source H)} {pub : Bytes} {keys : List (PyStr × Bytes)}
    (returns : ∀ coins, ∃ enc coins', (s.encapsulate pub).run coins = (.ok enc, coins') ∧
      enc.ciphertext.length ≤ 65535)
    (rest : Encapsulable ss keys) : Encapsulable (s :: ss) ((s.algorithmId, pub) :: keys)

theorem generateKeypairs_encapsulable {ss : List (Source H)} (hk : ∀ s ∈ ss, s.Kem)
    {rt rt' : Runtime} {keys : List (PyStr × Bytes)} {handles : List H}
    (h : (generateKeypairs ss).run rt = (.ok (keys, handles), rt')) : Encapsulable ss keys := by
  induction ss generalizing rt keys handles with
  | nil =>
    cases h
    exact Encapsulable.nil
  | cons s ss ih =>
    unfold generateKeypairs at h
    obtain ⟨⟨pub, priv⟩, rt1, hgen, h⟩ := Eff.bind_eq_ok.mp h
    obtain ⟨⟨keys', handles'⟩, rt2, hrest, h⟩ := Eff.bind_eq_ok.mp h
    cases h
    have hkem := hk s List.mem_cons_self
    unfold Runtime.sample at hgen
    rw [Eff.run_zoom] at hgen
    have hreturns := hkem.encapsulates rt.entropy _ pub priv (Prod.ext (Prod.mk.inj hgen).1 rfl)
    exact Encapsulable.cons hreturns (ih (fun s' hs' => hk s' (List.mem_cons_of_mem _ hs')) hrest)

theorem encapsulateAll_returns {ss : List (Source H)} {keys : List (PyStr × Bytes)}
    (h : Encapsulable ss keys) (rt : Runtime) : ∃ encs rt',
      (encapsulateAll (ss.zip keys)).run rt = (.ok encs, rt') ∧
      ∀ e ∈ encs, e.2.ciphertext.length ≤ 65535 := by
  induction h generalizing rt with
  | nil => exact ⟨[], rt, rfl, by simp⟩
  | @cons s ss pub keys returns rest ih =>
    let rt₁ : Runtime := { rt with trace := rt.trace ++ [.encapsulate s.algorithmId] }
    obtain ⟨enc, coins', henc, hlen⟩ := returns rt₁.entropy
    have hsample : (Runtime.sample (s.encapsulate pub)).run rt₁ =
        (.ok enc, { rt₁ with entropy := coins' }) := by
      rw [Runtime.sample, Eff.run_zoom, henc]
    obtain ⟨encs, rt₂, hrest, hlens⟩ := ih { rt₁ with entropy := coins' }
    have hrecord : (Runtime.record (.encapsulate s.algorithmId)).run rt = (.ok (), rt₁) := rfl
    refine ⟨(s.algorithmId, enc) :: encs, rt₂, ?_, ?_⟩
    · rw [List.zip_cons_cons, encapsulateAll, if_neg (by simp), Eff.bind_ok hrecord,
        Eff.bind_ok hsample, Eff.bind_ok hrest]
      rfl
    · intro e he
      rcases List.mem_cons.mp he with rfl | hmem
      · exact hlen
      · exact hlens e hmem

/-- The ids of a profile and of its sources fit the length fields of a header. -/
structure SecurityProfile.Writable (p : SecurityProfile H) : Prop where
  profileId : ∃ b, p.profileId.encode = .ok b ∧ b.length ≤ 255
  count : p.sources.length ≤ 255
  sources : ∀ s ∈ p.sources, ∃ b, s.algorithmId.encode = .ok b ∧ b.length ≤ 255

theorem profileRegistry_writable {K₁ K₂ : Type} (x : X25519 K₁) (o : Oqs K₂) (id : PyStr)
    (p : SecurityProfile (PrivateHandle K₁ K₂)) (h : (profileRegistry x o).lookup id = some p) :
    p.Writable := by
  refine profileRegistry_cases ?_ ?_ ?_ h <;>
    refine ⟨⟨_, rfl, by decide⟩, by simp, ?_⟩ <;>
    simp only [List.forall_mem_cons, List.not_mem_nil, false_implies, implies_true, and_true]
  · exact ⟨_, rfl, by decide⟩
  · exact ⟨⟨_, rfl, by decide⟩, _, rfl, by decide +kernel⟩
  · exact ⟨⟨_, rfl, by decide⟩, _, rfl, by decide +kernel⟩

/-- A bundle to which every process can encrypt. -/
structure Env.Reachable (env : Env H) (bundle : PublicBundle) (profile : SecurityProfile H) :
    Prop where
  registered : env.profiles.lookup bundle.profileId = some profile
  profileId : profile.profileId = bundle.profileId
  nonempty : profile.sources ≠ []
  writable : profile.Writable
  encapsulable : Encapsulable profile.sources bundle.publicKeys

section Returns

variable {env : Env H} {bundle : PublicBundle} {profile : SecurityProfile H}

theorem Encapsulable.length_eq {ss : List (Source H)} {keys : List (PyStr × Bytes)}
    (h : Encapsulable ss keys) : ss.length = keys.length := by
  induction h with
  | nil => rfl
  | cons _ _ ih => exact congrArg (· + 1) ih

/-- The components of a derived header fit their fields, both in the header and in the info. -/
theorem components_writable (hw : profile.Writable) {encs : List (PyStr × Encapsulation)}
    (hids : encs.map Prod.fst = profile.sources.map (·.algorithmId))
    (hlens : ∀ e ∈ encs, e.2.ciphertext.length ≤ 65535) :
    ∀ c ∈ encs.map (fun e => (e.1, e.2.ciphertext)), ComponentWritable c := by
  intro c hc
  obtain ⟨e, he, rfl⟩ := List.mem_map.mp hc
  have hid : e.1 ∈ profile.sources.map (·.algorithmId) := by
    rw [← hids]
    exact List.mem_map_of_mem he
  obtain ⟨s, hs, heq⟩ := List.mem_map.mp hid
  obtain ⟨b, hb, hlen⟩ := hw.sources s hs
  rw [heq] at hb
  exact ⟨b, hb, hlen, hlens e he⟩

theorem deriveRootKey_returns (hr : env.Reachable bundle profile) (rt : Runtime) :
    ∃ d headerBytes rt', (deriveRootKey env bundle).run rt = (.ok d, rt') ∧
      d.header.toBytes = .ok headerBytes := by
  obtain ⟨encs, rt₁, hencs, hlens⟩ := encapsulateAll_returns hr.encapsulable rt
  have hcount := hr.encapsulable.length_eq
  have hids : encs.map Prod.fst = profile.sources.map (·.algorithmId) := by
    have hzip : (profile.sources.zip bundle.publicKeys).map Prod.fst = profile.sources :=
      List.map_fst_zip hcount.le
    rw [(encapsulateAll_ids hencs).1, ← hzip, List.map_map, hzip]
    rfl
  have hlen : encs.length = profile.sources.length := by
    have h := congrArg List.length hids
    rwa [List.length_map, List.length_map] at h
  have hwritable := components_writable hr.writable hids hlens
  have hne : encs ≠ [] := by
    rintro rfl
    exact hr.nonempty (List.length_eq_zero_iff.mp hlen.symm)
  have hcountLe := hr.writable.count
  have hfits : InfoFits defaultContext (encs.map fun e => (e.1, e.2.ciphertext))
      combinerSpecVersion := by
    refine ⟨by decide, by decide, ?_, ?_⟩
    · rw [List.length_map]
      omega
    · intro c hc
      obtain ⟨b, hb, hlen, hct⟩ := hwritable c hc
      exact ⟨b, hb, by omega, by omega⟩
  obtain ⟨info, hinfo⟩ := (encodeInfo_isOk _ _ _).mpr hfits
  have hcombine : combine env.hkdf encs = .ok
      { rootKey := (env.hkdf info (encs.map fun e => e.2.sharedSecret).flatten).val
        components := encs.map fun e => (e.1, e.2.ciphertext) } := by
    unfold combine
    rw [if_neg hne]
    dsimp only
    rw [hinfo]
    rfl
  have hderive : ∃ d rt', (deriveRootKey env bundle).run rt = (.ok d, rt') := by
    unfold deriveRootKey
    rw [getProfile_eq_ok.mpr hr.registered, Eff.run_lift_ok_bind, if_neg (not_not.mpr hcount),
      Eff.bind_ok hencs, hcombine, Eff.run_lift_ok_bind]
    exact ⟨_, _, rfl⟩
  obtain ⟨d, rt', hrun⟩ := hderive
  obtain ⟨profile', encs', nonce, hd⟩ := deriveRootKey_eq_ok hrun
  obtain ⟨rt₂, hencs'⟩ := hd.encapsulated
  obtain rfl := hd.profile_eq hr.registered
  rw [hencs] at hencs'
  cases hencs'
  have hcomponents := hd.components
  obtain ⟨pb, hpb, hpbLen⟩ := hr.writable.profileId
  rw [hr.profileId] at hpb
  have hheader : ∃ b, d.header.toBytes = .ok b := by
    apply toBytes_of_writable
    · rw [hd.header]
      rfl
    · rw [hd.header]
      exact hpb
    · exact hpbLen
    · rw [hcomponents, List.length_map]
      omega
    · rw [hcomponents]
      exact hwritable
    · rw [hd.header]
    · exact hd.nonceLength
  obtain ⟨b, hb⟩ := hheader
  exact ⟨d, b, rt', hrun, hb⟩

/-- A blob that some derivation for the bundle sealed. -/
def BlobFor (env : Env H) (bundle : PublicBundle) (profile : SecurityProfile H)
    (plaintext blob : Bytes) : Prop :=
  ∃ rt d encs nonce headerBytes ct, Derivation env bundle rt d profile encs nonce ∧
    d.header.toBytes = .ok headerBytes ∧
    env.aead.encrypt d.rootKey nonce plaintext headerBytes = .ok ct ∧ blob = headerBytes ++ ct

theorem encrypt_returns (ha : env.aead.Documented) (hr : env.Reachable bundle profile)
    {plaintext : Bytes} (hp : env.aead.Accepts plaintext) (rt : Runtime) :
    ∃ blob rt', (encrypt env bundle plaintext).run rt = (.ok blob, rt') ∧
      BlobFor env bundle profile plaintext blob := by
  obtain ⟨d, headerBytes, rt₁, hderive, hheader⟩ := deriveRootKey_returns hr rt
  obtain ⟨profile', encs, nonce, hd⟩ := deriveRootKey_eq_ok hderive
  obtain rfl := hd.profile_eq hr.registered
  have hnonce : d.header.nonce = some nonce := by rw [hd.header]
  have hlen := toBytes_length_lt hheader
  obtain ⟨ct, hct⟩ := hp d.rootKey nonce headerBytes hd.rootKey_length hd.nonceLength (by omega)
  let rt₂ : Runtime := { rt₁ with heap := rt₁.heap ++ [d.rootKey] }
  have hbuf := Runtime.newBuffer_run d.rootKey rt₁
  have hread := Runtime.readBuffer_new d.rootKey rt₁
  have hseal := aesgcmEncrypt_run env d.rootKey nonce plaintext headerBytes rt₂
  rw [hct] at hseal
  have hall := Eff.tryFinally_run hseal (Runtime.zeroize_run rt₁.heap.length _)
  have hrun : ∃ rt', (encrypt env bundle plaintext).run rt = (.ok (headerBytes ++ ct), rt') := by
    unfold encrypt
    rw [Eff.bind_ok hderive, hheader, Eff.run_lift_ok_bind, hnonce]
    dsimp only
    rw [Eff.bind_ok hbuf, Eff.bind_ok hread, ha.AESGCM_of_length hd.rootKey_length,
      Eff.run_lift_ok_bind, Eff.bind_ok hall]
    exact ⟨_, rfl⟩
  obtain ⟨rt', hrun⟩ := hrun
  exact ⟨headerBytes ++ ct, rt', hrun, rt, d, encs, nonce, headerBytes, ct, hd, hheader, hct, rfl⟩

/-- The owner of the bundle reads the blob back. -/
theorem decrypt_returns (hw : env.profiles.WellFormed) (ha : env.aead.Correct) {handles : List H}
    (hm : KeysMatch profile.sources bundle.publicKeys handles) {minProfile : Option PyStr}
    (hmin : NotStronger env minProfile profile) {plaintext blob : Bytes}
    (hb : BlobFor env bundle profile plaintext blob) (rt : Runtime) :
    ∃ rt', (decrypt env handles blob minProfile).run rt = (.ok plaintext, rt') := by
  obtain ⟨rt₀, d, encs, nonce, headerBytes, ct, hd, hheader, hct, rfl⟩ := hb
  have hname : d.header.profileId = bundle.profileId := by rw [hd.header]
  have hnonce : d.header.nonce = some nonce := by rw [hd.header]
  have hreg : env.profiles.lookup d.header.profileId = some profile := by
    rw [hname]
    exact hd.registered
  have hparse : parseHeader (headerBytes ++ ct) "decryption failed" =
      .ok (d.header, headerBytes.length) := by
    rw [parseHeader, fromBytes_of_reads (hd.reads hw hheader) ct]
  have hopen := (ha.decrypt_encrypt _ _ _ _ _ hct).2
  have hrecover := (recoverRootKeyInternal_of_derive hm hd).run_eq rt
  rcases hrt : (recoverRootKeyInternal env handles d.header profile).run rt with ⟨r, rt₁⟩
  rw [hrt] at hrecover
  cases hrecover
  let rt₂ : Runtime := { rt₁ with heap := rt₁.heap ++ [d.rootKey] }
  have hbuf := Runtime.newBuffer_run d.rootKey rt₁
  have hread := Runtime.readBuffer_new d.rootKey rt₁
  have hdec := aesgcmDecrypt_run env d.rootKey nonce ct headerBytes rt₂
  rw [hopen] at hdec
  have hbody : ((do
      let key ← Runtime.readBuffer rt₁.heap.length
      let aesgcm ← Eff.lift (AESGCM env.aead key)
      aesgcmDecrypt env aesgcm nonce ct headerBytes) : Eff Exc Runtime Bytes).run rt₂ =
      (.ok plaintext, { rt₂ with trace := rt₂.trace ++
        [.aeadDecrypt d.rootKey nonce headerBytes ct (.ok plaintext)] }) := by
    rw [Eff.bind_ok hread, ha.AESGCM_of_length hd.rootKey_length, Eff.run_lift_ok_bind]
    exact hdec
  have hall := Eff.tryFinally_run hbody (Runtime.zeroize_run rt₁.heap.length _)
  unfold decrypt
  rw [hparse, Eff.run_lift_ok_bind]
  dsimp only
  rw [checkDowngrade_ok hreg hmin, Eff.run_lift_ok_bind, hnonce]
  dsimp only
  apply Eff.tryCatch_returns
  rw [getProfile_eq_ok.mpr hreg, Eff.run_lift_ok_bind, Eff.bind_ok hrt, Eff.bind_ok hbuf,
    List.drop_left, List.take_left]
  exact ⟨_, hall⟩

end Returns

/-- The key set was made by `establish_keys`. -/
def Established (env : Env H) (k : KeySet H) : Prop :=
  ∃ engine constraint requireQs rt rt',
    (establishKeys env engine constraint requireQs).run rt = (.ok k, rt')

/-- One step of a chain: the minimum for the old key set, the new key set, and the process in which
the migration runs. -/
structure MigrationStep (H : Type) where
  minProfile : Option PyStr
  keyset : KeySet H
  rt : Runtime

/-- Migrate a blob from key set to key set; the last one and its blob. -/
def migrateAll (env : Env H) : KeySet H → Bytes → List (MigrationStep H) →
    Except Exc (KeySet H × Bytes)
  | k, blob, [] => .ok (k, blob)
  | k, blob, step :: steps => do
    let blob' ← ((migrate env k.privateHandles blob step.keyset.publicBundle step.minProfile).run
      step.rt).1
    migrateAll env step.keyset blob' steps

/-- Every key set of the chain is established, and no minimum is stronger than the profile that it
is asked of. -/
def Permitted (env : Env H) : KeySet H → List (MigrationStep H) → Prop
  | _, [] => True
  | k, step :: steps => NotStronger env step.minProfile k.profile ∧ Established env step.keyset ∧
    Permitted env step.keyset steps

/-- The blob of `start` goes through the chain, and the last key set decrypts it to `plaintext`. -/
def GoesThrough (env : Env H) (k : KeySet H) (plaintext : Bytes) (steps : List (MigrationStep H))
    (start : Except Exc Bytes) : Prop :=
  ∃ blob kn result, start = .ok blob ∧ migrateAll env k blob steps = .ok (kn, result) ∧
    ∀ minProfile rt, NotStronger env minProfile kn.profile →
      ((decrypt env kn.privateHandles result minProfile).run rt).1 = .ok plaintext

/-- What a registry of KEM profiles guarantees of every key set made under it. -/
structure Env.Sound (env : Env H) : Prop where
  wellFormed : env.profiles.WellFormed
  writable : ∀ id p, env.profiles.lookup id = some p → p.Writable
  kem : ∀ id p, env.profiles.lookup id = some p → ∀ s ∈ p.sources, s.Kem
  aead : env.aead.Correct

section Chains

variable {env : Env H} {k : KeySet H} {plaintext : Bytes}

theorem Established.usable (he : env.Sound) (h : Established env k) :
    env.Reachable k.publicBundle k.profile ∧
      KeysMatch k.profile.sources k.publicBundle.publicKeys k.privateHandles := by
  obtain ⟨engine, constraint, requireQs, rt, rt', hrun⟩ := h
  obtain ⟨hreg, hm⟩ := establishKeys_handlesFor he.wellFormed
    (fun id p hp s hs => (he.kem id p hp s hs).correct) hrun
  have hkeyed := he.wellFormed.keyed _ _ hreg
  refine ⟨⟨hreg, hkeyed, he.wellFormed.nonempty _ _ hreg, he.writable _ _ hreg, ?_⟩, hm⟩
  unfold establishKeys at hrun
  obtain ⟨decision, rt₁, -, hrun⟩ := Eff.bind_eq_ok.mp hrun
  obtain ⟨⟨keys, handles⟩, rt₂, hgen, hrun⟩ := Eff.bind_eq_ok.mp hrun
  cases hrun
  exact generateKeypairs_encapsulable (fun s hs => he.kem _ _ hreg s hs) hgen

theorem migrateAll_returns (he : env.Sound) (hp : env.aead.Accepts plaintext)
    (hk : Established env k) {blob : Bytes}
    (hb : BlobFor env k.publicBundle k.profile plaintext blob) {steps : List (MigrationStep H)}
    (hsteps : Permitted env k steps) : ∃ kn result,
      migrateAll env k blob steps = .ok (kn, result) ∧ Established env kn ∧
      BlobFor env kn.publicBundle kn.profile plaintext result := by
  induction steps generalizing k blob with
  | nil => exact ⟨k, blob, rfl, hk, hb⟩
  | cons step steps ih =>
    obtain ⟨hmin, hnew, hrest⟩ := hsteps
    obtain ⟨-, hm⟩ := hk.usable he
    obtain ⟨hreach, -⟩ := hnew.usable he
    obtain ⟨rt₁, hdecrypt⟩ := decrypt_returns he.wellFormed he.aead hm hmin hb step.rt
    obtain ⟨blob', rt₂, hencrypt, hb'⟩ := encrypt_returns he.aead.toDocumented hreach hp rt₁
    have hstep : (migrate env k.privateHandles blob step.keyset.publicBundle step.minProfile).run
        step.rt = (.ok blob', rt₂) := by
      rw [migrate, Eff.bind_ok hdecrypt]
      exact hencrypt
    rw [migrateAll, hstep]
    exact ih hnew hb' hrest

theorem goesThrough_of_blob (he : env.Sound) (hp : env.aead.Accepts plaintext)
    (hk : Established env k) {blob : Bytes}
    (hb : BlobFor env k.publicBundle k.profile plaintext blob) {steps : List (MigrationStep H)}
    (hsteps : Permitted env k steps) : GoesThrough env k plaintext steps (.ok blob) := by
  obtain ⟨kn, result, hrun, hkn, hresult⟩ := migrateAll_returns he hp hk hb hsteps
  refine ⟨blob, kn, result, rfl, hrun, ?_⟩
  intro minProfile rt hmin
  obtain ⟨rt', hdecrypt⟩ :=
    decrypt_returns he.wellFormed he.aead (hkn.usable he).2 hmin hresult rt
  rw [hdecrypt]

end Chains

/-- Whatever the chain of key sets and whichever way the blob was made, every migration returns and
the last key set decrypts to the plaintext. -/
theorem migrations_roundTrip {K₁ K₂ : Type} (x : X25519 K₁) (o : Oqs K₂) (hkdf : Hkdf) (aead : Aead)
    (hkem : ∀ id p, (profileRegistry x o).lookup id = some p → ∀ s ∈ p.sources, s.Kem)
    (ha : aead.Correct) (k : KeySet (PrivateHandle K₁ K₂))
    (hk : Established (builtinEnv x o hkdf aead) k) (plaintext : Bytes)
    (hp : aead.Accepts plaintext) (steps : List (MigrationStep (PrivateHandle K₁ K₂)))
    (hsteps : Permitted (builtinEnv x o hkdf aead) k steps) (rt : Runtime) :
    GoesThrough (builtinEnv x o hkdf aead) k plaintext steps
        ((encrypt (builtinEnv x o hkdf aead) k.publicBundle plaintext).run rt).1 ∧
      GoesThrough (builtinEnv x o hkdf aead) k plaintext steps
        (((ephemeralEncrypt (builtinEnv x o hkdf aead) k.publicBundle plaintext).run rt).1.map
          WireMessage.encryptedBlob) := by
  have he : (builtinEnv x o hkdf aead).Sound :=
    ⟨profileRegistry_wellFormed x o, profileRegistry_writable x o, hkem, ha⟩
  obtain ⟨blob, rt', hrun, hb⟩ := encrypt_returns he.aead.toDocumented (hk.usable he).1 hp rt
  have hthrough := goesThrough_of_blob he hp hk hb hsteps
  refine ⟨?_, ?_⟩
  · rw [hrun]
    exact hthrough
  · obtain ⟨heap, hephemeral⟩ :=
      ephemeralEncrypt_run (builtinEnv x o hkdf aead) k.publicBundle plaintext rt
    rw [hephemeral, hrun]
    exact hthrough

theorem classicalSource_xor_kem {K : Type} :
    (classicalSource xorX25519 : Source (PrivateHandle Bytes K)).Kem where
  correct := classicalSource_xor_correct
  encapsulates := by
    intro pool pool' pub priv hgen coins
    cases hgen
    have hpub : xorX25519.publicBytesRaw ((List.range 32).map pool) = (List.range 32).map pool := rfl
    rw [hpub]
    simp only [classicalSource, xorX25519_fromPublicBytes]
    refine ⟨_, _, rfl, ?_⟩
    simp [xorX25519]

theorem pqcSource_xor_kem {K : Type} {kemName : String} (hk : kemName ∈ xorOqs.enabled) :
    (pqcSource xorOqs kemName : Source (PrivateHandle K Bytes)).Kem where
  correct := pqcSource_xor_correct hk
  encapsulates := by
    have havail : pqcRequireAvailable xorOqs kemName = .ok () := if_pos hk
    intro pool pool' pub priv hgen coins
    simp only [pqcSource, havail, Eff.run_lift_ok_bind] at hgen ⊢
    refine ⟨_, _, rfl, ?_⟩
    simp only [List.length_zipWith, List.length_map, List.length_range]
    omega

theorem profileRegistry_xor_kem (id : PyStr) (p : SecurityProfile (PrivateHandle Bytes Bytes))
    (h : (profileRegistry xorX25519 xorOqs).lookup id = some p) : ∀ s ∈ p.sources, s.Kem := by
  have henabled : ∀ kemName ∈ ["ML-KEM-768", "ML-KEM-1024"], kemName ∈ xorOqs.enabled := by decide
  exact profileRegistry_sources classicalSource_xor_kem
    (fun kemName hk => pqcSource_xor_kem (henabled kemName hk)) h

theorem migrations_roundTrip_zero : ∃ keyset,
    Established (xorEnv zeroTagAead) keyset ∧
    GoesThrough (xorEnv zeroTagAead) keyset [1, 2, 3]
      [⟨some "classical_only", keyset, zeroRuntime⟩]
      ((encrypt (xorEnv zeroTagAead) keyset.publicBundle [1, 2, 3]).run zeroRuntime).1 := by
  obtain ⟨keyset, rt, hkeys, hbundle, hstrength⟩ := establishKeys_zeroKeyset
  have hk : Established (xorEnv zeroTagAead) keyset := ⟨_, _, _, _, _, hkeys⟩
  have hmin : NotStronger (xorEnv zeroTagAead) (some "classical_only") keyset.profile := by
    intro minId hid
    cases hid
    refine ⟨_, rfl, ?_⟩
    rw [hstrength]
    decide
  have hp : zeroTagAead.Accepts [1, 2, 3] := zeroTagAead_correct.accepts (by decide)
  have hsteps : Permitted (xorEnv zeroTagAead) keyset
    [⟨some "classical_only", keyset, zeroRuntime⟩] := ⟨hmin, hk, trivial⟩
  exact ⟨keyset, hk, (migrations_roundTrip xorX25519 xorOqs _ zeroTagAead profileRegistry_xor_kem
    zeroTagAead_correct keyset hk [1, 2, 3] hp _ hsteps zeroRuntime).1⟩

end CryptoFlex
