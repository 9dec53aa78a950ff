import CryptoFlex.Api.Returned
import CryptoFlex.Cli.Outputs
import CryptoFlex.Sources.Contracts
import Mathlib.Algebra.Order.BigOperators.Group.List

namespace CryptoFlex

open Lib

variable {H : Type}

/-- `encrypt`, or `encrypt_stream` in memory. -/
def sealDocument (env : Env H) (stream : Bool) (bundle : PublicBundle) (chunkSize : Int)
    (plaintext : Bytes) : Eff Exc Runtime Bytes :=
  if stream then inMemory (encryptStream env bundle chunkSize) plaintext
  else encrypt env bundle plaintext

/-- `decrypt`, or `decrypt_stream` in memory. -/
def openDocument (env : Env H) (stream : Bool) (handles : List H) (minProfile : Option PyStr)
    (doc : Bytes) : Eff Exc Runtime Bytes :=
  if stream then inMemory (decryptStream env handles minProfile) doc
  else decrypt env handles doc minProfile

/-- `migrate`, or `migrate_stream` in memory. -/
def moveDocument (env : Env H) (stream : Bool) (handles : List H) (newBundle : PublicBundle)
    (minProfile : Option PyStr) (doc : Bytes) : Eff Exc Runtime Bytes :=
  if stream then inMemory (migrateStream env handles newBundle minProfile) doc
  else migrate env handles doc newBundle minProfile

/-- A key set goes through a keystore: exported in one process, imported in another. -/
structure Rotation where
  password : Password
  useArgon2 : Bool
  exporting : Runtime
  importing : Runtime

/-- The password can be used, and both processes have a place for its derivation. -/
def Rotation.Usable (kdf : PasswordKdf) (r : Rotation) : Prop :=
  ∃ pw, r.password.encode = .ok pw ∧ pw ≠ [] ∧ kdf.Returns pw ∧
    r.exporting.kdfPermits ≠ 0 ∧ r.importing.kdfPermits ≠ 0

def rotate (env : Env H) (kdf : PasswordKdf) (k : KeySet H) (r : Rotation) :
    Except Exc (KeySet H) := do
  let blob ← ((exportKeysetBytes env kdf k r.password r.useArgon2).run r.exporting).1
  ((importKeysetBytes env kdf blob r.password).run r.importing).1

/-- What the owner of a document does: save the keys and load them again, or move the document to
another key set. -/
inductive CustodyStep (H : Type)
  | rotate (rotation : Rotation)
  | move (step : MigrationStep H)

/-- The key set that the owner has in the end, and the document. -/
def custody (env : Env H) (kdf : PasswordKdf) (stream : Bool) :
    KeySet H → Bytes → List (CustodyStep H) → Except Exc (KeySet H × Bytes)
  | k, doc, [] => .ok (k, doc)
  | k, doc, .rotate rotation :: steps => do
    let k' ← CryptoFlex.rotate env kdf k rotation
    custody env kdf stream k' doc steps
  | k, doc, .move step :: steps => do
    let doc' ← ((moveDocument env stream k.privateHandles step.keyset.publicBundle step.minProfile
      doc).run step.rt).1
    custody env kdf stream step.keyset doc' steps

/-- The key set that the document was moved to last. -/
def holder : KeySet H → List (CustodyStep H) → KeySet H
  | k, [] => k
  | k, .rotate _ :: steps => holder k steps
  | _, .move step :: steps => holder step.keyset steps

/-- Every rotation can be done, every key set that the document moves to is established, and no
minimum is stronger than the profile that it is asked of. -/
def Allowed (env : Env H) (kdf : PasswordKdf) : SecurityProfile H → List (CustodyStep H) → Prop
  | _, [] => True
  | profile, .rotate rotation :: steps => rotation.Usable kdf ∧ Allowed env kdf profile steps
  | profile, .move step :: steps => NotStronger env step.minProfile profile ∧
    Established env step.keyset ∧ Allowed env kdf step.keyset.profile steps

/-- One handle of each key pair, in order. -/
inductive Handles : List (Source H) → List (PyStr × Bytes) → List H → Prop
  | nil : Handles [] [] []
  | cons {s : Source H} {ss : List (Source H)} {pub : Bytes} {keys : List (PyStr × Bytes)}
    {handle : H} {handles : List H} (head : s.Handle pub handle) (rest : Handles ss keys handles) :
    Handles (s :: ss) ((s.algorithmId, pub) :: keys) (handle :: handles)

namespace Handles

variable {ss : List (Source H)} {keys : List (PyStr × Bytes)} {handles : List H}

theorem of_generated {rt rt' : Runtime}
    (h : (generateKeypairs ss).run rt = (.ok (keys, handles), rt')) : Handles ss keys handles := by
  induction ss generalizing rt keys handles with
  | nil =>
    cases h
    exact Handles.nil
  | cons s ss ih =>
    unfold generateKeypairs at h
    obtain ⟨⟨pub, priv⟩, rt₁, hgen, h⟩ := Eff.bind_eq_ok.mp h
    obtain ⟨⟨keys₁, handles₁⟩, rt₂, hrest, h⟩ := Eff.bind_eq_ok.mp h
    cases h
    rw [Runtime.sample, Eff.run_zoom] at hgen
    have hrun : s.generateKeypair.run rt.entropy =
        (.ok (pub, priv), (s.generateKeypair.run rt.entropy).2) :=
      Prod.ext (Prod.mk.inj hgen).1 rfl
    exact Handles.cons (.generated hrun) (ih hrest)

theorem ids (h : Handles ss keys handles) : keys.map Prod.fst = ss.map (·.algorithmId) := by
  induction h with
  | nil => rfl
  | cons _ _ ih => rw [List.map_cons, List.map_cons, ih]

theorem keysMatch (hs : ∀ s ∈ ss, s.Lasting) (h : Handles ss keys handles) :
    KeysMatch ss keys handles := by
  induction h with
  | nil => exact KeysMatch.nil
  | @cons s ss pub keys handle handles head rest ih =>
    rw [List.forall_mem_cons] at hs
    exact KeysMatch.cons (hs.1.opens pub handle head) (ih hs.2)

theorem small (hs : ∀ s ∈ ss, s.Lasting) (h : Handles ss keys handles) :
    ∀ e ∈ keys, e.2.length ≤ 16384 := by
  induction h with
  | nil => simp
  | @cons s ss pub keys handle handles head rest ih =>
    rw [List.forall_mem_cons] at hs ⊢
    exact ⟨hs.1.publicLength pub handle head, ih hs.2⟩

theorem serialized (hs : ∀ s ∈ ss, s.Lasting) (h : Handles ss keys handles) :
    ∃ entries, Serialized ss handles entries ∧ ∀ e ∈ entries, e.2.length ≤ 16384 := by
  induction h with
  | nil => exact ⟨[], Serialized.nil, by simp⟩
  | @cons s ss pub keys handle handles head rest ih =>
    rw [List.forall_mem_cons] at hs
    obtain ⟨b, hb, hlen⟩ := hs.1.saves pub handle head
    obtain ⟨entries, hser, hlens⟩ := ih hs.2
    refine ⟨(s.algorithmId, b) :: entries, Serialized.cons hb hser, ?_⟩
    rw [List.forall_mem_cons]
    exact ⟨hlen, hlens⟩

/-- What was saved is read back as handles of the same keys. -/
theorem opened (hs : ∀ s ∈ ss, s.Lasting) (h : Handles ss keys handles)
    {entries : List (PyStr × Bytes)} (hser : Serialized ss handles entries) :
    ∃ handles', Opened ss entries keys handles' ∧ Handles ss keys handles' := by
  induction h generalizing entries with
  | nil =>
    cases hser
    exact ⟨[], Opened.nil, Handles.nil⟩
  | @cons s ss pub keys handle handles head rest ih =>
    rw [List.forall_mem_cons] at hs
    cases hser with
    | @cons _ _ _ _ b entries hb hser =>
      obtain ⟨handle', hread, -⟩ := hs.1.reads pub handle b head hb
      obtain ⟨handles', hopened, hhandles⟩ := ih hs.2 hser
      exact ⟨handle' :: handles', Opened.cons hread hopened,
        Handles.cons (head.reloaded hb hread) hhandles⟩

end Handles

theorem entriesSize_le {member : String} {entries : List (PyStr × Bytes)}
    (hmember : quotedSize member ≤ 16) (hcount : entries.length ≤ 3)
    (hids : ∀ e ∈ entries, quotedSize e.1 ≤ 1024) (hlens : ∀ e ∈ entries, e.2.length ≤ 16384) :
    entriesSize member entries ≤ 70000 := by
  have hentry : ∀ n ∈ entries.map (fun e =>
      18 + quotedSize member + quotedSize e.1 + Base64.size e.2.length), n ≤ 22910 := by
    rw [List.forall_mem_map]
    intro e he
    have hid := hids e he
    have hlen := hlens e he
    rw [Base64.size]
    omega
  have hsum := List.sum_le_card_nsmul _ _ hentry
  rw [List.length_map, Nat.nsmul_eq_mul] at hsum
  rw [entriesSize]
  omega

/-- What a registry of lasting sources guarantees: ids that JSON gives back as they are, and
profiles that make no large keystores. -/
structure Env.Lasting (env : Env H) : Prop where
  wellFormed : env.profiles.WellFormed
  writable : ∀ id p, env.profiles.lookup id = some p → p.Writable
  textual : ∀ id p, env.profiles.lookup id = some p →
    id.joined = id ∧ ∀ s ∈ p.sources, s.algorithmId.joined = s.algorithmId
  brief : ∀ id p, env.profiles.lookup id = some p → p.sources.length ≤ 3 ∧ quotedSize id ≤ 1024 ∧
    ∀ s ∈ p.sources, quotedSize s.algorithmId ≤ 1024
  sources : ∀ id p, env.profiles.lookup id = some p → ∀ s ∈ p.sources, s.Lasting
  aead : env.aead.Correct

namespace Env.Lasting

variable {env : Env H}

theorem sound (he : env.Lasting) : env.Sound :=
  ⟨he.wellFormed, he.writable, fun id p hp s hs => (he.sources id p hp s hs).kem, he.aead⟩

theorem compact (he : env.Lasting) : env.Compact :=
  fun id p hp => ⟨(he.brief id p hp).1, fun s hs => (he.sources id p hp s hs).compact⟩

theorem fit (he : env.Lasting) : env.HeadersFit := headersFit he.wellFormed he.compact

theorem durable (he : env.Lasting) : env.Durable where
  toSound := he.sound
  textual := he.textual
  reloads id p hp s hs := (he.sources id p hp s hs).reloads

end Env.Lasting

theorem builtinEnv_lasting {K₁ K₂ : Type} (x : X25519 K₁) (o : Oqs K₂) (hkdf : Hkdf) (aead : Aead)
    (hx : x.Documented)
    (ho : ∀ kemName ∈ ["ML-KEM-768", "ML-KEM-1024"], kemName ∈ o.enabled → o.Documented kemName)
    (ha : aead.Correct) : (builtinEnv x o hkdf aead).Lasting where
  wellFormed := profileRegistry_wellFormed x o
  writable := profileRegistry_writable x o
  textual _ _ h := profileRegistry_joined h
  brief id p h := by
    have hx25519 : quotedSize (.text "x25519") ≤ 1024 := by decide +kernel
    have hmlkem768 : quotedSize (pqcAlgorithmId "ML-KEM-768") ≤ 1024 := by decide +kernel
    have hmlkem1024 : quotedSize (pqcAlgorithmId "ML-KEM-1024") ≤ 1024 := by decide +kernel
    refine profileRegistry_cases ?_ ?_ ?_ h <;>
      refine ⟨by simp, by decide +kernel, ?_⟩ <;>
      simp only [List.forall_mem_cons, List.not_mem_nil, false_implies, implies_true, and_true]
    · exact hx25519
    · exact ⟨hx25519, hmlkem768⟩
    · exact ⟨hx25519, hmlkem1024⟩
  sources _ _ h := profileRegistry_lasting hx ho h
  aead := ha

/-- Whoever has the key set can open what is sealed for its bundle, and save it. -/
structure KeySet.Owned (env : Env H) (k : KeySet H) : Prop where
  reachable : env.Reachable k.publicBundle k.profile
  handles : Handles k.profile.sources k.publicBundle.publicKeys k.privateHandles

theorem Established.owned {env : Env H} {k : KeySet H} (he : env.Lasting)
    (hk : Established env k) : k.Owned env := by
  obtain ⟨hreach, -⟩ := hk.usable he.sound
  obtain ⟨rt, rt', hgen⟩ := hk.generated
  exact ⟨hreach, Handles.of_generated hgen⟩

namespace KeySet.Owned

variable {env : Env H} {k : KeySet H}

theorem sources (he : env.Lasting) (hk : k.Owned env) : ∀ s ∈ k.profile.sources, s.Lasting :=
  he.sources _ _ hk.reachable.registered

theorem keysMatch (he : env.Lasting) (hk : k.Owned env) :
    KeysMatch k.profile.sources k.publicBundle.publicKeys k.privateHandles :=
  hk.handles.keysMatch (hk.sources he)

theorem keystoreSize_le (he : env.Lasting) (hk : k.Owned env) {entries : List (PyStr × Bytes)}
    (hser : Serialized k.profile.sources k.privateHandles entries)
    (hlens : ∀ e ∈ entries, e.2.length ≤ 16384) : k.keystoreSize entries ≤ maxKeystoreSize := by
  obtain ⟨hcount, hid, hids⟩ := he.brief _ _ hk.reachable.registered
  have hall : ∀ {l : List (PyStr × Bytes)}, l.map Prod.fst = k.profile.sources.map (·.algorithmId) →
      l.length ≤ 3 ∧ ∀ e ∈ l, quotedSize e.1 ≤ 1024 := by
    intro l hl
    have hlength := congrArg List.length hl
    rw [List.length_map, List.length_map] at hlength
    refine ⟨by omega, ?_⟩
    intro e he
    have hmem : e.1 ∈ k.profile.sources.map (·.algorithmId) := by
      rw [← hl]
      exact List.mem_map_of_mem he
    obtain ⟨s, hs, heq⟩ := List.mem_map.mp hmem
    rw [← heq]
    exact hids s hs
  obtain ⟨hkeysCount, hkeysIds⟩ := hall hk.handles.ids
  obtain ⟨hentriesCount, hentriesIds⟩ := hall hser.ids
  have hkeys : entriesSize "key_b64" k.publicBundle.publicKeys ≤ 70000 :=
    entriesSize_le (by decide +kernel) hkeysCount hkeysIds (hk.handles.small (hk.sources he))
  have hentries : entriesSize "priv_b64" entries ≤ 70000 :=
    entriesSize_le (by decide +kernel) hentriesCount hentriesIds hlens
  rw [KeySet.keystoreSize, payloadSize, hk.reachable.profileId]
  simp only [saltLen, nonceLen, maxKeystoreSize]
  omega

/-- Its keystore is written, whatever the password and the derivation function. -/
theorem exports (he : env.Lasting) (hk : k.Owned env) {kdf : PasswordKdf} {password : Password}
    {pw : Bytes} (hpw : password.encode = .ok pw) (hne : pw ≠ []) (hkdf : kdf.Returns pw)
    (useArgon2 : Bool) {rt : Runtime} (hp : rt.kdfPermits ≠ 0) : ∃ blob rt',
      (exportKeysetBytes env kdf k password useArgon2).run rt = (.ok blob, rt') ∧
      blob.length ≤ maxKeystoreSize := by
  obtain ⟨entries, hser, hlens⟩ := hk.handles.serialized (hk.sources he)
  have hsize := hk.keystoreSize_le he hser hlens
  have hcount := congrArg List.length hk.handles.ids
  rw [List.length_map, List.length_map] at hcount
  have hconsistent : k.Consistent :=
    ⟨hk.reachable.profileId, hcount.symm, hser.length_eq.1⟩
  have htext : (k.payload entries).Textual := keystoreJson_textual _ _ _
  obtain ⟨plaintext, hencode, hlen⟩ := Json.encode_dumps htext none
  have hplain := exportPlaintext_eq_ok.mpr ⟨hconsistent, entries, hser, hencode⟩
  have haccepts : env.aead.Accepts plaintext := by
    apply he.aead.accepts
    rw [KeySet.payload, keystoreJson_length, payloadSize_joined] at hlen
    rw [KeySet.keystoreSize, maxKeystoreSize] at hsize
    omega
  obtain ⟨blob, rt', hexport⟩ :=
    exportKeysetBytes_returns he.aead.toDocumented hplain haccepts hpw hne hkdf useArgon2 hp
  obtain ⟨entries', -, -, hser', -, -, hblob, -⟩ := exportKeysetBytes_sealed he.aead hexport
  obtain rfl := hser'.unique hser
  exact ⟨blob, rt', hexport, hblob ▸ hsize⟩

/-- What import finds in it are handles of the same keys. -/
theorem imports (he : env.Lasting) (hk : k.Owned env) {kdf : PasswordKdf} {password : Password}
    {useArgon2 : Bool} {rt rt' : Runtime} {blob : Bytes}
    (hexport : (exportKeysetBytes env kdf k password useArgon2).run rt = (.ok blob, rt'))
    (hsize : blob.length ≤ maxKeystoreSize) {rt₁ : Runtime} (hp : rt₁.kdfPermits ≠ 0) :
    ∃ k' rt₂, (importKeysetBytes env kdf blob password).run rt₁ = (.ok k', rt₂) ∧
      k'.profile = k.profile ∧ k'.publicBundle = k.publicBundle ∧ k'.Owned env := by
  have hreg := hk.reachable.registered
  obtain ⟨hid, hsources⟩ := he.textual _ _ hreg
  obtain ⟨entries, pw, -, hser, hpw, hne, -, hsealed⟩ := exportKeysetBytes_sealed he.aead hexport
  obtain ⟨handles, hopened, hhandles⟩ := hk.handles.opened (hk.sources he) hser
  have hkeys := joinedIds_of_ids hk.handles.ids hsources
  have hentries := joinedIds_of_ids hser.ids hsources
  have hprofile := hk.reachable.profileId
  have hjoined : k.publicBundle.joined = k.publicBundle := by
    rw [PublicBundle.joined, hid, hkeys]
  have hread : importPayload env (keystoreJson k.publicBundle.profileId k.publicBundle entries) =
      .ok (importedKeyset k.profile k.publicBundle handles) :=
    (importPayload_eq_ok hjoined).mpr ⟨k.profile, handles, he.wellFormed.named _ _ hreg, hreg, rfl,
      hprofile, hopened, rfl⟩
  have hpayload := hsealed hsize
  rw [hprofile, hid, hjoined, hentries] at hpayload
  obtain ⟨rt₂, hrun⟩ := (importKeysetBytes_eq_ok hpw hne hp).mpr ⟨_, hpayload, hread⟩
  exact ⟨_, rt₂, hrun, rfl, rfl, hk.reachable, hhandles⟩

theorem rotates (he : env.Lasting) (hk : k.Owned env) {kdf : PasswordKdf} {r : Rotation}
    (hr : r.Usable kdf) : ∃ k', rotate env kdf k r = .ok k' ∧
      k'.profile = k.profile ∧ k'.publicBundle = k.publicBundle ∧ k'.Owned env := by
  obtain ⟨pw, hpw, hne, hkdf, hp, hp'⟩ := hr
  obtain ⟨blob, rt', hexport, hsize⟩ := hk.exports he hpw hne hkdf r.useArgon2 hp
  obtain ⟨k', rt₂, himport, hprofile, hbundle, hk'⟩ := hk.imports he hexport hsize hp'
  refine ⟨k', ?_, hprofile, hbundle, hk'⟩
  rw [rotate, hexport, ok_bind, himport]

end KeySet.Owned

/-- A document that was sealed for the bundle. -/
inductive DocumentFor (env : Env H) (bundle : PublicBundle) (profile : SecurityProfile H)
    (plaintext : Bytes) : Bool → Bytes → Prop
  | blob {doc : Bytes} (size : plaintext.length < 2 ^ 31)
    (whole : BlobFor env bundle profile plaintext doc) :
    DocumentFor env bundle profile plaintext false doc
  | stream {doc : Bytes} {chunks : List Bytes} (flat : chunks.flatten = plaintext)
    (whole : StreamFor env bundle chunks doc) : DocumentFor env bundle profile plaintext true doc

section Documents

variable {env : Env H} {k : KeySet H} {stream : Bool} {plaintext doc : Bytes}

theorem sealDocument_documentFor {bundle : PublicBundle} {profile : SecurityProfile H}
    (hreg : env.profiles.lookup bundle.profileId = some profile)
    (hsize : stream = false → plaintext.length < 2 ^ 31) {chunkSize : Int} {rt rt' : Runtime}
    (h : (sealDocument env stream bundle chunkSize plaintext).run rt = (.ok doc, rt')) :
    DocumentFor env bundle profile plaintext stream doc := by
  cases stream with
  | false => exact DocumentFor.blob (hsize rfl) (encrypt_blobFor hreg h)
  | true =>
    change (inMemory (encryptStream env bundle chunkSize) plaintext).run rt = (.ok doc, rt') at h
    obtain ⟨w, hrun, rfl, -⟩ := inMemory_eq_ok.mp h
    obtain ⟨chunks, hflat, hwhole⟩ :=
      encryptStream_streamFor (memoryStream_fills plaintext).delivers hrun
    exact DocumentFor.stream hflat hwhole

/-- The owner opens the document. -/
theorem DocumentFor.opens (he : env.Lasting) (hk : k.Owned env)
    (hd : DocumentFor env k.publicBundle k.profile plaintext stream doc) {minProfile : Option PyStr}
    (hmin : NotStronger env minProfile k.profile) (rt : Runtime) :
    ((openDocument env stream k.privateHandles minProfile doc).run rt).1 = .ok plaintext := by
  have hm := hk.keysMatch he
  cases hd with
  | blob _ whole =>
    obtain ⟨rt', hrun⟩ := decrypt_returns he.wellFormed he.aead hm hmin whole rt
    exact congrArg Prod.fst hrun
  | stream flat whole =>
    obtain ⟨w, hrun, hout⟩ := whole.decryptStream he.wellFormed he.aead (he.fit _ _ _ whole)
      hk.reachable.registered hm hmin (memoryStream_fills doc) bytesSink_reliable rt BytesSink.mk
    exact congrArg Prod.fst (inMemory_eq_ok.mpr ⟨w, hrun, hout.trans flat, rfl⟩)

/-- The owner moves it to another key set. -/
theorem DocumentFor.moves (he : env.Lasting) (hk : k.Owned env)
    (hd : DocumentFor env k.publicBundle k.profile plaintext stream doc) {minProfile : Option PyStr}
    (hmin : NotStronger env minProfile k.profile) {k' : KeySet H} (hk' : k'.Owned env)
    (rt : Runtime) : ∃ doc', ((moveDocument env stream k.privateHandles k'.publicBundle minProfile
        doc).run rt).1 = .ok doc' ∧
      DocumentFor env k'.publicBundle k'.profile plaintext stream doc' := by
  have hm := hk.keysMatch he
  cases hd with
  | blob size whole =>
    obtain ⟨rt₁, hdecrypt⟩ := decrypt_returns he.wellFormed he.aead hm hmin whole rt
    obtain ⟨doc', rt₂, hencrypt, hwhole⟩ :=
      encrypt_returns he.aead.toDocumented hk'.reachable (he.aead.accepts size) rt₁
    have hmigrate : (migrate env k.privateHandles doc k'.publicBundle minProfile).run rt =
        (.ok doc', rt₂) := by
      rw [migrate, Eff.bind_ok hdecrypt, hencrypt]
    exact ⟨doc', congrArg Prod.fst hmigrate, DocumentFor.blob size hwhole⟩
  | stream flat whole =>
    obtain ⟨w, hrun, hwhole⟩ := whole.migrateStream he.wellFormed he.aead (he.fit _ _ _ whole)
      hk.reachable.registered hm hmin (memoryStream_fills doc) bytesSink_reliable hk'.reachable rt
      BytesSink.mk
    exact ⟨w.out, congrArg Prod.fst (inMemory_eq_ok.mpr ⟨w, hrun, rfl, rfl⟩),
      DocumentFor.stream flat hwhole⟩

/-- By induction on the steps: the owner's key set stays that of the holder, and the document stays
sealed for it. -/
theorem custody_returns (he : env.Lasting) {kdf : PasswordKdf} (hk : k.Owned env)
    (hd : DocumentFor env k.publicBundle k.profile plaintext stream doc)
    {steps : List (CustodyStep H)} (hsteps : Allowed env kdf k.profile steps) : ∃ kn result,
      custody env kdf stream k doc steps = .ok (kn, result) ∧ kn.Owned env ∧
      kn.profile = (holder k steps).profile ∧ kn.publicBundle = (holder k steps).publicBundle ∧
      DocumentFor env kn.publicBundle kn.profile plaintext stream result := by
  induction steps generalizing k doc with
  | nil => exact ⟨k, doc, rfl, hk, rfl, rfl, hd⟩
  | cons step steps ih =>
    cases step with
    | rotate rotation =>
      obtain ⟨husable, hrest⟩ := hsteps
      obtain ⟨k', hrotate, hprofile, hbundle, hk'⟩ := hk.rotates he husable
      rw [← hprofile] at hrest
      rw [← hprofile, ← hbundle] at hd
      have hholder : (holder k' steps).profile = (holder k steps).profile ∧
          (holder k' steps).publicBundle = (holder k steps).publicBundle := by
        clear ih hrest
        induction steps with
        | nil => exact ⟨hprofile, hbundle⟩
        | cons step steps ih =>
          cases step with
          | rotate _ => exact ih
          | move _ => exact ⟨rfl, rfl⟩
      obtain ⟨kn, result, hrun, howned, hsame, hsame', hdoc⟩ := ih hk' hd hrest
      refine ⟨kn, result, ?_, howned, hsame.trans hholder.1, hsame'.trans hholder.2, hdoc⟩
      rw [custody, hrotate]
      exact hrun
    | move step =>
      obtain ⟨hmin, hnew, hrest⟩ := hsteps
      have hk' := hnew.owned he
      obtain ⟨doc', hmove, hd'⟩ := hd.moves he hk hmin hk' step.rt
      obtain ⟨kn, result, hrun, hlast⟩ := ih hk' hd' hrest
      refine ⟨kn, result, ?_, hlast⟩
      rw [custody, hmove]
      exact hrun

end Documents

/-- However often its owner saves the keys and loads them again, and through whichever key sets the
document moves: every step returns, the owner ends up with the bundle that the document was moved to
last, and opens it. -/
theorem custody_opens {K₁ K₂ : Type} (x : X25519 K₁) (o : Oqs K₂) (hkdf : Hkdf) (aead : Aead)
    (kdf : PasswordKdf) (hx : x.Documented)
    (ho : ∀ kemName ∈ ["ML-KEM-768", "ML-KEM-1024"], kemName ∈ o.enabled → o.Documented kemName)
    (ha : aead.Correct) (k : KeySet (PrivateHandle K₁ K₂))
    (hk : Established (builtinEnv x o hkdf aead) k) (stream : Bool) (plaintext : Bytes)
    (hsize : stream = false → plaintext.length < 2 ^ 31) (chunkSize : Int) (rt rt' : Runtime)
    (doc : Bytes) (hdoc : (sealDocument (builtinEnv x o hkdf aead) stream k.publicBundle chunkSize
      plaintext).run rt = (.ok doc, rt'))
    (steps : List (CustodyStep (PrivateHandle K₁ K₂)))
    (hsteps : Allowed (builtinEnv x o hkdf aead) kdf k.profile steps) : ∃ kn result,
      custody (builtinEnv x o hkdf aead) kdf stream k doc steps = .ok (kn, result) ∧
      kn.profile = (holder k steps).profile ∧ kn.publicBundle = (holder k steps).publicBundle ∧
      ∀ minProfile rt₁, NotStronger (builtinEnv x o hkdf aead) minProfile kn.profile →
        ((openDocument (builtinEnv x o hkdf aead) stream kn.privateHandles minProfile
          result).run rt₁).1 = .ok plaintext := by
  have he := builtinEnv_lasting x o hkdf aead hx ho ha
  have howned := hk.owned he
  have hd := sealDocument_documentFor howned.reachable.registered hsize hdoc
  obtain ⟨kn, result, hrun, hkn, hprofile, hbundle, hresult⟩ := custody_returns he howned hd hsteps
  refine ⟨kn, result, hrun, hprofile, hbundle, ?_⟩
  intro minProfile rt₁ hmin
  exact hresult.opens he hkn hmin rt₁

theorem custody_opens_zero : ∃ keyset doc kn result,
    custody (xorEnv zeroTagAead) padKdf true keyset doc
      [.rotate ⟨.str "pw", true, zeroRuntime, zeroRuntime⟩,
        .move ⟨some "classical_only", keyset, zeroRuntime⟩,
        .rotate ⟨.bytes [0x70], false, zeroRuntime, zeroRuntime⟩] = .ok (kn, result) ∧
    kn.publicBundle = zeroBundle ∧
    ((openDocument (xorEnv zeroTagAead) true kn.privateHandles none result).run zeroRuntime).1 =
      .ok [1, 2, 3] := by
  obtain ⟨keyset, rt, hkeys, hbundle, hstrength⟩ := establishKeys_zeroKeyset
  have hk : Established (xorEnv zeroTagAead) keyset := ⟨_, _, _, _, _, hkeys⟩
  have hmin : NotStronger (xorEnv zeroTagAead) (some "classical_only") keyset.profile := by
    intro minId hid
    cases hid
    refine ⟨_, rfl, ?_⟩
    rw [hstrength]
    decide
  have hp : zeroRuntime.kdfPermits ≠ 0 := by decide
  have hsteps : Allowed (xorEnv zeroTagAead) padKdf keyset.profile
      [.rotate ⟨.str "pw", true, zeroRuntime, zeroRuntime⟩,
        .move ⟨some "classical_only", keyset, zeroRuntime⟩,
        .rotate ⟨.bytes [0x70], false, zeroRuntime, zeroRuntime⟩] :=
    ⟨⟨[0x70, 0x77], rfl, by simp, padKdf_returns _, hp, hp⟩, hmin, hk,
      ⟨[0x70], rfl, by simp, padKdf_returns _, hp, hp⟩, trivial⟩
  have hpos : (0 : Int) < 2 := by decide
  have htwo : (2 : Int) ≤ maxChunkPlaintextSize := by decide
  obtain ⟨w, hrun⟩ := encryptStream_returns bytesSink_reliable zeroTagAead_correct
    (zeroKey_derivedFrom zeroTagAead) hpos htwo (memoryStream_fills [1, 2, 3]).delivers
    (by decide) BytesSink.mk
  rw [← hbundle] at hrun
  have hdoc : (sealDocument (xorEnv zeroTagAead) true keyset.publicBundle 2 [1, 2, 3]).run
      zeroRuntime = (.ok w.out, w.rt) := inMemory_eq_ok.mpr ⟨w, hrun, rfl, rfl⟩
  obtain ⟨kn, result, hall, -, hlast, hopens⟩ := custody_opens xorX25519 xorOqs xorHkdf zeroTagAead
    padKdf xorX25519_documented (fun kemName _ _ => xorOqs_documented kemName) zeroTagAead_correct
    keyset hk true [1, 2, 3] (fun h => nomatch h) 2 _ _ _ hdoc _ hsteps
  refine ⟨keyset, w.out, kn, result, hall, hlast.trans hbundle, hopens none _ ?_⟩
  intro minId hid
  cases hid

end CryptoFlex
