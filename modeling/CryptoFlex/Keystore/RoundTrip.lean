import CryptoFlex.Api.KeyRecovery
import CryptoFlex.Keystore.Export
import CryptoFlex.Keystore.Failures

namespace CryptoFlex

open Lib

variable {H : Type}

/-- The sources read the private entries, each under its own algorithm id, which is also that of
the public key beside it. -/
inductive Opened : List (Source H) → List (PyStr × Bytes) → List (PyStr × Bytes) → List H → Prop
  | nil : Opened [] [] [] []
  | cons {s : Source H} {ss : List (Source H)} {b pub : Bytes}
    {entries keys : List (PyStr × Bytes)} {handle : H} {handles : List H}
    (head : s.deserializePrivate b = .ok handle) (rest : Opened ss entries keys handles) :
    Opened (s :: ss) ((s.algorithmId, b) :: entries) ((s.algorithmId, pub) :: keys)
      (handle :: handles)

theorem Opened.length_eq {ss : List (Source H)} {entries keys : List (PyStr × Bytes)}
    {handles : List H} (h : Opened ss entries keys handles) :
    ss.length = entries.length ∧ ss.length = keys.length := by
  induction h with
  | nil => exact ⟨rfl, rfl⟩
  | cons _ _ ih => exact ⟨congrArg (· + 1) ih.1, congrArg (· + 1) ih.2⟩

theorem Opened.keyIds {ss : List (Source H)} {entries keys : List (PyStr × Bytes)}
    {handles : List H} (h : Opened ss entries keys handles) :
    keys.map Prod.fst = ss.map (·.algorithmId) := by
  induction h with
  | nil => rfl
  | cons _ _ ih => rw [List.map_cons, List.map_cons, ih]

theorem importHandle_eq_ok {source : Source H} {entry : PyStr × Bytes} {bundleAlgId : PyStr}
    {handle : H} : importHandle source (handleJson entry) bundleAlgId = .ok handle ↔
      source.algorithmId = entry.1 ∧ source.algorithmId = bundleAlgId ∧
        source.deserializePrivate entry.2 = .ok handle := by
  have hrun : importHandle source (handleJson entry) bundleAlgId =
      if source.algorithmId ≠ entry.1 then
        .error (.decryptionError ("mismatched component algorithm in keystore: expected " ++
          s!"'{source.algorithmId}', got '{entry.1}'"))
      else if source.algorithmId ≠ bundleAlgId then
        .error (.decryptionError ("mismatched component algorithm in public bundle: expected " ++
          s!"'{source.algorithmId}', got '{bundleAlgId}'"))
      else (b64decode (b64encode entry.2) >>= source.deserializePrivate).mapError fun e : Exc =>
        .decryptionError s!"failed to deserialize private key for '{entry.1}': {e.text}" := rfl
  rw [hrun, b64decode_b64encode, ok_bind]
  split
  · next h => exact ⟨nofun, fun hc => absurd hc.1 h⟩
  next hid =>
  split
  · next h => exact ⟨nofun, fun hc => absurd hc.2.1 h⟩
  next hbundle =>
  cases source.deserializePrivate entry.2 with
  | error e => exact ⟨nofun, fun hc => nomatch hc.2.2⟩
  | ok handle' =>
    constructor
    · intro h
      cases h
      exact ⟨not_not.mp hid, not_not.mp hbundle, rfl⟩
    · rintro ⟨-, -, h⟩
      cases h
      rfl

theorem importHandles_eq_ok {ss : List (Source H)} {entries keys : List (PyStr × Bytes)}
    (hentries : ss.length = entries.length) (hkeys : ss.length = keys.length) {handles : List H} :
    importHandles (ss.zip ((entries.map handleJson).zip keys)) = .ok handles ↔
      Opened ss entries keys handles := by
  induction ss generalizing entries keys handles with
  | nil =>
    obtain rfl := List.length_eq_zero_iff.mp hentries.symm
    obtain rfl := List.length_eq_zero_iff.mp hkeys.symm
    constructor
    · intro h
      cases h
      exact Opened.nil
    · intro h
      cases h
      rfl
  | cons s ss ih =>
    cases entries with
    | nil => cases hentries
    | cons entry entries =>
    cases keys with
    | nil => cases hkeys
    | cons key keys =>
    obtain ⟨algId, b⟩ := entry
    obtain ⟨bundleAlgId, pub⟩ := key
    have hrest := @ih entries keys (Nat.succ.inj hentries) (Nat.succ.inj hkeys)
    constructor
    · intro h
      obtain ⟨handle, hhead, h⟩ := bind_eq_ok.mp h
      obtain ⟨handles', htail, h⟩ := bind_eq_ok.mp h
      cases h
      obtain ⟨rfl, rfl, hopen⟩ := importHandle_eq_ok.mp hhead
      exact Opened.cons hopen (hrest.mp htail)
    · intro h
      cases h with
      | @cons _ _ _ _ _ _ handle handles head rest =>
        rw [List.map_cons, List.zip_cons_cons, List.zip_cons_cons, importHandles,
          importHandle_eq_ok.mpr ⟨rfl, rfl, head⟩, ok_bind, hrest.mpr rest]
        rfl

theorem checkBinding_eq_ok {id : PyStr} {bundle : PublicBundle} {profile : SecurityProfile H} :
    checkBinding id bundle profile = .ok () ↔ bundle.profileId = id ∧ profile.profileId = id := by
  unfold checkBinding
  split
  · next h => exact ⟨nofun, fun hc => absurd hc.1 h⟩
  next hbundle =>
  split
  · next h => exact ⟨nofun, fun hc => absurd hc.2 h⟩
  next hprofile => exact ⟨fun _ => ⟨not_not.mp hbundle, not_not.mp hprofile⟩, fun _ => rfl⟩

theorem checkCounts_eq_ok {profile : SecurityProfile H} {items : List Json}
    {bundle : PublicBundle} : checkCounts profile items bundle = .ok () ↔
      profile.sources.length = items.length ∧
        profile.sources.length = bundle.publicKeys.length := by
  unfold checkCounts
  split
  · next h => exact ⟨nofun, fun hc => absurd hc.1 h⟩
  next hitems =>
  split
  · next h => exact ⟨nofun, fun hc => absurd hc.2 h⟩
  next hkeys => exact ⟨fun _ => ⟨not_not.mp hitems, not_not.mp hkeys⟩, fun _ => rfl⟩

/-- The keyset that import builds. -/
def importedKeyset (profile : SecurityProfile H) (bundle : PublicBundle) (handles : List H) :
    KeySet H where
  profile := profile
  publicBundle := bundle
  privateHandles := handles
  policyDecision := policyDecision profile "imported from keystore" false profile.profileId

/-- A payload that was written for a bundle and private entries is read as a keyset exactly when
the registry has a profile for it. -/
theorem importPayload_eq_ok {env : Env H} {id : PyStr} {bundle : PublicBundle}
    (hbundle : bundle.joined = bundle) {entries : List (PyStr × Bytes)} {k : KeySet H} :
    importPayload env (keystoreJson id bundle entries) = .ok k ↔
      ∃ profile handles, id ≠ .text "" ∧ env.profiles.lookup id = some profile ∧
        bundle.profileId = id ∧ profile.profileId = id ∧
        Opened profile.sources entries bundle.publicKeys handles ∧
        k = importedKeyset profile bundle handles := by
  have hnames : ∀ kid profile, importProfile env (keystoreJson id bundle entries) =
      .ok (kid, profile) ↔ kid = id ∧ id ≠ .text "" ∧ env.profiles.lookup id = some profile := by
    intro kid profile
    have hfield : NamesProfile env [("profile_id", .str id), ("public_bundle", bundleJson bundle),
        ("private_handles", .arr (entries.map handleJson))] kid profile ↔
        kid = id ∧ id ≠ .text "" ∧ env.profiles.lookup id = some profile := by
      constructor
      · rintro ⟨hid, hne, hlookup⟩
        cases hid
        exact ⟨rfl, hne, hlookup⟩
      · rintro ⟨rfl, hne, hlookup⟩
        exact ⟨rfl, hne, hlookup⟩
    exact importProfile_eq_ok.trans hfield
  have hread := deserializePublicBundle_dumps bundle none
  rw [hbundle] at hread
  have hitem : (keystoreJson id bundle entries).getItem "public_bundle" =
      .ok (bundleJson bundle) := rfl
  have hhandles : (keystoreJson id bundle entries).get "private_handles" (.arr []) =
      .ok (.arr (entries.map handleJson)) := rfl
  unfold importPayload
  constructor
  · intro h
    obtain ⟨⟨kid, profile⟩, hprofile, h⟩ := bind_eq_ok.mp h
    obtain ⟨rfl, hne, hlookup⟩ := (hnames kid profile).mp hprofile
    dsimp only at h
    rw [hitem, ok_bind, hread, ok_bind] at h
    obtain ⟨⟨⟩, hbinding, h⟩ := bind_eq_ok.mp h
    rw [hhandles, ok_bind] at h
    obtain ⟨⟨⟩, hcounts, h⟩ := bind_eq_ok.mp h
    obtain ⟨handles, himport, h⟩ := bind_eq_ok.mp h
    cases h
    obtain ⟨hid, hown⟩ := checkBinding_eq_ok.mp hbinding
    obtain ⟨hentries, hkeys⟩ := checkCounts_eq_ok.mp hcounts
    rw [List.length_map] at hentries
    exact ⟨profile, handles, hne, hlookup, hid, hown,
      (importHandles_eq_ok hentries hkeys).mp himport, rfl⟩
  · rintro ⟨profile, handles, hne, hlookup, hid, hown, hopen, rfl⟩
    obtain ⟨hentries, hkeys⟩ := hopen.length_eq
    have hcounts : checkCounts profile (entries.map handleJson) bundle = .ok () :=
      checkCounts_eq_ok.mpr ⟨by rw [List.length_map]; exact hentries, hkeys⟩
    rw [(hnames id profile).mpr ⟨rfl, hne, hlookup⟩, ok_bind]
    dsimp only
    rw [hitem, ok_bind, hread, ok_bind,
      checkBinding_eq_ok.mpr ⟨hid, hown⟩, ok_bind, hhandles, ok_bind]
    dsimp only
    rw [hcounts, ok_bind, (importHandles_eq_ok hentries hkeys).mpr hopen]
    rfl

/-- `deserialize_private` undoes `serialize_private` on a handle. -/
def Source.Restores (s : Source H) (handle : H) : Prop :=
  ∀ b, s.serializePrivate handle = .ok b →
    ∃ handle', s.deserializePrivate b = .ok handle' ∧ s.serializePrivate handle' = .ok b

/-- Sources that restore their handles open what they have written. -/
theorem Serialized.opened {ss : List (Source H)} {handles : List H}
    {entries keys : List (PyStr × Bytes)} (h : Serialized ss handles entries)
    (hr : ∀ e ∈ ss.zip handles, e.1.Restores e.2) (hids : keys.map Prod.fst = ss.map (·.algorithmId)) :
    ∃ handles', Opened ss entries keys handles' ∧ Serialized ss handles' entries := by
  induction h generalizing keys with
  | nil =>
    obtain rfl := List.map_eq_nil_iff.mp hids
    exact ⟨[], Opened.nil, Serialized.nil⟩
  | @cons s ss handle handles b entries head rest ih =>
    cases keys with
    | nil => cases hids
    | cons key keys =>
      obtain ⟨algId, pub⟩ := key
      obtain ⟨hid, hids⟩ := List.cons.inj hids
      obtain ⟨handles', hopen, hser⟩ := ih (fun e he => hr e (List.mem_cons_of_mem _ he)) hids
      obtain ⟨handle', hde, hse⟩ := hr (s, handle) List.mem_cons_self b head
      cases hid
      exact ⟨handle' :: handles', Opened.cons hde hopen, Serialized.cons hse hser⟩

/-- What is sealed in an exported keystore. -/
theorem exportKeysetBytes_sealed {env : Env H} (ha : env.aead.Correct) {kdf : PasswordKdf}
    {keyset : KeySet H} {password : Password} {useArgon2 : Bool} {rt rt' : Runtime} {blob : Bytes}
    (h : (exportKeysetBytes env kdf keyset password useArgon2).run rt = (.ok blob, rt')) :
    ∃ entries pw, keyset.Consistent ∧
      Serialized keyset.profile.sources keyset.privateHandles entries ∧
      password.encode = .ok pw ∧ pw ≠ [] ∧
      blob.length = keyset.keystoreSize entries ∧
      (blob.length ≤ maxKeystoreSize → SealedPayload env kdf pw blob
        (keystoreJson keyset.profile.profileId.joined keyset.publicBundle.joined
          (joinedIds entries))) := by
  obtain ⟨plaintext, pw, hplain, hpw, hne, hlen, hsealed⟩ := exportKeysetBytes_eq_ok ha h
  obtain ⟨hc, entries, hser, hencode⟩ := exportPlaintext_eq_ok.mp hplain
  have htext : (keyset.payload entries).Textual := keystoreJson_textual _ _ _
  have hparse := parsePayload_of_dumps htext hencode
  rw [KeySet.payload, keystoreJson_joined, PublicBundle.joined_joined] at hparse
  obtain ⟨b, hb, hsize⟩ := Json.encode_dumps htext none
  rw [hencode] at hb
  cases hb
  rw [hsize, KeySet.payload, keystoreJson_length, payloadSize_joined] at hlen
  exact ⟨entries, pw, hc, hser, hpw, hne, hlen, hsealed _ hparse⟩

/-- With a place free, import returns exactly what the sealed payload says. -/
theorem importKeysetBytes_eq_ok {env : Env H} {kdf : PasswordKdf} {data : Bytes}
    {password : Password} {pw : Bytes} (hpw : password.encode = .ok pw) (hne : pw ≠ [])
    {rt : Runtime} (hp : rt.kdfPermits ≠ 0) {k : KeySet H} :
    (∃ rt', (importKeysetBytes env kdf data password).run rt = (.ok k, rt')) ↔
      ∃ payload, SealedPayload env kdf pw data payload ∧ importPayload env payload = .ok k := by
  have hrun := importKeysetBytes_outcome env kdf data hpw hne hp
  constructor
  · rintro ⟨rt', h⟩
    rw [h] at hrun
    obtain ⟨payload, hopen, himport⟩ := bind_eq_ok.mp hrun.symm
    exact ⟨payload, openKeystore_eq_ok.mp hopen, himport⟩
  · rintro ⟨payload, hsealed, himport⟩
    rw [openKeystore_eq_ok.mpr hsealed, ok_bind, himport] at hrun
    exact ⟨_, Prod.ext hrun rfl⟩

/-- The ids of the shipped profiles are ordinary text. -/
theorem profileRegistry_joined {K₁ K₂ : Type} {x : X25519 K₁} {o : Oqs K₂} {id : PyStr}
    {p : SecurityProfile (PrivateHandle K₁ K₂)} (h : (profileRegistry x o).lookup id = some p) :
    id.joined = id ∧ ∀ s ∈ p.sources, s.algorithmId.joined = s.algorithmId := by
  refine profileRegistry_cases ?_ ?_ ?_ h <;>
    simp [classicalSource, pqcSource, pqcAlgorithmId]

/-- Entries whose ids are ordinary text come back as they were. -/
theorem joinedIds_of_ids {keys : List (PyStr × Bytes)} {ss : List (Source H)}
    (hids : keys.map Prod.fst = ss.map (·.algorithmId))
    (hs : ∀ s ∈ ss, s.algorithmId.joined = s.algorithmId) : joinedIds keys = keys := by
  induction keys generalizing ss with
  | nil => rfl
  | cons key keys ih =>
    cases ss with
    | nil => cases hids
    | cons s ss =>
      obtain ⟨hid, hrest⟩ := List.cons.inj hids
      have hjoined := hs s List.mem_cons_self
      have htail := ih hrest fun t ht => hs t (List.mem_cons_of_mem s ht)
      dsimp only at hid
      rw [← hid] at hjoined
      show (key.1.joined, key.2) :: joinedIds keys = key :: keys
      rw [hjoined, htail]

theorem Serialized.unique {ss : List (Source H)} {handles : List H}
    {entries entries' : List (PyStr × Bytes)} (h : Serialized ss handles entries)
    (h' : Serialized ss handles entries') : entries = entries' := by
  induction h generalizing entries' with
  | nil =>
    cases h'
    rfl
  | cons head rest ih =>
    cases h' with
    | cons head' rest' =>
      rw [head] at head'
      cases head'
      rw [ih rest']

theorem Serialized.ids {ss : List (Source H)} {handles : List H}
    {entries : List (PyStr × Bytes)} (h : Serialized ss handles entries) :
    entries.map Prod.fst = ss.map (·.algorithmId) := by
  induction h with
  | nil => rfl
  | cons _ _ ih => rw [List.map_cons, List.map_cons, ih]

/-- Export returns, and a keystore of an accepted size is imported as the keyset it was made of:
the same profile, an equal bundle, and handles that serialize to the same bytes. -/
theorem importKeysetBytes_exportKeysetBytes {K₁ K₂ : Type} (x : X25519 K₁) (o : Oqs K₂)
    (hkdf : Hkdf) (aead : Aead) (ha : aead.Correct)
    (kdf : PasswordKdf) (keyset : KeySet (PrivateHandle K₁ K₂))
    (hreg : (profileRegistry x o).lookup keyset.profile.profileId = some keyset.profile)
    (hbundle : keyset.publicBundle.profileId = keyset.profile.profileId)
    (hids : keyset.publicBundle.publicKeys.map Prod.fst =
      keyset.profile.sources.map (·.algorithmId))
    (entries : List (PyStr × Bytes))
    (hentries : Serialized keyset.profile.sources keyset.privateHandles entries)
    (hrestores : ∀ e ∈ keyset.profile.sources.zip keyset.privateHandles, e.1.Restores e.2)
    (password : Password) (pw : Bytes) (hpw : password.encode = .ok pw) (hne : pw ≠ [])
    (hreturns : kdf.Returns pw)
    (haccepts : ∀ plaintext, exportPlaintext keyset = .ok plaintext → aead.Accepts plaintext)
    (useArgon2 : Bool) (rt : Runtime) (hp : rt.kdfPermits ≠ 0) :
    ∃ blob rt', (exportKeysetBytes (builtinEnv x o hkdf aead) kdf keyset password useArgon2).run rt =
        (.ok blob, rt') ∧
      (blob.length ≤ maxKeystoreSize → ∀ password' : Password, password'.encode = .ok pw →
        ∀ rt₁ : Runtime, rt₁.kdfPermits ≠ 0 → ∃ k rt₂,
          (importKeysetBytes (builtinEnv x o hkdf aead) kdf blob password').run rt₁ =
            (.ok k, rt₂) ∧
          k.profile = keyset.profile ∧ k.publicBundle = keyset.publicBundle ∧
          Serialized keyset.profile.sources k.privateHandles entries) := by
  have hw := profileRegistry_wellFormed x o
  obtain ⟨hprofileId, hsources⟩ := profileRegistry_joined hreg
  have hkeys := joinedIds_of_ids hids hsources
  have hentryIds := joinedIds_of_ids hentries.ids hsources
  have hjoined : keyset.publicBundle.joined = keyset.publicBundle := by
    rw [PublicBundle.joined, hbundle, hprofileId, hkeys, ← hbundle]
  have hconsistent : keyset.Consistent := by
    refine ⟨hbundle.symm, ?_, hentries.length_eq.1⟩
    have hlen := congrArg List.length hids
    rw [List.length_map, List.length_map] at hlen
    exact hlen.symm
  have htext : (keyset.payload entries).Textual := keystoreJson_textual _ _ _
  obtain ⟨plaintext, hencode, -⟩ := Json.encode_dumps htext none
  have hplain := exportPlaintext_eq_ok.mpr ⟨hconsistent, entries, hentries, hencode⟩
  have haead : (builtinEnv x o hkdf aead).aead.Accepts plaintext := haccepts plaintext hplain
  obtain ⟨blob, rt', hexport⟩ :=
    exportKeysetBytes_returns ha.toDocumented hplain haead hpw hne hreturns useArgon2 hp
  refine ⟨blob, rt', hexport, ?_⟩
  intro hsize password' hpw' rt₁ hp₁
  obtain ⟨entries', pw', -, hser, hpw'', -, -, hsealed⟩ := exportKeysetBytes_sealed ha hexport
  obtain rfl := hser.unique hentries
  rw [hpw] at hpw''
  cases hpw''
  obtain ⟨handles, hopen, hback⟩ := hentries.opened hrestores hids
  have himport : importPayload (builtinEnv x o hkdf aead) (keystoreJson keyset.profile.profileId
      keyset.publicBundle entries') = .ok (importedKeyset keyset.profile keyset.publicBundle handles) :=
    (importPayload_eq_ok hjoined).mpr
      ⟨keyset.profile, handles, hw.named _ _ hreg, hreg, hbundle, rfl, hopen, rfl⟩
  have hpayload := hsealed hsize
  rw [hprofileId, hjoined, hentryIds] at hpayload
  obtain ⟨rt₂, hrun⟩ := (importKeysetBytes_eq_ok hpw' hne hp₁).mpr ⟨_, hpayload, himport⟩
  exact ⟨_, rt₂, hrun, rfl, rfl, hback⟩

def zeroKeyset : KeySet (PrivateHandle Bytes Bytes) where
  profile := PolicyEngine.hybridStandard
  publicBundle := zeroBundle
  privateHandles := zeroHandles
  policyDecision := policyDecision PolicyEngine.hybridStandard "" false ""

def zeroEntries : List (PyStr × Bytes) :=
  [("x25519", List.replicate 32 0), ("mlkem768", List.replicate 32 0)]

theorem zeroKeyset_serialized :
    Serialized zeroKeyset.profile.sources zeroKeyset.privateHandles zeroEntries :=
  Serialized.cons rfl (Serialized.cons rfl Serialized.nil)

theorem zeroKeyset_size : zeroKeyset.keystoreSize zeroEntries ≤ maxKeystoreSize := by
  decide +kernel

theorem zeroKeyset_restores :
    ∀ e ∈ zeroKeyset.profile.sources.zip zeroKeyset.privateHandles, e.1.Restores e.2 := by
  have hclassical : (classicalSource xorX25519 : Source (PrivateHandle Bytes Bytes)).Restores
      (.x25519 (List.replicate 32 0)) := by
    intro b hb
    cases hb
    exact ⟨.x25519 (List.replicate 32 0), rfl, rfl⟩
  have hpqc : (pqcSource xorOqs "ML-KEM-768" : Source (PrivateHandle Bytes Bytes)).Restores
      (.oqs (List.replicate 32 0)) := by
    intro b hb
    cases hb
    exact ⟨.oqs (List.replicate 32 0), rfl, rfl⟩
  simp only [zeroKeyset, PolicyEngine.hybridStandard, zeroHandles, List.zip_cons_cons, List.zip_nil_left,
    List.forall_mem_cons]
  exact ⟨hclassical, hpqc, nofun⟩

/-- Exported under a `str` password and opened with its UTF-8 bytes. -/
theorem importKeysetBytes_exportKeysetBytes_zero : ∃ blob rt',
    (exportKeysetBytes (builtinEnv xorX25519 xorOqs xorHkdf zeroTagAead) padKdf zeroKeyset
      (.str "pw") true).run zeroRuntime = (.ok blob, rt') ∧
    ∃ k rt₂, (importKeysetBytes (builtinEnv xorX25519 xorOqs xorHkdf zeroTagAead) padKdf blob
      (.bytes [0x70, 0x77])).run zeroRuntime = (.ok k, rt₂) ∧
    k.publicBundle = zeroKeyset.publicBundle ∧
    Serialized zeroKeyset.profile.sources k.privateHandles zeroEntries := by
  have haccepts : ∀ plaintext, zeroTagAead.Accepts plaintext := fun _ _ _ _ _ _ _ => ⟨_, rfl⟩
  have hp : zeroRuntime.kdfPermits ≠ 0 := by decide
  obtain ⟨blob, rt', hexport, himport⟩ := importKeysetBytes_exportKeysetBytes xorX25519 xorOqs
    xorHkdf zeroTagAead zeroTagAead_correct padKdf zeroKeyset rfl rfl rfl zeroEntries
    zeroKeyset_serialized zeroKeyset_restores (.str "pw") [0x70, 0x77] rfl (by simp)
    (padKdf_returns _) (fun plaintext _ => haccepts plaintext) true zeroRuntime hp
  have hsize : blob.length ≤ maxKeystoreSize := by
    obtain ⟨entries, -, -, hser, -, -, hlen, -⟩ := exportKeysetBytes_sealed zeroTagAead_correct hexport
    obtain rfl := hser.unique zeroKeyset_serialized
    rw [hlen]
    exact zeroKeyset_size
  obtain ⟨k, rt₂, hrun, -, hbundle, hback⟩ := himport hsize (.bytes [0x70, 0x77]) rfl zeroRuntime hp
  exact ⟨blob, rt', hexport, k, rt₂, hrun, hbundle, hback⟩

end CryptoFlex
