import CryptoFlex.Keystore.RoundTrip

namespace CryptoFlex

open Lib

variable {H : Type}

/-- The registry has a profile under the keyset's id whose sources, in number and order those of the
keyset and of its bundle, read the private handles back, and the keystore is not too large. Ids are
compared as JSON gives them back. -/
def KeySet.Reopens (keyset : KeySet H) (env : Env H) : Prop :=
  ∃ profile entries handles,
    keyset.profile.profileId.joined ≠ .text "" ∧
    env.profiles.lookup keyset.profile.profileId.joined = some profile ∧
    profile.profileId = keyset.profile.profileId.joined ∧
    Serialized keyset.profile.sources keyset.privateHandles entries ∧
    Opened profile.sources (joinedIds entries) (joinedIds keyset.publicBundle.publicKeys)
      handles ∧
    keyset.keystoreSize entries ≤ maxKeystoreSize

/-- A payload is sealed in a keystore at most once. -/
theorem SealedPayload.unique {env : Env H} {kdf : PasswordKdf} {pw data : Bytes}
    {payload payload' : Json} (h : SealedPayload env kdf pw data payload)
    (h' : SealedPayload env kdf pw data payload') : payload = payload' := by
  have hopen := openKeystore_eq_ok.mpr h
  rw [openKeystore_eq_ok.mpr h'] at hopen
  cases hopen
  rfl

/-- A keyset that reopens is imported from its keystore. -/
theorem KeySet.Reopens.imports {env : Env H} (ha : env.aead.Correct) {kdf : PasswordKdf}
    {keyset : KeySet H} {password : Password} {useArgon2 : Bool} {rt rt' : Runtime} {blob : Bytes}
    (h : (exportKeysetBytes env kdf keyset password useArgon2).run rt = (.ok blob, rt'))
    (hr : keyset.Reopens env) {rt₁ : Runtime} (hp : rt₁.kdfPermits ≠ 0) :
    ∃ k rt₂, (importKeysetBytes env kdf blob password).run rt₁ = (.ok k, rt₂) := by
  obtain ⟨entries, pw, hc, hser, hpw, hne, hlen, hsealed⟩ := exportKeysetBytes_sealed ha h
  obtain ⟨profile, entries', handles, hid, hlookup, hown, hser', hopen, hsize⟩ := hr
  have hentries := hser.unique hser'
  subst hentries
  rw [← hlen] at hsize
  have hbundle : keyset.publicBundle.joined.profileId = keyset.profile.profileId.joined := by
    rw [PublicBundle.joined, hc.profileId]
  have hread : importPayload env (keystoreJson keyset.profile.profileId.joined
      keyset.publicBundle.joined (joinedIds entries)) =
      .ok (importedKeyset profile keyset.publicBundle.joined handles) :=
    (importPayload_eq_ok (PublicBundle.joined_joined _)).mpr
      ⟨profile, handles, hid, hlookup, hbundle, hown, hopen, rfl⟩
  obtain ⟨rt₂, hrun⟩ := (importKeysetBytes_eq_ok hpw hne hp).mpr ⟨_, hsealed hsize, hread⟩
  exact ⟨_, rt₂, hrun⟩

/-- What was exported is imported exactly when the keyset reopens and a place for the derivation is
free. -/
theorem importKeysetBytes_of_export_iff (env : Env H) (ha : env.aead.Correct) (kdf : PasswordKdf)
    (keyset : KeySet H) (password : Password) (useArgon2 : Bool) (rt rt' : Runtime) (blob : Bytes)
    (h : (exportKeysetBytes env kdf keyset password useArgon2).run rt = (.ok blob, rt'))
    (rt₁ : Runtime) :
    (∃ k rt₂, (importKeysetBytes env kdf blob password).run rt₁ = (.ok k, rt₂)) ↔
      keyset.Reopens env ∧ rt₁.kdfPermits ≠ 0 := by
  obtain ⟨entries, pw, hc, hser, hpw, hne, hlen, hsealed⟩ := exportKeysetBytes_sealed ha h
  constructor
  · rintro ⟨k, rt₂, himport⟩
    obtain ⟨-, -, -, hp⟩ := importKeysetBytes_needs himport
    obtain ⟨payload, hpayload, hread⟩ := (importKeysetBytes_eq_ok hpw hne hp).mp ⟨rt₂, himport⟩
    have heq := hpayload.unique (hsealed hpayload.size)
    subst heq
    obtain ⟨profile, handles, hid, hlookup, -, hown, hopen, -⟩ :=
      (importPayload_eq_ok (PublicBundle.joined_joined _)).mp hread
    have hsize := hpayload.size
    rw [hlen] at hsize
    exact ⟨⟨profile, entries, handles, hid, hlookup, hown, hser, hopen, hsize⟩, hp⟩
  · intro hr
    exact hr.1.imports ha h hr.2

/-- The keyset of zeros, with the entries of its bundle in the wrong order. -/
def swappedKeyset : KeySet (PrivateHandle Bytes Bytes) :=
  { zeroKeyset with
    publicBundle := { zeroBundle with publicKeys := zeroBundle.publicKeys.reverse } }

theorem swappedKeyset_consistent : swappedKeyset.Consistent := ⟨rfl, rfl, rfl⟩

theorem exportKeysetBytes_xor {keyset : KeySet (PrivateHandle Bytes Bytes)}
    (hc : keyset.Consistent) {entries : List (PyStr × Bytes)}
    (hser : Serialized keyset.profile.sources keyset.privateHandles entries) : ∃ blob rt',
    (exportKeysetBytes (xorEnv zeroTagAead) padKdf keyset (.bytes [0x70]) true).run zeroRuntime =
      (.ok blob, rt') := by
  have htext : (keyset.payload entries).Textual := keystoreJson_textual _ _ _
  obtain ⟨plaintext, hencode, -⟩ := Json.encode_dumps htext none
  have hplain := exportPlaintext_eq_ok.mpr ⟨hc, entries, hser, hencode⟩
  have haccepts : (xorEnv zeroTagAead).aead.Accepts plaintext := fun _ _ _ _ _ _ => ⟨_, rfl⟩
  have hpw : (Password.bytes [0x70]).encode = .ok [0x70] := rfl
  have hp : zeroRuntime.kdfPermits ≠ 0 := by decide
  exact exportKeysetBytes_returns zeroTagAead_correct.toDocumented hplain haccepts hpw (by simp)
    (padKdf_returns _) true hp

/-- Export returns a keystore for it that import refuses. -/
theorem importKeysetBytes_swapped : ∃ blob rt',
    (exportKeysetBytes (xorEnv zeroTagAead) padKdf swappedKeyset (.bytes [0x70]) true).run
      zeroRuntime = (.ok blob, rt') ∧
    ∀ rt k rt₂, (importKeysetBytes (xorEnv zeroTagAead) padKdf blob (.bytes [0x70])).run rt ≠
      (.ok k, rt₂) := by
  obtain ⟨blob, rt', hexport⟩ := exportKeysetBytes_xor swappedKeyset_consistent zeroKeyset_serialized
  refine ⟨blob, rt', hexport, ?_⟩
  intro rt k rt₂ himport
  obtain ⟨entries, pw, -, -, hpw', hne, -, hsealed⟩ :=
    exportKeysetBytes_sealed zeroTagAead_correct hexport
  obtain ⟨-, -, -, hp⟩ := importKeysetBytes_needs himport
  obtain ⟨payload, hpayload, hread⟩ :=
    (importKeysetBytes_eq_ok hpw' hne hp).mp ⟨rt₂, himport⟩
  obtain rfl := hpayload.unique (hsealed hpayload.size)
  obtain ⟨profile, handles, -, hlookup, -, -, hopen, -⟩ :=
    (importPayload_eq_ok (PublicBundle.joined_joined _)).mp hread
  -- The profile's first source is x25519, the bundle's first key is one of ML-KEM-768.
  have hid : swappedKeyset.profile.profileId.joined = .text "hybrid_standard" := PyStr.joined_text _
  rw [hid] at hlookup
  cases hlookup
  have hids := hopen.keyIds
  have hkeys : swappedKeyset.publicBundle.joined.publicKeys.map Prod.fst =
      [.text "mlkem768", .text "x25519"] := by
    simp [PublicBundle.joined, joinedIds, swappedKeyset, zeroBundle]
  rw [hkeys] at hids
  have hhead := (List.cons.inj hids).1
  exact absurd hhead (by decide)

theorem zeroKeyset_reopens : zeroKeyset.Reopens (xorEnv zeroTagAead) := by
  have hid : zeroKeyset.profile.profileId.joined = .text "hybrid_standard" := PyStr.joined_text _
  refine ⟨PolicyEngine.hybridStandard, zeroEntries, zeroHandles, ?_, ?_, ?_,
    zeroKeyset_serialized, ?_, zeroKeyset_size⟩
  · rw [hid]
    decide
  · rw [hid]
    rfl
  · rw [hid]
    rfl
  · have hentries : joinedIds zeroEntries = zeroEntries := by simp [joinedIds, zeroEntries]
    have hkeys : joinedIds zeroKeyset.publicBundle.publicKeys = zeroEntries := by
      simp [joinedIds, zeroKeyset, zeroBundle, zeroEntries]
    rw [hentries, hkeys]
    exact Opened.cons rfl (Opened.cons rfl Opened.nil)

/-- The keyset of zeros is opened again. -/
theorem importKeysetBytes_of_export_zero : ∃ blob rt',
    (exportKeysetBytes (xorEnv zeroTagAead) padKdf zeroKeyset (.bytes [0x70]) true).run
      zeroRuntime = (.ok blob, rt') ∧
    ∃ k rt₂, (importKeysetBytes (xorEnv zeroTagAead) padKdf blob (.bytes [0x70])).run zeroRuntime =
      (.ok k, rt₂) := by
  have hconsistent : zeroKeyset.Consistent := ⟨rfl, rfl, rfl⟩
  have hp : zeroRuntime.kdfPermits ≠ 0 := by decide
  obtain ⟨blob, rt', hexport⟩ := exportKeysetBytes_xor hconsistent zeroKeyset_serialized
  exact ⟨blob, rt', hexport, (importKeysetBytes_of_export_iff (xorEnv zeroTagAead)
    zeroTagAead_correct padKdf zeroKeyset (.bytes [0x70]) true zeroRuntime rt' blob hexport
    zeroRuntime).mpr ⟨zeroKeyset_reopens, hp⟩⟩

end CryptoFlex
