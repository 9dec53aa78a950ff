import CryptoFlex.Streaming.MigrationChain

namespace CryptoFlex

open Lib World CryptoflexHeader

variable {H : Type} {env : Env H} {bundle : PublicBundle} {profile : SecurityProfile H}

/-- A downgrade check that passes. -/
theorem notStronger_of_checked {header : CryptoflexHeader} {minProfile : Option PyStr}
    (hreg : env.profiles.lookup header.profileId = some profile)
    (h : checkDowngrade env header minProfile = .ok ()) : NotStronger env minProfile profile := by
  unfold checkDowngrade at h
  intro minId hid
  subst hid
  dsimp only at h
  rw [getProfile_eq_ok.mpr hreg] at h
  cases hmin : getProfile env.profiles minId with
  | error e =>
    rw [hmin] at h
    cases h
  | ok minProf =>
    rw [hmin] at h
    dsimp only at h
    split at h
    · cases h
    · next hle => exact ⟨minProf, getProfile_eq_ok.mp hmin, by omega⟩

/-- What `encrypt` returns is a blob for the bundle. -/
theorem encrypt_blobFor {plaintext blob : Bytes} {rt rt' : Runtime}
    (hreg : env.profiles.lookup bundle.profileId = some profile)
    (h : (encrypt env bundle plaintext).run rt = (.ok blob, rt')) :
    BlobFor env bundle profile plaintext blob := by
  unfold encrypt at h
  obtain ⟨d, rt₁, hderive, h⟩ := Eff.bind_eq_ok.mp h
  obtain ⟨profile', encs, nonce, hd⟩ := deriveRootKey_eq_ok hderive
  obtain rfl := hd.profile_eq hreg
  have hnonce : d.header.nonce = some nonce := by rw [hd.header]
  obtain ⟨headerBytes, rt₂, hheader, h⟩ := Eff.bind_eq_ok.mp h
  rw [hnonce] at h
  dsimp only at h
  have hbuf := Runtime.newBuffer_run d.rootKey rt₂
  have hread := Runtime.readBuffer_new d.rootKey rt₂
  rw [Eff.bind_ok hbuf, Eff.bind_ok hread] at h
  obtain ⟨aesgcm, rt₃, hinit, h⟩ := Eff.bind_eq_ok.mp h
  obtain ⟨hkey, hrt⟩ := Prod.mk.inj hinit
  obtain ⟨-, rfl⟩ := AESGCM_eq_ok hkey
  subst hrt
  obtain ⟨ct, rt₄, hseal, h⟩ := Eff.bind_eq_ok.mp h
  cases h
  have hrun := aesgcmEncrypt_run env d.rootKey nonce plaintext headerBytes
    { rt₂ with heap := rt₂.heap ++ [d.rootKey] }
  have hall := Eff.tryFinally_run hrun (Runtime.zeroize_run rt₂.heap.length _)
  rw [hseal] at hall
  have hct := (Prod.mk.inj hall).1
  exact ⟨rt, d, encs, nonce, headerBytes, ct, hd, (Prod.mk.inj hheader).1, hct.symm, rfl⟩

/-- What the owner's `decrypt` returns is the plaintext of the blob. -/
theorem BlobFor.decrypted (hw : env.profiles.WellFormed) (ha : env.aead.Correct) {handles : List H}
    (hm : KeysMatch profile.sources bundle.publicKeys handles) {minProfile : Option PyStr}
    {plaintext blob content : Bytes} (hb : BlobFor env bundle profile plaintext blob)
    {rt rt' : Runtime}
    (h : (decrypt env handles blob minProfile).run rt = (.ok content, rt')) :
    content = plaintext := by
  have hmin : NotStronger env minProfile profile := by
    obtain ⟨rt₀, d, encs, nonce, headerBytes, ct, hd, hheader, hct, rfl⟩ := hb
    have hreg : env.profiles.lookup d.header.profileId = some profile := by
      have hname : d.header.profileId = bundle.profileId := by rw [hd.header]
      rw [hname]
      exact hd.registered
    have hparse : parseHeader (headerBytes ++ ct) "decryption failed" =
        .ok (d.header, headerBytes.length) := by
      rw [parseHeader, fromBytes_of_reads (hd.reads hw hheader) ct]
    unfold decrypt at h
    rw [hparse, Eff.run_lift_ok_bind] at h
    obtain ⟨_, rt₁, hchecked, -⟩ := Eff.bind_eq_ok.mp h
    exact notStronger_of_checked hreg (Prod.mk.inj hchecked).1
  obtain ⟨rt'', hrun⟩ := decrypt_returns hw ha hm hmin hb rt
  rw [h] at hrun
  exact Except.ok.inj (Prod.mk.inj hrun).1

/-- What the owner's `migrate` returns is a blob of the same plaintext for the new bundle. -/
theorem BlobFor.migrated (hw : env.profiles.WellFormed) (ha : env.aead.Correct) {handles : List H}
    (hm : KeysMatch profile.sources bundle.publicKeys handles) {minProfile : Option PyStr}
    {plaintext blob content : Bytes} (hb : BlobFor env bundle profile plaintext blob)
    {newBundle : PublicBundle} {newProfile : SecurityProfile H}
    (hreg : env.profiles.lookup newBundle.profileId = some newProfile) {rt rt' : Runtime}
    (h : (migrate env handles blob newBundle minProfile).run rt = (.ok content, rt')) :
    BlobFor env newBundle newProfile plaintext content := by
  obtain ⟨plaintext', rt₁, hdecrypt, hencrypt⟩ := Eff.bind_eq_ok.mp h
  obtain rfl := hb.decrypted hw ha hm hdecrypt
  exact encrypt_blobFor hreg hencrypt

section Streams

variable {ι ω : Type} [Input ι] [Output ω] {chunks : List Bytes} {s : Bytes} {handles : List H}
  {minProfile : Option PyStr} {i : ι} {rt : Runtime} {sink : ω} {w : World ι ω}

/-- A prologue that returns has found the stream's own header, and let its profile pass. -/
theorem StreamFor.checked (hw : env.profiles.WellFormed) (hs : StreamFor env bundle chunks s)
    (hreg : env.profiles.lookup bundle.profileId = some profile) {rt' : Runtime} {p : Prologue}
    (hp : (parsePrologue env handles minProfile (s.take maxHeaderSize)).run rt = (.ok p, rt')) :
    ShortHeader s ∧ NotStronger env minProfile profile := by
  have hshort := shortHeader_of_prologue hp
  refine ⟨hshort, ?_⟩
  obtain ⟨header', n, hparse', hunlock, -, -⟩ := parsePrologue_eq_ok hp
  obtain ⟨rt₀, t, ht, -, -, -, rfl⟩ := hs
  have hsize := ht.short hw hshort
  obtain ⟨d, rt₁, hderive, hbytes, -, -⟩ := ht.derived
  obtain ⟨profile', encs, nonce, hd⟩ := deriveRootKey_eq_ok hderive
  obtain rfl := hd.profile_eq hreg
  have htake : t.wire.take maxHeaderSize =
      t.key.headerBytes ++ t.frames.take (maxHeaderSize - t.key.headerBytes.length) := by
    rw [Transcript.wire, List.take_append, List.take_of_length_le hsize]
  rw [htake, fromBytes_of_reads (hd.reads hw hbytes)] at hparse'
  cases hparse'
  have hname : d.header.profileId = bundle.profileId := by rw [hd.header]
  obtain ⟨hchecked, -, -⟩ := unlock_eq_ok hunlock
  exact notStronger_of_checked (by rw [hname]; exact hreg) hchecked

/-- What the owner's `decrypt_stream` has written when it returns is the plaintext. -/
theorem StreamFor.decrypted (hw : env.profiles.WellFormed) (ha : env.aead.Correct)
    (hs : StreamFor env bundle chunks s)
    (hreg : env.profiles.lookup bundle.profileId = some profile)
    (hm : KeysMatch profile.sources bundle.publicKeys handles) (hi : Fills i s)
    (hO : Reliable ω)
    (h : (CryptoFlex.decryptStream env handles minProfile).run (World.start rt i sink) = (.ok (), w)) :
    w.out = chunks.flatten := by
  obtain ⟨i', hread, hrest⟩ := hi.read (by decide : 0 < maxHeaderSize)
  rcases hp : (parsePrologue env handles minProfile (s.take maxHeaderSize)).run rt with ⟨e | p, rt'⟩
  · obtain ⟨w', hrun, -⟩ := decryptStream_refused env handles minProfile hread hp sink
    rw [h] at hrun
    cases hrun
  · obtain ⟨hshort, hmin⟩ := hs.checked hw hreg hp
    obtain ⟨w', hrun, hout⟩ := hs.decryptStream hw ha hshort hreg hm hmin hi hO rt sink
    rw [h] at hrun
    cases hrun
    exact hout

/-- What the owner's `migrate_stream` has written when it returns is a stream for the new bundle,
with the same chunks. -/
theorem StreamFor.migrated (hw : env.profiles.WellFormed) (ha : env.aead.Correct)
    (hs : StreamFor env bundle chunks s)
    (hreg : env.profiles.lookup bundle.profileId = some profile)
    (hm : KeysMatch profile.sources bundle.publicKeys handles) (hi : Fills i s)
    (hO : Reliable ω) {newBundle : PublicBundle} {newProfile : SecurityProfile H}
    (hnew : env.Reachable newBundle newProfile)
    (h : (CryptoFlex.migrateStream env handles newBundle minProfile).run (World.start rt i sink) =
      (.ok (), w)) : StreamFor env newBundle chunks w.out := by
  obtain ⟨i', hread, hrest⟩ := hi.read (by decide : 0 < maxHeaderSize)
  rcases hp : (parsePrologue env handles minProfile (s.take maxHeaderSize)).run rt with ⟨e | p, rt'⟩
  · obtain ⟨w', hrun, -⟩ := migrateStream_refused newBundle hread hp sink
    rw [h] at hrun
    cases hrun
  · obtain ⟨hshort, hmin⟩ := hs.checked hw hreg hp
    obtain ⟨w', hrun, hstream⟩ :=
      hs.migrateStream hw ha hshort hreg hm hmin hi hO hnew rt sink
    rw [h] at hrun
    cases hrun
    exact hstream

end Streams

end CryptoFlex
