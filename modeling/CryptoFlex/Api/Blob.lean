import CryptoFlex.Api.KeyRecovery
import CryptoFlex.Header.RoundTrip

namespace CryptoFlex

open Lib CryptoflexHeader

variable {H : Type} {env : Env H}

/-- A derived header is read back as it was written. -/
theorem Derivation.reads (hw : env.profiles.WellFormed) {bundle : PublicBundle} {rt : Runtime}
    {d : DerivedRoot} {profile : SecurityProfile H} {encs : List (PyStr × Encapsulation)}
    {nonce : Bytes} (hd : Derivation env bundle rt d profile encs nonce) {b : Bytes}
    (hb : d.header.toBytes = .ok b) : scanHeader.Reads b d.header := by
  have hids : d.header.components.map Prod.fst = profile.sources.map (·.algorithmId) := by
    rw [hd.components, ← hd.ids, List.map_map]
    rfl
  have hname : d.header.profileId = bundle.profileId := by rw [hd.header]
  have hversion : d.header.version = formatVersion := by rw [hd.header]
  have hdecodable : Decodable d.header := by
    refine ⟨?_, ?_, goodIds_nil.mpr ⟨?_, ?_⟩⟩
    · rw [hname]
      exact hw.named _ _ hd.registered
    · intro hnil
      rw [hnil, List.map_nil] at hids
      exact hw.nonempty _ _ hd.registered (List.map_eq_nil_iff.mp hids.symm)
    · intro c hc
      have hmem : c.1 ∈ profile.sources.map (·.algorithmId) := by
        rw [← hids]
        exact List.mem_map_of_mem hc
      obtain ⟨s, hs, heq⟩ := List.mem_map.mp hmem
      rw [← heq]
      exact hw.sourcesNamed _ _ hd.registered s hs
    · rw [hids]
      exact hw.distinct _ _ hd.registered
  have hread := reads_toBytes hb hdecodable
  rw [stripped, if_neg (by rw [hversion]; decide)] at hread
  exact hread

/-- One seal under a header as its associated data, and the blob it makes. -/
structure BlobSeal (sl : Seal) (plaintext blob : Bytes) : Prop where
  header : ∃ h, scanHeader.Reads sl.aad h
  plaintext : sl.plaintext = plaintext
  blob : blob = sl.aad ++ sl.ciphertext

/-- A writer of blobs returns the blob of its only seal, or raises and has sealed nothing. -/
inductive BlobRun (plaintext : Bytes) (rt : Runtime) : Except Exc Bytes → Runtime → Prop
  | raised {e : Exc} {rt' : Runtime} (seals : rt'.seals = rt.seals) :
    BlobRun plaintext rt (.error e) rt'
  | returned {sl : Seal} {blob : Bytes} {rt' : Runtime} (sealed : BlobSeal sl plaintext blob)
    (seals : rt'.seals = rt.seals ++ [sl]) : BlobRun plaintext rt (.ok blob) rt'

theorem encrypt_run (hw : env.profiles.WellFormed) (bundle : PublicBundle) (plaintext : Bytes)
    (rt : Runtime) : ∃ r rt', (encrypt env bundle plaintext).run rt = (r, rt') ∧
      BlobRun plaintext rt r rt' := by
  unfold encrypt
  rcases hderive : (deriveRootKey env bundle).run rt with ⟨_ | d, rt₁⟩
  · have hseals := (SealsNothing.stable.deriveRootKey env bundle).of_eq hderive
    exact ⟨_, _, Eff.bind_error hderive _, BlobRun.raised hseals⟩
  have hseals : rt₁.seals = rt.seals := (SealsNothing.stable.deriveRootKey env bundle).of_eq hderive
  obtain ⟨profile, encs, nonce, hd⟩ := deriveRootKey_eq_ok hderive
  have hnonce : d.header.nonce = some nonce := by rw [hd.header]
  rw [Eff.bind_ok hderive]
  cases hheader : d.header.toBytes with
  | error e => exact ⟨_, _, rfl, BlobRun.raised hseals⟩
  | ok headerBytes =>
  rw [Eff.run_lift_ok_bind, hnonce]
  dsimp only
  let rt₂ : Runtime := { rt₁ with heap := rt₁.heap ++ [d.rootKey] }
  have hbuf := Runtime.newBuffer_run d.rootKey rt₁
  have hread := Runtime.readBuffer_new d.rootKey rt₁
  rw [Eff.bind_ok hbuf, Eff.bind_ok hread]
  cases hinit : env.aead.init d.rootKey with
  | error e =>
    rw [AESGCM_of_error hinit, Eff.run_lift_error_bind]
    exact ⟨_, _, rfl, BlobRun.raised hseals⟩
  | ok u =>
  rw [AESGCM_of_init hinit, Eff.run_lift_ok_bind]
  have hseal := aesgcmEncrypt_run env d.rootKey nonce plaintext headerBytes rt₂
  have hall := Eff.tryFinally_run hseal (Runtime.zeroize_run rt₁.heap.length _)
  have htrace : ∀ rt' : Runtime, rt'.trace = rt₁.trace ++ [.aeadEncrypt d.rootKey nonce headerBytes
      plaintext (env.aead.encrypt d.rootKey nonce plaintext headerBytes)] →
      rt'.seals = rt.seals ++ (Event.aeadEncrypt d.rootKey nonce headerBytes plaintext
        (env.aead.encrypt d.rootKey nonce plaintext headerBytes)).seal?.toList := by
    intro rt' h
    rw [Runtime.seals_of_trace h, hseals]
  cases he : env.aead.encrypt d.rootKey nonce plaintext headerBytes with
  | error e =>
    rw [he] at hall htrace
    refine ⟨_, _, Eff.bind_error hall _, BlobRun.raised ?_⟩
    rw [htrace _ rfl]
    exact List.append_nil _
  | ok ct =>
    rw [he] at hall htrace
    have hsealed : BlobSeal ⟨d.rootKey, nonce, headerBytes, plaintext, ct⟩ plaintext
        (headerBytes ++ ct) := ⟨⟨d.header, hd.reads hw hheader⟩, rfl, rfl⟩
    exact ⟨_, _, Eff.bind_ok hall _, BlobRun.returned hsealed (htrace _ rfl)⟩

/-- An ephemeral message is the blob that `encrypt` makes of the same plaintext. The bytearrays that
stay behind may differ. -/
theorem ephemeralEncrypt_run (env : Env H) (bundle : PublicBundle) (plaintext : Bytes)
    (rt : Runtime) :
    ∃ heap, (ephemeralEncrypt env bundle plaintext).run rt =
      (((encrypt env bundle plaintext).run rt).1.map WireMessage.mk,
        { ((encrypt env bundle plaintext).run rt).2 with heap := heap }) := by
  unfold ephemeralEncrypt encrypt
  rcases hderive : (deriveRootKey env bundle).run rt with ⟨_ | d, rt₁⟩
  · rw [Eff.bind_error hderive, Eff.bind_error hderive]
    exact ⟨rt₁.heap, rfl⟩
  obtain ⟨profile, encs, nonce, hd⟩ := deriveRootKey_eq_ok hderive
  have hnonce : d.header.nonce = some nonce := by rw [hd.header]
  rw [Eff.bind_ok hderive, Eff.bind_ok hderive]
  cases hheader : d.header.toBytes with
  | error e => exact ⟨rt₁.heap, rfl⟩
  | ok headerBytes =>
  rw [Eff.run_lift_ok_bind, Eff.run_lift_ok_bind, hnonce]
  dsimp only
  let rt₂ : Runtime := { rt₁ with heap := rt₁.heap ++ [d.rootKey] }
  have hbuf := Runtime.newBuffer_run d.rootKey rt₁
  have hread := Runtime.readBuffer_new d.rootKey rt₁
  have hsealed := sealInBuffer_run env d.rootKey nonce plaintext headerBytes rt₁
  rw [Eff.bind_ok hbuf, Eff.bind_ok hbuf, Eff.bind_ok hread]
  cases hinit : env.aead.init d.rootKey with
  | error e =>
    rw [hinit] at hsealed
    rw [Eff.bind_error hsealed, AESGCM_of_error hinit, Eff.run_lift_error_bind, Aead.traced, hinit,
      List.append_nil]
    exact ⟨_, rfl⟩
  | ok u =>
  rw [AESGCM_of_init hinit, Eff.run_lift_ok_bind]
  have hseal := aesgcmEncrypt_run env d.rootKey nonce plaintext headerBytes rt₂
  have hwiped := Eff.tryFinally_run hseal (Runtime.zeroize_run rt₁.heap.length _)
  rw [hinit, ok_bind, Aead.traced, hinit] at hsealed
  cases hct : env.aead.encrypt d.rootKey nonce plaintext headerBytes with
  | error e =>
    rw [hct] at hsealed hwiped
    rw [Eff.bind_error hsealed, Eff.bind_error hwiped]
    exact ⟨_, rfl⟩
  | ok ct =>
    rw [hct] at hsealed hwiped
    rw [Eff.bind_ok hsealed, Eff.bind_ok hwiped]
    exact ⟨_, rfl⟩

/-- Decryption, whether it returns or raises, seals nothing. -/
theorem SealsNothing.decrypt (env : Env H) (handles : List H) (blob : Bytes)
    (minProfile : Option PyStr) :
    Eff.Keeps SealsNothing (decrypt env handles blob minProfile) := by
  have hK := SealsNothing.stable
  unfold CryptoFlex.decrypt
  apply Eff.Keeps.bind hK.trans (Eff.Keeps.lift hK.refl _)
  intro parsed
  apply Eff.Keeps.bind hK.trans (Eff.Keeps.lift hK.refl _)
  intro _
  split
  · exact Eff.Keeps.raise hK.refl _
  · apply Eff.Keeps.tryCatch hK.trans
    · apply Eff.Keeps.bind hK.trans (Eff.Keeps.lift hK.refl _)
      intro profile
      apply Eff.Keeps.bind hK.trans (hK.recoverRootKeyInternal env handles _ profile)
      intro rawRootKey
      have hnew : Eff.Keeps SealsNothing (Runtime.newBuffer rawRootKey) := fun _ => rfl
      apply Eff.Keeps.bind hK.trans hnew
      intro buf
      apply Eff.Keeps.tryFinally hK.trans
      · have hread : Eff.Keeps SealsNothing (Runtime.readBuffer buf) := fun _ => rfl
        apply Eff.Keeps.bind hK.trans hread
        intro key
        apply Eff.Keeps.bind hK.trans (Eff.Keeps.lift hK.refl _)
        intro aesgcm
        exact SealsNothing.aesgcmDecrypt env aesgcm _ _ _
      · exact fun _ => rfl
    · intro e
      exact Eff.Keeps.raise hK.refl _

/-- A migration is a decryption and, where that returns, an encryption of its plaintext. -/
theorem migrate_run (hw : env.profiles.WellFormed) (handles : List H) (blob : Bytes)
    (bundle : PublicBundle) (minProfile : Option PyStr) (rt : Runtime) :
    ∃ r rt', (migrate env handles blob bundle minProfile).run rt = (r, rt') ∧
      (((∃ e, r = .error e) ∧ rt'.seals = rt.seals) ∨
        ∃ plaintext rt₁, (decrypt env handles blob minProfile).run rt = (.ok plaintext, rt₁) ∧
          BlobRun plaintext rt r rt') := by
  unfold migrate
  rcases hdecrypt : (decrypt env handles blob minProfile).run rt with ⟨_ | plaintext, rt₁⟩
  · have hseals := (SealsNothing.decrypt env handles blob minProfile).of_eq hdecrypt
    exact ⟨_, _, Eff.bind_error hdecrypt _, Or.inl ⟨⟨_, rfl⟩, hseals⟩⟩
  · have hseals : rt₁.seals = rt.seals :=
      (SealsNothing.decrypt env handles blob minProfile).of_eq hdecrypt
    obtain ⟨r, rt', hrun, hblob⟩ := encrypt_run hw bundle plaintext rt₁
    refine ⟨r, rt', (Eff.bind_ok hdecrypt _).trans hrun, Or.inr ⟨plaintext, rt₁, rfl, ?_⟩⟩
    cases hblob with
    | raised h => exact BlobRun.raised (h.trans hseals)
    | returned sealed h => exact BlobRun.returned sealed (by rw [h, hseals])

/-- What returns from `decrypt` was opened under the header's own bytes. -/
theorem decrypt_eq_ok {handles : List H} {blob plaintext : Bytes} {minProfile : Option PyStr}
    {rt rt' : Runtime} (h : (decrypt env handles blob minProfile).run rt = (.ok plaintext, rt')) :
    ∃ header n key nonce, fromBytes blob = .ok (header, n) ∧
      env.aead.decrypt key nonce (blob.drop n) (blob.take n) = .ok plaintext := by
  unfold decrypt at h
  obtain ⟨⟨header, n⟩, rt₁, hparse, h⟩ := Eff.bind_eq_ok.mp h
  have hfrom : fromBytes blob = .ok (header, n) := by
    have hparsed := (Prod.mk.inj hparse).1
    unfold parseHeader at hparsed
    split at hparsed
    · cases hparsed
    · exact hparsed
  obtain ⟨_, rt₂, -, h⟩ := Eff.bind_eq_ok.mp h
  cases hnonce : header.nonce with
  | none =>
    rw [hnonce] at h
    cases h
  | some nonce =>
  rw [hnonce] at h
  dsimp only at h
  rcases hbody : ((do
    let profile ← Eff.lift (getProfile env.profiles header.profileId)
    let rawRootKey ← recoverRootKeyInternal env handles header profile
    let headerBytes := blob.take n
    let aeadPayload := blob.drop n
    let rootKeyBuf ← Runtime.newBuffer rawRootKey
    Eff.tryFinally (do
      let key ← Runtime.readBuffer rootKeyBuf
      let aesgcm ← Eff.lift (AESGCM env.aead key)
      aesgcmDecrypt env aesgcm nonce aeadPayload headerBytes)
      (Runtime.zeroize rootKeyBuf)) : Eff Exc Runtime Bytes).run rt₂ with ⟨r, rt₃⟩
  cases r with
  | error e =>
    rw [Eff.tryCatch_error hbody] at h
    cases h
  | ok p =>
  rw [Eff.tryCatch_ok hbody] at h
  cases h
  obtain ⟨profile, rt₄, -, hbody⟩ := Eff.bind_eq_ok.mp hbody
  obtain ⟨rawRootKey, rt₅, -, hbody⟩ := Eff.bind_eq_ok.mp hbody
  obtain ⟨buf, rt₆, -, hbody⟩ := Eff.bind_eq_ok.mp hbody
  rcases hopen : ((do
      let key ← Runtime.readBuffer buf
      let aesgcm ← Eff.lift (AESGCM env.aead key)
      aesgcmDecrypt env aesgcm nonce (blob.drop n) (blob.take n)) : Eff Exc Runtime Bytes).run rt₆
    with ⟨r, rt₇⟩
  rw [Eff.tryFinally_run hopen (Runtime.zeroize_run buf _)] at hbody
  cases hbody
  obtain ⟨key, rt₈, -, hopen⟩ := Eff.bind_eq_ok.mp hopen
  obtain ⟨aesgcm, rt₉, -, hopen⟩ := Eff.bind_eq_ok.mp hopen
  rw [aesgcmDecrypt_run] at hopen
  exact ⟨header, n, aesgcm, nonce, hfrom, (Prod.mk.inj hopen).1⟩

end CryptoFlex
