import CryptoFlex.Keystore.Bundle
import CryptoFlex.Keystore.Import

namespace CryptoFlex

open Lib

variable {H : Type}

/-- The sources serialize the handles, each under the source's algorithm id. -/
inductive Serialized : List (Source H) → List H → List (PyStr × Bytes) → Prop
  | nil : Serialized [] [] []
  | cons {s : Source H} {ss : List (Source H)} {handle : H} {handles : List H} {b : Bytes}
    {entries : List (PyStr × Bytes)} (head : s.serializePrivate handle = .ok b)
    (rest : Serialized ss handles entries) :
    Serialized (s :: ss) (handle :: handles) ((s.algorithmId, b) :: entries)

theorem Serialized.length_eq {ss : List (Source H)} {handles : List H}
    {entries : List (PyStr × Bytes)} (h : Serialized ss handles entries) :
    ss.length = handles.length ∧ entries.length = ss.length := by
  induction h with
  | nil => exact ⟨rfl, rfl⟩
  | cons _ _ ih => exact ⟨congrArg (· + 1) ih.1, congrArg (· + 1) ih.2⟩

/-- An entry of `private_handles`. -/
def handleJson (entry : PyStr × Bytes) : Json :=
  pairJson "alg_id" "priv_b64" entry.1 (b64encode entry.2)

theorem serializeHandle_eq_ok {source : Source H} {handle : H} {item : Json} :
    serializeHandle source handle = .ok item ↔
      ∃ b, source.serializePrivate handle = .ok b ∧ item = handleJson (source.algorithmId, b) := by
  unfold serializeHandle
  cases source.serializePrivate handle with
  | error e => simp [Except.mapError]
  | ok b =>
    constructor
    · intro h
      cases h
      exact ⟨b, rfl, rfl⟩
    · rintro ⟨b', hb, rfl⟩
      cases hb
      rfl

theorem serializeHandles_eq_ok {ss : List (Source H)} {handles : List H}
    (hlen : ss.length = handles.length) {items : List Json} :
    serializeHandles (ss.zip handles) = .ok items ↔
      ∃ entries, Serialized ss handles entries ∧ items = entries.map handleJson := by
  induction ss generalizing handles items with
  | nil =>
    obtain rfl := List.length_eq_zero_iff.mp hlen.symm
    constructor
    · intro h
      cases h
      exact ⟨[], Serialized.nil, rfl⟩
    · rintro ⟨entries, hs, rfl⟩
      cases hs
      rfl
  | cons s ss ih =>
    cases handles with
    | nil => cases hlen
    | cons handle handles =>
      have hrest := @ih handles (Nat.succ.inj hlen)
      constructor
      · intro h
        obtain ⟨item, hitem, h⟩ := bind_eq_ok.mp h
        obtain ⟨items', hitems, h⟩ := bind_eq_ok.mp h
        cases h
        obtain ⟨b, hb, rfl⟩ := serializeHandle_eq_ok.mp hitem
        obtain ⟨entries, hs, rfl⟩ := hrest.mp hitems
        exact ⟨(s.algorithmId, b) :: entries, Serialized.cons hb hs, rfl⟩
      · rintro ⟨entries, hs, rfl⟩
        cases hs with
        | @cons _ _ _ _ b entries head rest =>
          rw [List.zip_cons_cons, serializeHandles, serializeHandle_eq_ok.mpr ⟨b, head, rfl⟩,
            ok_bind, hrest.mpr ⟨entries, rest, rfl⟩]
          rfl

/-- The payload of a keystore, as it is read back. -/
def keystoreJson (profileId : PyStr) (bundle : PublicBundle) (entries : List (PyStr × Bytes)) :
    Json :=
  payloadJson profileId (bundleJson bundle) (entries.map handleJson)

theorem handleJson_textual (entries : List (PyStr × Bytes)) :
    Json.TextualItems (entries.map handleJson) := by
  apply Json.textualItems_iff.mpr
  intro j hj
  obtain ⟨e, -, rfl⟩ := List.mem_map.mp hj
  exact pairJson_textual (by decide) _ _

theorem keystoreJson_textual (profileId : PyStr) (bundle : PublicBundle)
    (entries : List (PyStr × Bytes)) : (keystoreJson profileId bundle entries).Textual := by
  refine ⟨⟨trivial, bundleJson_textual bundle, handleJson_textual entries, trivial⟩, ?_⟩
  simp [Json.joinedMembers]

theorem keystoreJson_joined (profileId : PyStr) (bundle : PublicBundle)
    (entries : List (PyStr × Bytes)) : (keystoreJson profileId bundle entries).joined =
      keystoreJson profileId.joined bundle.joined (joinedIds entries) := by
  have hentries := Json.joinedItems_map handleJson entries
  simp only [handleJson, pairJson_joined, b64encode_joined] at hentries
  simp only [keystoreJson, payloadJson, Json.joined, Json.joinedMembers, bundleJson_joined,
    PyStr.joined_text, hentries]
  simp [joinedIds, handleJson, Function.comp_def]

/-- Reading a document undoes writing it, but for surrogate pairs in its strings. -/
theorem parsePayload_of_dumps {j : Json} (hj : j.Textual) {b : Bytes}
    (hb : j.dumps.encode = .ok b) : parsePayload b = .ok j.joined := by
  rw [parsePayload, PyStr.decode_of_encode hb, ok_bind, Json.loads_dumps hj]

/-- The length of a JSON string literal. -/
def quotedSize (s : PyStr) : Nat := (JsonText.quoted s).length

/-- The length of a JSON list of entries with an `alg_id` and a Base64 text under `member`. -/
def entriesSize (member : String) (entries : List (PyStr × Bytes)) : Nat :=
  2 + (entries.map fun e =>
    18 + quotedSize member + quotedSize e.1 + Base64.size e.2.length).sum +
    2 * (entries.length - 1)

/-- The length of the JSON text of a keystore. -/
def payloadSize (profileId : PyStr) (bundle : PublicBundle) (entries : List (PyStr × Bytes)) :
    Nat :=
  89 + quotedSize profileId + quotedSize bundle.profileId +
    entriesSize "key_b64" bundle.publicKeys + entriesSize "priv_b64" entries

theorem escape_of_plain {c : CodePoint} (h : Base64.Plain c) : JsonText.escape c = [c] := by
  obtain ⟨hlow, hhigh, hquote, hback⟩ := h
  have hnone : JsonText.shortEscapes.lookup c = none := by
    cases hl : JsonText.shortEscapes.lookup c with
    | none => rfl
    | some letter =>
      have hfew : ∀ e ∈ JsonText.shortEscapes, e.1 = CodePoint.ofChar '"' ∨
          e.1 = CodePoint.ofChar '\\' ∨ e.1.val < 0x20 := forall_mem_of_all (by decide)
      rcases hfew _ (lookup_mem hl) with h | h | h
      · exact absurd h hquote
      · exact absurd h hback
      · dsimp only at h
        omega
  rw [JsonText.escape, hnone]
  exact if_pos ⟨hlow, by omega⟩

theorem quotedSize_b64encode (b : Bytes) :
    quotedSize (b64encode b) = Base64.size b.length + 2 := by
  have hplain := Base64.encode_plain b
  have hflat : (Base64.encode b).flatMap JsonText.escape = Base64.encode b := by
    rw [List.flatMap_congr fun c hc => escape_of_plain (hplain c hc), List.flatMap_singleton']
  rw [quotedSize, JsonText.quoted, b64encode, PyStr.codes_ofCodes, hflat]
  simp [Base64.encode_length]

theorem dumpItems_length (level : Nat) (items : List Json) :
    (Json.dumpItems none level items).length =
      (items.map fun j => (j.dump none level).length).sum + 2 * items.length := by
  induction items with
  | nil => rfl
  | cons item items ih =>
    simp only [Json.dumpItems, JsonText.comma, List.length_append, ih, List.length_cons,
      List.length_nil, List.map_cons, List.sum_cons]
    omega

theorem dump_arr_length (level : Nat) (items : List Json) :
    ((Json.arr items).dump none level).length =
      2 + (items.map fun j => (j.dump none (level + 1)).length).sum + 2 * (items.length - 1) := by
  cases items with
  | nil => rfl
  | cons item items =>
    simp only [Json.dump, JsonText.newline, List.nil_append, List.length_cons, List.length_append,
      dumpItems_length, List.length_nil, List.map_cons, List.sum_cons]
    omega

theorem pairJson_length (level : Nat) (k₁ k₂ : String) (v₁ v₂ : PyStr) :
    ((pairJson k₁ k₂ v₁ v₂).dump none level).length =
      8 + quotedSize k₁ + quotedSize v₁ + quotedSize k₂ + quotedSize v₂ := by
  simp only [pairJson, Json.dump, Json.dumpMembers, JsonText.newline, JsonText.colon,
    JsonText.comma, List.nil_append, List.length_cons, List.length_append, List.length_nil,
    quotedSize]
  omega

/-- A list of entries, whatever its member names are. -/
theorem entries_length (level : Nat) (k : String) (entries : List (PyStr × Bytes)) :
    ((Json.arr (entries.map fun e => pairJson "alg_id" k e.1 (b64encode e.2))).dump none
      level).length = entriesSize k entries := by
  have hkey : quotedSize "alg_id" = 8 := by decide +kernel
  have hentry : ∀ e ∈ entries, ((pairJson "alg_id" k e.1 (b64encode e.2)).dump none
      (level + 1)).length = 18 + quotedSize k + quotedSize e.1 + Base64.size e.2.length := by
    intro e _
    rw [pairJson_length, hkey, quotedSize_b64encode]
    omega
  rw [dump_arr_length, List.map_map, entriesSize, List.length_map]
  simp only [Function.comp_def]
  rw [List.map_congr_left hentry]

theorem bundleJson_length (level : Nat) (bundle : PublicBundle) :
    ((bundleJson bundle).dump none level).length =
      33 + quotedSize bundle.profileId + entriesSize "key_b64" bundle.publicKeys := by
  have hid : (JsonText.quoted "profile_id").length = 12 := by decide +kernel
  have hkeys : (JsonText.quoted "public_keys").length = 13 := by decide +kernel
  have hentries := entries_length (level + 1) "key_b64" bundle.publicKeys
  simp only [pairJson] at hentries
  simp only [bundleJson, Json.dump, Json.dumpMembers, JsonText.newline, JsonText.colon,
    JsonText.comma, List.nil_append, List.length_cons, List.length_append, List.length_nil, hid,
    hkeys, hentries]
  simp only [quotedSize]
  omega

theorem keystoreJson_length (profileId : PyStr) (bundle : PublicBundle)
    (entries : List (PyStr × Bytes)) :
    ((keystoreJson profileId bundle entries).dump none 0).length =
      payloadSize profileId bundle entries := by
  have hid : (JsonText.quoted "profile_id").length = 12 := by decide +kernel
  have hbundle : (JsonText.quoted "public_bundle").length = 15 := by decide +kernel
  have hhandles : (JsonText.quoted "private_handles").length = 17 := by decide +kernel
  have hentries : ((Json.arr (entries.map handleJson)).dump none 1).length =
      entriesSize "priv_b64" entries := entries_length 1 "priv_b64" entries
  simp only [keystoreJson, payloadJson, Json.dump, Json.dumpMembers, JsonText.newline,
    JsonText.colon, JsonText.comma, List.nil_append, List.length_cons, List.length_append,
    List.length_nil, hid, hbundle, hhandles, hentries, bundleJson_length, payloadSize]
  simp only [quotedSize]
  omega

theorem payloadSize_joined (profileId : PyStr) (bundle : PublicBundle)
    (entries : List (PyStr × Bytes)) :
    payloadSize profileId bundle.joined entries = payloadSize profileId bundle entries := by
  simp only [payloadSize, PublicBundle.joined, entriesSize, joinedIds, quotedSize,
    JsonText.quoted_joined, List.map_map, List.length_map, Function.comp_def]

/-- The checks of `export_keyset_bytes`. -/
structure KeySet.Consistent (keyset : KeySet H) : Prop where
  profileId : keyset.profile.profileId = keyset.publicBundle.profileId
  publicKeys : keyset.profile.sources.length = keyset.publicBundle.publicKeys.length
  privateHandles : keyset.profile.sources.length = keyset.privateHandles.length

theorem checkExport_eq_ok {keyset : KeySet H} : checkExport keyset = .ok () ↔ keyset.Consistent := by
  unfold checkExport
  split
  · next h => exact ⟨nofun, fun hc => absurd hc.profileId h⟩
  next hid =>
  split
  · next h => exact ⟨nofun, fun hc => absurd hc.publicKeys h⟩
  next hkeys =>
  split
  · next h => exact ⟨nofun, fun hc => absurd hc.privateHandles h⟩
  next hhandles =>
  exact ⟨fun _ => ⟨not_not.mp hid, not_not.mp hkeys, not_not.mp hhandles⟩, fun _ => rfl⟩

/-- The payload that `export_keyset_bytes` dumps. -/
def KeySet.payload (keyset : KeySet H) (entries : List (PyStr × Bytes)) : Json :=
  keystoreJson keyset.profile.profileId keyset.publicBundle.joined entries

/-- The size of an exported keystore. -/
def KeySet.keystoreSize (keyset : KeySet H) (entries : List (PyStr × Bytes)) : Nat :=
  4 + saltLen + nonceLen +
    (payloadSize keyset.profile.profileId keyset.publicBundle entries + 16)

theorem exportPlaintext_eq_ok {keyset : KeySet H} {plaintext : Bytes} :
    exportPlaintext keyset = .ok plaintext ↔ keyset.Consistent ∧
      ∃ entries, Serialized keyset.profile.sources keyset.privateHandles entries ∧
        (keyset.payload entries).dumps.encode = .ok plaintext := by
  have hloads := loads_serializePublicBundle keyset.publicBundle
  constructor
  · intro h
    obtain ⟨⟨⟩, hcheck, h⟩ := bind_eq_ok.mp h
    obtain ⟨items, hitems, h⟩ := bind_eq_ok.mp h
    have hc := checkExport_eq_ok.mp hcheck
    obtain ⟨entries, hs, rfl⟩ := (serializeHandles_eq_ok hc.privateHandles).mp hitems
    rw [hloads, ok_bind] at h
    exact ⟨hc, entries, hs, h⟩
  · rintro ⟨hc, entries, hs, hencode⟩
    have hitems := (serializeHandles_eq_ok hc.privateHandles).mpr ⟨entries, hs, rfl⟩
    rw [exportPlaintext, checkExport_eq_ok.mpr hc, ok_bind, hitems, ok_bind, hloads, ok_bind]
    exact hencode

/-- A returned keystore has the exported plaintext sealed in it. -/
theorem exportKeysetBytes_eq_ok {env : Env H} (ha : env.aead.Correct) {kdf : PasswordKdf}
    {keyset : KeySet H} {password : Password} {useArgon2 : Bool} {rt rt' : Runtime} {blob : Bytes}
    (h : (exportKeysetBytes env kdf keyset password useArgon2).run rt = (.ok blob, rt')) :
    ∃ plaintext pw, exportPlaintext keyset = .ok plaintext ∧ password.encode = .ok pw ∧ pw ≠ [] ∧
      blob.length = 4 + saltLen + nonceLen + (plaintext.length + 16) ∧
      ∀ payload, parsePayload plaintext = .ok payload → blob.length ≤ maxKeystoreSize →
        SealedPayload env kdf pw blob payload := by
  unfold exportKeysetBytes at h
  obtain ⟨plaintext, rt₁, hlift, h⟩ := Eff.bind_eq_ok.mp h
  obtain ⟨hplain, heq⟩ := Prod.mk.inj hlift
  subst heq
  obtain ⟨salt, rt₂, hsalt, h⟩ := Eff.bind_eq_ok.mp h
  obtain ⟨nonce, rt₃, hnonce, h⟩ := Eff.bind_eq_ok.mp h
  cases hsalt
  cases hnonce
  dsimp only at h
  obtain ⟨key, rt₄, hkey, h⟩ := Eff.bind_eq_ok.mp h
  obtain ⟨rfl, -, pw, derived, hpw, hne, hderive, rfl⟩ := deriveWrappingKey_eq_ok hkey
  rw [Eff.bind_ok (Runtime.newBuffer_run _ _)] at h
  obtain ⟨ct, rt₅, hseal, h⟩ := Eff.bind_eq_ok.mp h
  rw [sealInBuffer_run] at hseal
  obtain ⟨hresult, -⟩ := Prod.mk.inj hseal
  obtain ⟨_, hinit, hct⟩ := bind_eq_ok.mp hresult
  cases h
  obtain ⟨hlen, hopen⟩ := ha.decrypt_encrypt _ _ _ _ _ hct
  refine ⟨plaintext, pw, hplain, hpw, hne, ?_, ?_⟩
  · have hmagic : (if useArgon2 then magicKeystoreArgon2 else magicKeystoreScrypt).length = 4 := by
      cases useArgon2 <;> rfl
    simp only [List.length_append, hmagic, hlen, List.length_map, List.length_range]
  · intro payload hparse hsize
    refine ⟨hsize, _, _, _, ct, _, derived, plaintext, rfl, by simp, by simp, ?_, hderive, hinit,
      hopen, hparse⟩
    cases useArgon2 <;> rfl

/-- Export returns where the checks pass, the handles are serialized, the derivation gives a key
and the cipher takes the payload. -/
theorem exportKeysetBytes_returns {env : Env H} (ha : env.aead.Documented) {kdf : PasswordKdf}
    {keyset : KeySet H} {plaintext : Bytes} (hplain : exportPlaintext keyset = .ok plaintext)
    (haccepts : env.aead.Accepts plaintext) {password : Password} {pw : Bytes}
    (hpw : password.encode = .ok pw) (hne : pw ≠ []) (hkdf : kdf.Returns pw) (useArgon2 : Bool)
    {rt : Runtime} (hp : rt.kdfPermits ≠ 0) :
    ∃ blob rt', (exportKeysetBytes env kdf keyset password useArgon2).run rt = (.ok blob, rt') := by
  obtain ⟨rt₁, salt, hsalt, hp₁⟩ : ∃ rt₁ salt, (Runtime.sample (urandom saltLen)).run rt =
      (.ok salt, rt₁) ∧ rt₁.kdfPermits ≠ 0 := ⟨_, _, rfl, hp⟩
  obtain ⟨rt₂, nonce, hnonce, hlen, hp₂⟩ : ∃ rt₂ nonce, (Runtime.sample (urandom nonceLen)).run rt₁ =
      (.ok nonce, rt₂) ∧ nonce.length = 12 ∧ rt₂.kdfPermits ≠ 0 := ⟨_, _, rfl, by simp [nonceLen], hp₁⟩
  obtain ⟨key, hkey⟩ : ∃ key, kdf.derive (if useArgon2 then KdfType.argon2id else KdfType.scrypt)
      salt pw = .ok key := by
    cases useArgon2
    · exact (hkdf salt).2
    · exact (hkdf salt).1
  have hderive := deriveWrappingKey_run kdf hpw hne salt
    (if useArgon2 then KdfType.argon2id else KdfType.scrypt) hp₂
  rw [hkey] at hderive
  have hmagic : (if useArgon2 then magicKeystoreArgon2 else magicKeystoreScrypt).length < 2 ^ 31 := by
    cases useArgon2 <;> decide
  obtain ⟨ct, hct⟩ := haccepts key.val nonce _ key.property hlen hmagic
  have hseal := sealInBuffer_run env key.val nonce plaintext
    (if useArgon2 then magicKeystoreArgon2 else magicKeystoreScrypt) rt₂
  rw [ha.init_ok key.val key.property, ok_bind, hct] at hseal
  unfold exportKeysetBytes
  rw [hplain, Eff.run_lift_ok_bind, Eff.bind_ok hsalt, Eff.bind_ok hnonce]
  dsimp only
  rw [Eff.bind_ok hderive, Eff.bind_ok (Runtime.newBuffer_run _ _), Eff.bind_ok hseal]
  exact ⟨_, _, rfl⟩

end CryptoFlex
