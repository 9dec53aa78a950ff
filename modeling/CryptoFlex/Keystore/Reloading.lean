import CryptoFlex.Api.Migration
import CryptoFlex.Keystore.Reopening

namespace CryptoFlex

open Lib

variable {H : Type}

/-- The handle of a generated key that was saved is read back, and then opens what is encapsulated
to the key. -/
def Source.Reloads (s : Source H) : Prop :=
  ∀ pool pool' pub priv, s.generateKeypair.run pool = (.ok (pub, priv), pool') →
    ∀ b, s.serializePrivate priv = .ok b →
      ∃ handle, s.deserializePrivate b = .ok handle ∧ s.Opens handle pub

/-- What key sets in files need of a registry, too: ids that JSON gives back as they are, and
sources that reload. -/
structure Env.Durable (env : Env H) : Prop extends env.Sound where
  textual : ∀ id p, env.profiles.lookup id = some p →
    id.joined = id ∧ ∀ s ∈ p.sources, s.algorithmId.joined = s.algorithmId
  reloads : ∀ id p, env.profiles.lookup id = some p → ∀ s ∈ p.sources, s.Reloads

theorem generateKeypairs_reloaded {ss : List (Source H)} (hs : ∀ s ∈ ss, s.Reloads)
    {rt rt' : Runtime} {keys entries keys' : List (PyStr × Bytes)} {handles handles' : List H}
    (h : (generateKeypairs ss).run rt = (.ok (keys, handles), rt'))
    (hser : Serialized ss handles entries) (hopen : Opened ss entries keys' handles') :
    KeysMatch ss keys handles' := by
  induction ss generalizing rt keys handles entries keys' handles' with
  | nil =>
    cases h
    cases hopen
    exact KeysMatch.nil
  | cons s ss ih =>
    unfold generateKeypairs at h
    obtain ⟨⟨pub, priv⟩, rt₁, hgen, h⟩ := Eff.bind_eq_ok.mp h
    obtain ⟨⟨keys₁, handles₁⟩, rt₂, hrest, h⟩ := Eff.bind_eq_ok.mp h
    cases h
    unfold Runtime.sample at hgen
    rw [Eff.run_zoom] at hgen
    cases hser with
    | cons hse hser =>
    cases hopen with
    | cons hde hopen =>
    obtain ⟨handle, hde', hopens⟩ := hs s List.mem_cons_self rt.entropy _ pub priv
      (Prod.ext (Prod.mk.inj hgen).1 rfl) _ hse
    rw [hde] at hde'
    cases hde'
    exact KeysMatch.cons hopens
      (ih (fun s' hs' => hs s' (List.mem_cons_of_mem s hs')) hrest hser hopen)

/-- The saved entries are opened again. -/
theorem generateKeypairs_opened {ss : List (Source H)} (hs : ∀ s ∈ ss, s.Reloads)
    {rt rt' : Runtime} {keys entries : List (PyStr × Bytes)} {handles : List H}
    (h : (generateKeypairs ss).run rt = (.ok (keys, handles), rt'))
    (hser : Serialized ss handles entries) : ∃ handles', Opened ss entries keys handles' := by
  induction ss generalizing rt keys handles entries with
  | nil =>
    cases h
    cases hser
    exact ⟨[], Opened.nil⟩
  | cons s ss ih =>
    unfold generateKeypairs at h
    obtain ⟨⟨pub, priv⟩, rt₁, hgen, h⟩ := Eff.bind_eq_ok.mp h
    obtain ⟨⟨keys₁, handles₁⟩, rt₂, hrest, h⟩ := Eff.bind_eq_ok.mp h
    cases h
    unfold Runtime.sample at hgen
    rw [Eff.run_zoom] at hgen
    cases hser with
    | cons hse hser =>
    obtain ⟨handle, hde, -⟩ := hs s List.mem_cons_self rt.entropy _ pub priv
      (Prod.ext (Prod.mk.inj hgen).1 rfl) _ hse
    obtain ⟨handles', hopen⟩ :=
      ih (fun s' hs' => hs s' (List.mem_cons_of_mem s hs')) hrest hser
    exact ⟨handle :: handles', Opened.cons hde hopen⟩

theorem generateKeypairs_ids {ss : List (Source H)} {rt rt' : Runtime}
    {keys : List (PyStr × Bytes)} {handles : List H}
    (h : (generateKeypairs ss).run rt = (.ok (keys, handles), rt')) :
    keys.map Prod.fst = ss.map (·.algorithmId) := by
  induction ss generalizing rt keys handles with
  | nil =>
    cases h
    rfl
  | cons s ss ih =>
    unfold generateKeypairs at h
    obtain ⟨⟨pub, priv⟩, rt₁, -, h⟩ := Eff.bind_eq_ok.mp h
    obtain ⟨⟨keys₁, handles₁⟩, rt₂, hrest, h⟩ := Eff.bind_eq_ok.mp h
    cases h
    rw [List.map_cons, List.map_cons, ih hrest]

section Established

variable {env : Env H} {k : KeySet H}

theorem Established.generated (h : Established env k) : ∃ rt rt',
    (generateKeypairs k.profile.sources).run rt =
      (.ok (k.publicBundle.publicKeys, k.privateHandles), rt') := by
  obtain ⟨engine, constraint, requireQs, rt, rt', hrun⟩ := h
  unfold establishKeys at hrun
  obtain ⟨decision, rt₁, -, hrun⟩ := Eff.bind_eq_ok.mp hrun
  obtain ⟨⟨keys, handles⟩, rt₂, hgen, hrun⟩ := Eff.bind_eq_ok.mp hrun
  cases hrun
  exact ⟨_, _, hgen⟩

/-- The bundle of an established key set comes back from JSON as it is. -/
theorem Established.joined (he : env.Durable) (hk : Established env k) :
    k.publicBundle.joined = k.publicBundle := by
  obtain ⟨hreach, -⟩ := hk.usable he.toSound
  obtain ⟨rt, rt', hgen⟩ := hk.generated
  obtain ⟨hid, hsources⟩ := he.textual _ _ hreach.registered
  have hkeys := joinedIds_of_ids (generateKeypairs_ids hgen) hsources
  rw [PublicBundle.joined, hid, hkeys]

/-- A key set is imported from its keystore with handles that belong to its bundle. -/
theorem Established.reimported (he : env.Durable) (hk : Established env k) {kdf : PasswordKdf}
    {password password' : Password} (hpassword : password'.encode = password.encode)
    {useArgon2 : Bool} {rt rt' : Runtime} {blob : Bytes}
    (hexport : (exportKeysetBytes env kdf k password useArgon2).run rt = (.ok blob, rt'))
    {rt₁ rt₂ : Runtime} {k' : KeySet H}
    (himport : (importKeysetBytes env kdf blob password').run rt₁ = (.ok k', rt₂)) :
    k'.profile = k.profile ∧ k'.publicBundle = k.publicBundle ∧
      KeysMatch k.profile.sources k.publicBundle.publicKeys k'.privateHandles := by
  obtain ⟨hreach, -⟩ := hk.usable he.toSound
  obtain ⟨rt₀, rt₀', hgen⟩ := hk.generated
  obtain ⟨entries, pw, hc, hser, hpw, hne, -, hsealed⟩ := exportKeysetBytes_sealed he.aead hexport
  obtain ⟨-, -, -, hp⟩ := importKeysetBytes_needs himport
  obtain ⟨payload, hpayload, hread⟩ :=
    (importKeysetBytes_eq_ok (hpassword.trans hpw) hne hp).mp ⟨rt₂, himport⟩
  obtain rfl := hpayload.unique (hsealed hpayload.size)
  obtain ⟨profile, handles, -, hlookup, -, -, hopen, rfl⟩ :=
    (importPayload_eq_ok (PublicBundle.joined_joined _)).mp hread
  obtain ⟨hid, hsources⟩ := he.textual _ _ hreach.registered
  rw [hc.profileId, hid, hreach.registered] at hlookup
  cases hlookup
  rw [joinedIds_of_ids hser.ids hsources] at hopen
  refine ⟨rfl, hk.joined he, ?_⟩
  exact generateKeypairs_reloaded (fun s hs => he.reloads _ _ hreach.registered s hs) hgen hser
    hopen

/-- An established key set reopens, where its keystore is not too large. -/
theorem Established.imports (he : env.Durable) (hk : Established env k) {kdf : PasswordKdf}
    {password : Password} {useArgon2 : Bool} {rt rt' : Runtime} {blob : Bytes}
    (hexport : (exportKeysetBytes env kdf k password useArgon2).run rt = (.ok blob, rt'))
    (hsize : blob.length ≤ maxKeystoreSize) {rt₁ : Runtime} (hp : rt₁.kdfPermits ≠ 0) :
    ∃ k' rt₂, (importKeysetBytes env kdf blob password).run rt₁ = (.ok k', rt₂) := by
  obtain ⟨hreach, -⟩ := hk.usable he.toSound
  obtain ⟨rt₀, rt₀', hgen⟩ := hk.generated
  obtain ⟨hid, hsources⟩ := he.textual _ _ hreach.registered
  obtain ⟨entries, pw, hc, hser, hpw, hne, hlen, -⟩ := exportKeysetBytes_sealed he.aead hexport
  obtain ⟨handles, hopen⟩ := generateKeypairs_opened
    (fun s hs => he.reloads _ _ hreach.registered s hs) hgen hser
  have hentries := joinedIds_of_ids hser.ids hsources
  have hkeys := joinedIds_of_ids (generateKeypairs_ids hgen) hsources
  have hjoined : k.profile.profileId.joined = k.profile.profileId := by
    rw [hc.profileId, hid]
  have hreopens : k.Reopens env := by
    refine ⟨k.profile, entries, handles, ?_, ?_, hjoined.symm, hser, ?_, hlen ▸ hsize⟩
    · rw [hjoined, hc.profileId]
      exact he.wellFormed.named _ _ hreach.registered
    · rw [hjoined, hc.profileId]
      exact hreach.registered
    · rw [hentries, hkeys]
      exact hopen
  exact hreopens.imports he.aead hexport hp

end Established

end CryptoFlex
