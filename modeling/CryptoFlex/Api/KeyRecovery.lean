import CryptoFlex.Api
import CryptoFlex.Policy.QuantumSafe

namespace CryptoFlex

open Lib

variable {H : Type}

/-- A relation on process states that recorded KEM calls keep. -/
structure Recording (K : Runtime → Runtime → Prop) : Prop where
  refl : ∀ rt, K rt rt
  trans : ∀ rt rt' rt'', K rt rt' → K rt' rt'' → K rt rt''
  record : ∀ e : Event, e.isKem = true → Eff.Keeps K (Runtime.record e)

/-- One that sampling keeps as well. -/
structure Stable (K : Runtime → Runtime → Prop) : Prop extends Recording K where
  sample : ∀ {α : Type} (x : Eff Exc Entropy α), Eff.Keeps K (Runtime.sample x)

section Keeps

variable {K : Runtime → Runtime → Prop}

theorem Stable.encapsulateAll (hK : Stable K) (l : List (Source H × PyStr × Bytes)) :
    Eff.Keeps K (encapsulateAll l) := by
  induction l with
  | nil => exact Eff.Keeps.pure hK.refl _
  | cons entry l ih =>
    obtain ⟨source, algId, pubKey⟩ := entry
    unfold CryptoFlex.encapsulateAll
    split
    · exact Eff.Keeps.raise hK.refl _
    · apply Eff.Keeps.bind hK.trans (hK.record _ rfl)
      intro _
      apply Eff.Keeps.bind hK.trans (hK.sample _)
      intro enc
      apply Eff.Keeps.bind hK.trans ih
      intro encs
      exact Eff.Keeps.pure hK.refl _

theorem Stable.deriveRootKey (hK : Stable K) (env : Env H) (bundle : PublicBundle) :
    Eff.Keeps K (deriveRootKey env bundle) := by
  unfold CryptoFlex.deriveRootKey
  apply Eff.Keeps.bind hK.trans (Eff.Keeps.lift hK.refl _)
  intro profile
  split
  · exact Eff.Keeps.raise hK.refl _
  · apply Eff.Keeps.bind hK.trans (hK.encapsulateAll _)
    intro encs
    apply Eff.Keeps.bind hK.trans (Eff.Keeps.lift hK.refl _)
    intro combined
    apply Eff.Keeps.bind hK.trans (hK.sample _)
    intro nonce
    exact Eff.Keeps.pure hK.refl _

theorem Recording.decapsulateAll (hK : Recording K) (l : List (Source H × H × PyStr × Bytes)) :
    Eff.Keeps K (decapsulateAll l) := by
  induction l with
  | nil => exact Eff.Keeps.pure hK.refl _
  | cons entry l ih =>
    obtain ⟨source, privHandle, algId, ciphertext⟩ := entry
    unfold CryptoFlex.decapsulateAll
    split
    · exact Eff.Keeps.raise hK.refl _
    · apply Eff.Keeps.bind hK.trans (hK.record _ rfl)
      intro _
      apply Eff.Keeps.bind hK.trans (Eff.Keeps.lift hK.refl _)
      intro secret
      apply Eff.Keeps.bind hK.trans ih
      intro secrets
      exact Eff.Keeps.pure hK.refl _

theorem Recording.recoverRootKeyInternal (hK : Recording K) (env : Env H) (handles : List H)
    (header : CryptoflexHeader) (profile : SecurityProfile H) :
    Eff.Keeps K (recoverRootKeyInternal env handles header profile) := by
  unfold CryptoFlex.recoverRootKeyInternal
  split
  · exact Eff.Keeps.raise hK.refl _
  · apply Eff.Keeps.bind hK.trans (hK.decapsulateAll _)
    intro secrets
    apply Eff.Keeps.bind hK.trans (Eff.Keeps.lift hK.refl _)
    intro combined
    exact Eff.Keeps.pure hK.refl _

end Keeps

/-- A frame condition: the bytearrays stay as they are. -/
def SameHeap (rt rt' : Runtime) : Prop := rt'.heap = rt.heap

theorem SameHeap.stable : Stable SameHeap where
  refl _ := rfl
  trans _ _ _ h h' := Eq.trans h' h
  sample _ _ := rfl
  record _ _ _ := rfl

theorem SealsNothing.stable : Stable SealsNothing where
  refl _ := rfl
  trans _ _ _ h h' := Eq.trans h' h
  sample _ _ := rfl
  record e he rt := by
    cases e <;> simp [SealsNothing, Runtime.record, Runtime.seals, Event.seal?, Event.isKem] at he ⊢

theorem SealsNothing.aesgcmDecrypt (env : Env H) (key nonce data aad : Bytes) :
    Eff.Keeps SealsNothing (aesgcmDecrypt env key nonce data aad) := by
  intro rt
  rw [aesgcmDecrypt_run]
  simp [SealsNothing, Runtime.seals, Event.seal?]

theorem SameCalls.stable : Stable SameCalls where
  refl _ := rfl
  trans _ _ _ h h' := Eq.trans h' h
  sample _ _ := rfl
  record e he rt := by
    cases e <;>
      simp [SameCalls, Runtime.record, Runtime.encryptCalls, Event.encryptCall?, Event.isKem] at he ⊢

theorem SameCalls.aesgcmDecrypt (env : Env H) (key nonce data aad : Bytes) :
    Eff.Keeps SameCalls (aesgcmDecrypt env key nonce data aad) := by
  intro rt
  rw [aesgcmDecrypt_run]
  simp [SameCalls, Runtime.encryptCalls, Event.encryptCall?]

theorem SameOpenings.stable : Stable SameOpenings where
  refl _ := rfl
  trans _ _ _ h h' := Eq.trans h' h
  sample _ _ := rfl
  record e he rt := by
    cases e <;> simp [SameOpenings, Runtime.record, Runtime.decryptCalls, Event.decryptCall?,
      Event.isKem] at he ⊢

theorem SameOpenings.aesgcmEncrypt (env : Env H) (key nonce data aad : Bytes) :
    Eff.Keeps SameOpenings (aesgcmEncrypt env key nonce data aad) := by
  intro rt
  rw [aesgcmEncrypt_run]
  simp [SameOpenings, Runtime.decryptCalls, Event.decryptCall?]

/-- A frame condition: the random pool stays as it is. -/
def SamePool (rt rt' : Runtime) : Prop := rt'.entropy = rt.entropy

theorem SamePool.recording : Recording SamePool where
  refl _ := rfl
  trans _ _ _ h h' := Eq.trans h' h
  record _ _ _ := rfl

theorem sample_through {α : Type} (x : Eff Exc Entropy α) :
    Eff.Through Runtime.entropy (Runtime.sample x) := by
  intro rt rt' h
  simp only [Runtime.sample, Eff.run_zoom, h]
  simp

theorem record_through (e : Event) : Eff.Through Runtime.entropy (Runtime.record e) :=
  fun _ _ h => ⟨rfl, h⟩

theorem encapsulateAll_through (l : List (Source H × PyStr × Bytes)) :
    Eff.Through Runtime.entropy (encapsulateAll l) := by
  induction l with
  | nil => exact Eff.Through.pure _
  | cons entry l ih =>
    obtain ⟨source, algId, pubKey⟩ := entry
    unfold encapsulateAll
    split
    · exact Eff.Through.raise _
    · apply (record_through _).bind
      intro _
      apply (sample_through _).bind
      intro enc
      apply ih.bind
      intro encs
      exact Eff.Through.pure _

theorem deriveRootKey_through (env : Env H) (bundle : PublicBundle) :
    Eff.Through Runtime.entropy (deriveRootKey env bundle) := by
  unfold deriveRootKey
  apply (Eff.Through.lift _).bind
  intro profile
  split
  · exact Eff.Through.raise _
  · apply (encapsulateAll_through _).bind
    intro encs
    apply (Eff.Through.lift _).bind
    intro combined
    apply (sample_through _).bind
    intro nonce
    exact Eff.Through.pure _

theorem encapsulateAll_ids {l : List (Source H × PyStr × Bytes)} {rt rt' : Runtime}
    {encs : List (PyStr × Encapsulation)} (h : (encapsulateAll l).run rt = (.ok encs, rt')) :
    encs.map Prod.fst = l.map (fun entry => entry.1.algorithmId) ∧
      encs.map Prod.fst = l.map (fun entry => entry.2.1) := by
  induction l generalizing rt encs with
  | nil =>
    cases h
    exact ⟨rfl, rfl⟩
  | cons entry l ih =>
    obtain ⟨source, algId, pubKey⟩ := entry
    unfold encapsulateAll at h
    split at h
    · cases h
    · next hid =>
      obtain ⟨-, rt1, -, h⟩ := Eff.bind_eq_ok.mp h
      obtain ⟨enc, rt2, -, h⟩ := Eff.bind_eq_ok.mp h
      obtain ⟨rest, rt3, hrest, h⟩ := Eff.bind_eq_ok.mp h
      cases h
      have hr := ih hrest
      simp only [List.map_cons, hr.1, not_not.mp hid]
      exact ⟨trivial, by rw [← hr.1, hr.2]⟩

/-- What a returning `derive_root_key` has computed. -/
structure Derivation (env : Env H) (bundle : PublicBundle) (rt : Runtime) (d : DerivedRoot)
    (profile : SecurityProfile H) (encs : List (PyStr × Encapsulation)) (nonce : Bytes) :
    Prop where
  registered : env.profiles.lookup bundle.profileId = some profile
  count : profile.sources.length = bundle.publicKeys.length
  encapsulated : ∃ rt', (encapsulateAll (profile.sources.zip bundle.publicKeys)).run rt =
    (.ok encs, rt')
  combined : combine env.hkdf encs =
    .ok { rootKey := d.rootKey, components := d.header.components }
  header : d.header =
    { profileId := bundle.profileId, components := d.header.components, nonce := some nonce }
  nonceLength : nonce.length = nonceLen

theorem deriveRootKey_eq_ok {env : Env H} {bundle : PublicBundle} {rt rt' : Runtime}
    {d : DerivedRoot} (h : (deriveRootKey env bundle).run rt = (.ok d, rt')) :
    ∃ profile encs nonce, Derivation env bundle rt d profile encs nonce := by
  unfold deriveRootKey at h
  obtain ⟨profile, rt1, hp, h⟩ := Eff.bind_eq_ok.mp h
  rw [Eff.run_lift] at hp
  obtain ⟨hprofile, rfl⟩ := Prod.mk.inj hp
  split at h
  · cases h
  · next hcount =>
    obtain ⟨encs, rt2, hencs, h⟩ := Eff.bind_eq_ok.mp h
    obtain ⟨combined, rt3, hc, h⟩ := Eff.bind_eq_ok.mp h
    obtain ⟨nonce, rt4, hn, h⟩ := Eff.bind_eq_ok.mp h
    rw [Eff.run_lift] at hc
    cases h
    cases hn
    exact ⟨profile, encs, _, getProfile_eq_ok.mp hprofile, not_not.mp hcount, ⟨rt2, hencs⟩,
      (Prod.mk.inj hc).1, rfl, by simp⟩

theorem Derivation.rootKey_length {env : Env H} {bundle : PublicBundle} {rt : Runtime}
    {d : DerivedRoot} {profile : SecurityProfile H} {encs : List (PyStr × Encapsulation)}
    {nonce : Bytes} (h : Derivation env bundle rt d profile encs nonce) :
    d.rootKey.length = rootKeyLen :=
  combine_rootKey_length h.combined

theorem Derivation.profile_eq {env : Env H} {bundle : PublicBundle} {rt : Runtime}
    {d : DerivedRoot} {profile profile' : SecurityProfile H}
    {encs : List (PyStr × Encapsulation)} {nonce : Bytes}
    (h : Derivation env bundle rt d profile encs nonce)
    (hreg : env.profiles.lookup bundle.profileId = some profile') : profile' = profile := by
  have hsame := h.registered
  rw [hreg] at hsame
  exact Option.some.inj hsame

theorem Derivation.components {env : Env H} {bundle : PublicBundle} {rt : Runtime}
    {d : DerivedRoot} {profile : SecurityProfile H} {encs : List (PyStr × Encapsulation)}
    {nonce : Bytes} (h : Derivation env bundle rt d profile encs nonce) :
    d.header.components = encs.map fun e => (e.1, e.2.ciphertext) := by
  obtain ⟨info, -, hm⟩ := combine_eq_ok h.combined
  exact congrArg CombinedKeyMaterial.components hm

/-- The components of the header are those of the profile, in its order. -/
theorem Derivation.ids {env : Env H} {bundle : PublicBundle} {rt : Runtime} {d : DerivedRoot}
    {profile : SecurityProfile H} {encs : List (PyStr × Encapsulation)} {nonce : Bytes}
    (h : Derivation env bundle rt d profile encs nonce) :
    encs.map Prod.fst = profile.sources.map (·.algorithmId) := by
  obtain ⟨rt', hencs⟩ := h.encapsulated
  have hzip : (profile.sources.zip bundle.publicKeys).map Prod.fst = profile.sources :=
    List.map_fst_zip (le_of_eq h.count)
  calc encs.map Prod.fst
      = (profile.sources.zip bundle.publicKeys).map (fun entry => entry.1.algorithmId) :=
        (encapsulateAll_ids hencs).1
    _ = ((profile.sources.zip bundle.publicKeys).map Prod.fst).map (·.algorithmId) := by
        rw [List.map_map]
        rfl
    _ = profile.sources.map (·.algorithmId) := by rw [hzip]

/-- `handle` recovers every secret encapsulated to `pub`. -/
def Source.Opens (s : Source H) (handle : H) (pub : Bytes) : Prop :=
  ∀ coins coins' enc, (s.encapsulate pub).run coins = (.ok enc, coins') →
    s.decapsulate handle enc.ciphertext = .ok enc.sharedSecret

/-- One handle for each source and public key, in order, that opens what is encapsulated to it. -/
inductive KeysMatch : List (Source H) → List (PyStr × Bytes) → List H → Prop
  | nil : KeysMatch [] [] []
  | cons {s : Source H} {ss : List (Source H)} {pub : Bytes} {keys : List (PyStr × Bytes)}
    {handle : H} {handles : List H} (opens : s.Opens handle pub)
    (rest : KeysMatch ss keys handles) :
    KeysMatch (s :: ss) ((s.algorithmId, pub) :: keys) (handle :: handles)

theorem KeysMatch.length_eq {ss : List (Source H)} {keys : List (PyStr × Bytes)}
    {handles : List H} (h : KeysMatch ss keys handles) :
    ss.length = keys.length ∧ ss.length = handles.length := by
  induction h with
  | nil => exact ⟨rfl, rfl⟩
  | cons _ _ ih => exact ⟨congrArg (· + 1) ih.1, congrArg (· + 1) ih.2⟩

/-- The handles belong to the bundle: its profile is registered and every handle opens what is
encapsulated to the key at its place. -/
def Env.HandlesFor (env : Env H) (bundle : PublicBundle) (handles : List H) : Prop :=
  ∃ profile, env.profiles.lookup bundle.profileId = some profile ∧
    KeysMatch profile.sources bundle.publicKeys handles

theorem decapsulateAll_of_encapsulateAll {ss : List (Source H)} {keys : List (PyStr × Bytes)}
    {handles : List H} (hm : KeysMatch ss keys handles) {rt rt' : Runtime}
    {encs : List (PyStr × Encapsulation)}
    (h : (encapsulateAll (ss.zip keys)).run rt = (.ok encs, rt')) :
    Eff.Yields (decapsulateAll
        (ss.zip (handles.zip (encs.map fun e => (e.1, e.2.ciphertext)))))
      (.ok (encs.map fun e => (e.1, e.2.sharedSecret))) := by
  induction hm generalizing rt encs with
  | nil =>
    cases h
    exact Eff.Yields.pure _
  | @cons s ss pub keys handle handles opens rest ih =>
    unfold List.zip at h
    rw [List.zipWith_cons_cons] at h
    unfold encapsulateAll at h
    rw [if_neg (by simp)] at h
    obtain ⟨-, rt1, -, h⟩ := Eff.bind_eq_ok.mp h
    obtain ⟨enc, rt2, henc, h⟩ := Eff.bind_eq_ok.mp h
    obtain ⟨encs', rt3, hrest, h⟩ := Eff.bind_eq_ok.mp h
    cases h
    have hsecret : s.decapsulate handle enc.ciphertext = .ok enc.sharedSecret := by
      unfold Runtime.sample at henc
      rw [Eff.run_zoom] at henc
      exact opens rt1.entropy _ enc (Prod.ext (Prod.mk.inj henc).1 rfl)
    simp only [List.map_cons, List.zip_cons_cons]
    unfold decapsulateAll
    rw [if_neg (by simp)]
    have hrecord : Eff.Yields (Runtime.record (.decapsulate s.algorithmId)) (.ok ()) :=
      fun _ => rfl
    apply hrecord.bind_ok
    rw [hsecret]
    apply (Eff.Yields.lift _).bind_ok
    apply (ih hrest).bind_ok
    exact Eff.Yields.pure _

/-- The handles that belong to a bundle recover every root key derived from it. -/
theorem recoverRootKeyInternal_of_derive {env : Env H} {bundle : PublicBundle}
    {handles : List H} {profile : SecurityProfile H}
    (hm : KeysMatch profile.sources bundle.publicKeys handles) {rt : Runtime} {d : DerivedRoot}
    {encs : List (PyStr × Encapsulation)} {nonce : Bytes}
    (hd : Derivation env bundle rt d profile encs nonce) :
    Eff.Yields (recoverRootKeyInternal env handles d.header profile) (.ok d.rootKey) := by
  obtain ⟨rt1, hencs⟩ := hd.encapsulated
  have hcomp := hd.components
  have hlen : encs.length = profile.sources.length := by
    have hids := congrArg List.length hd.ids
    rwa [List.length_map, List.length_map] at hids
  have hsecrets := decapsulateAll_of_encapsulateAll hm hencs
  have hsame := combineFromSecrets_of_combine hd.combined
  unfold recoverRootKeyInternal
  rw [if_neg (by
    rw [hcomp, List.length_map, hlen]
    exact not_not.mpr ⟨hm.length_eq.2, hm.length_eq.2.symm⟩)]
  rw [← hcomp] at hsecrets
  apply hsecrets.bind_ok
  rw [hsame]
  apply (Eff.Yields.lift _).bind_ok
  exact Eff.Yields.pure _

/-- The caller asks for no minimum, or for one that is not stronger than `profile`. -/
def NotStronger (env : Env H) (minProfile : Option PyStr) (profile : SecurityProfile H) : Prop :=
  ∀ minId, minProfile = some minId → ∃ minProf, env.profiles.lookup minId = some minProf ∧
    minProf.strengthLevel ≤ profile.strengthLevel

theorem checkDowngrade_ok {env : Env H} {header : CryptoflexHeader} {minProfile : Option PyStr}
    {profile : SecurityProfile H} (hreg : env.profiles.lookup header.profileId = some profile)
    (hmin : NotStronger env minProfile profile) : checkDowngrade env header minProfile = .ok () := by
  unfold checkDowngrade
  cases minProfile with
  | none => rfl
  | some minId =>
    obtain ⟨minProf, hlookup, hle⟩ := hmin minId rfl
    dsimp only
    rw [getProfile_eq_ok.mpr hreg, getProfile_eq_ok.mpr hlookup]
    dsimp only
    rw [if_neg (by omega)]

theorem generateKeypairs_match {ss : List (Source H)} (hc : ∀ s ∈ ss, s.Correct)
    {rt rt' : Runtime} {keys : List (PyStr × Bytes)} {handles : List H}
    (h : (generateKeypairs ss).run rt = (.ok (keys, handles), rt')) :
    KeysMatch ss keys handles := by
  induction ss generalizing rt keys handles with
  | nil =>
    cases h
    exact KeysMatch.nil
  | cons s ss ih =>
    unfold generateKeypairs at h
    obtain ⟨⟨pub, priv⟩, rt1, hgen, h⟩ := Eff.bind_eq_ok.mp h
    obtain ⟨⟨keys', handles'⟩, rt2, hrest, h⟩ := Eff.bind_eq_ok.mp h
    cases h
    have hopens : s.Opens priv pub := by
      unfold Runtime.sample at hgen
      rw [Eff.run_zoom] at hgen
      exact hc s List.mem_cons_self rt.entropy _ pub priv (Prod.ext (Prod.mk.inj hgen).1 rfl)
    exact KeysMatch.cons hopens (ih (fun s' hs' => hc s' (List.mem_cons_of_mem _ hs')) hrest)

/-- Where every profile is filed under its own id, the handles of an established key set belong
to its bundle. -/
theorem establishKeys_keyed {env : Env H}
    (hkeyed : ∀ id p, env.profiles.lookup id = some p → p.profileId = id)
    (hc : ∀ id p, env.profiles.lookup id = some p → ∀ s ∈ p.sources, s.Correct)
    {engine : PolicyEngine} {constraint : Constraint} {requireQs : Bool} {rt rt' : Runtime}
    {keyset : KeySet H}
    (h : (establishKeys env engine constraint requireQs).run rt = (.ok keyset, rt')) :
    env.profiles.lookup keyset.publicBundle.profileId = some keyset.profile ∧
      KeysMatch keyset.profile.sources keyset.publicBundle.publicKeys keyset.privateHandles := by
  unfold establishKeys at h
  obtain ⟨decision, rt1, hdec, h⟩ := Eff.bind_eq_ok.mp h
  obtain ⟨⟨keys, handles⟩, rt2, hgen, h⟩ := Eff.bind_eq_ok.mp h
  cases h
  obtain ⟨id, hid⟩ := PolicyEngine.decide_registered (Prod.mk.inj hdec).1
  dsimp only at hid ⊢
  refine ⟨?_, generateKeypairs_match (hc id _ hid) hgen⟩
  rw [hkeyed id _ hid]
  exact hid

theorem establishKeys_handlesFor {env : Env H} (hw : env.profiles.WellFormed)
    (hc : ∀ id p, env.profiles.lookup id = some p → ∀ s ∈ p.sources, s.Correct)
    {engine : PolicyEngine} {constraint : Constraint} {requireQs : Bool} {rt rt' : Runtime}
    {keyset : KeySet H}
    (h : (establishKeys env engine constraint requireQs).run rt = (.ok keyset, rt')) :
    env.profiles.lookup keyset.publicBundle.profileId = some keyset.profile ∧
      KeysMatch keyset.profile.sources keyset.publicBundle.publicKeys keyset.privateHandles :=
  establishKeys_keyed hw.keyed hc h

def zeroBundle : PublicBundle where
  profileId := "hybrid_standard"
  publicKeys := [("x25519", List.replicate 32 0), ("mlkem768", List.replicate 32 0)]

def zeroHeader : CryptoflexHeader where
  profileId := "hybrid_standard"
  components := [("x25519", List.replicate 32 0), ("mlkem768", List.replicate 32 0)]
  nonce := some (List.replicate 12 0)

def zeroHeaderBytes : Bytes :=
  magic ++ [2, 15] ++ "hybrid_standard".toByteArray.data.toList ++ [2, 6] ++
    "x25519".toByteArray.data.toList ++ [0, 32] ++ List.replicate 32 0 ++ [8] ++
    "mlkem768".toByteArray.data.toList ++ [0, 32] ++ List.replicate 44 0

theorem zeroHeader_toBytes : zeroHeader.toBytes = .ok zeroHeaderBytes := by decide +kernel

theorem establishKeys_zero :
    ((establishKeys (xorEnv zeroTagAead) ⟨PolicyEngine.deprecatedMlkemTable⟩ .balanced false).run
      zeroRuntime).1.map (fun keyset => (keyset.publicBundle, keyset.profile.strengthLevel)) =
      .ok (zeroBundle, 1) := by
  rfl

theorem establishKeys_zeroKeyset : ∃ keyset rt,
    (establishKeys (xorEnv zeroTagAead) ⟨PolicyEngine.deprecatedMlkemTable⟩ .balanced false).run
      zeroRuntime = (.ok keyset, rt) ∧
    keyset.publicBundle = zeroBundle ∧ keyset.profile.strengthLevel = 1 := by
  have hok := establishKeys_zero
  rcases hkeys : (establishKeys (xorEnv zeroTagAead) ⟨PolicyEngine.deprecatedMlkemTable⟩ .balanced
    false).run zeroRuntime with ⟨_ | keyset, rt⟩
  · rw [hkeys] at hok
    cases hok
  · rw [hkeys] at hok
    obtain ⟨hbundle, hstrength⟩ := Prod.mk.inj (Except.ok.inj hok)
    exact ⟨keyset, rt, rfl, hbundle, hstrength⟩

theorem deriveRootKey_zero (aead : Aead) :
    ((deriveRootKey (xorEnv aead) zeroBundle).run zeroRuntime).1 =
      .ok { rootKey := List.replicate 32 0, header := zeroHeader } := by
  have haead : deriveRootKey (xorEnv aead) zeroBundle =
    deriveRootKey (xorEnv zeroTagAead) zeroBundle := rfl
  rw [haead]
  rfl

def zeroHandles : List (PrivateHandle Bytes Bytes) :=
  [.x25519 (List.replicate 32 0), .oqs (List.replicate 32 0)]

theorem zeroHandles_for (aead : Aead) : (xorEnv aead).HandlesFor zeroBundle zeroHandles := by
  have hx : (classicalSource xorX25519 : Source (PrivateHandle Bytes Bytes)).Opens
      (.x25519 (List.replicate 32 0)) (List.replicate 32 0) :=
    classicalSource_xor_correct zeroRuntime.entropy _ _ _ rfl
  have hm : (pqcSource xorOqs "ML-KEM-768" : Source (PrivateHandle Bytes Bytes)).Opens
      (.oqs (List.replicate 32 0)) (List.replicate 32 0) :=
    pqcSource_xor_correct (by decide) zeroRuntime.entropy _ _ _ rfl
  exact ⟨PolicyEngine.hybridStandard, rfl, KeysMatch.cons hx (KeysMatch.cons hm KeysMatch.nil)⟩

end CryptoFlex
