import CryptoFlex.Api.KeyRecovery
import CryptoFlex.Combiner.Binding

namespace CryptoFlex

open Lib

variable {H : Type}

/-- Each encapsulation is its source's to the key at its place, with what the earlier ones left of
the random pool. -/
inductive Encapsulated : List (Source H) → List (PyStr × Bytes) → Entropy →
    List (PyStr × Encapsulation) → Prop
  | nil {pool : Entropy} : Encapsulated [] [] pool []
  | cons {s : Source H} {ss : List (Source H)} {pub : Bytes} {keys : List (PyStr × Bytes)}
    {pool pool' : Entropy} {enc : Encapsulation} {encs : List (PyStr × Encapsulation)}
    (head : (s.encapsulate pub).run pool = (.ok enc, pool'))
    (tail : Encapsulated ss keys pool' encs) :
    Encapsulated (s :: ss) ((s.algorithmId, pub) :: keys) pool ((s.algorithmId, enc) :: encs)

/-- Each secret is what its source recovers with the handle and the ciphertext at its place. -/
inductive Recovered : List (Source H) → List H → List (PyStr × Bytes) → List Bytes → Prop
  | nil : Recovered [] [] [] []
  | cons {s : Source H} {ss : List (Source H)} {handle : H} {handles : List H} {ct : Bytes}
    {components : List (PyStr × Bytes)} {secret : Bytes} {secrets : List Bytes}
    (head : s.decapsulate handle ct = .ok secret)
    (tail : Recovered ss handles components secrets) :
    Recovered (s :: ss) (handle :: handles) ((s.algorithmId, ct) :: components)
      (secret :: secrets)

theorem Encapsulated.ids {ss : List (Source H)} {keys : List (PyStr × Bytes)} {pool : Entropy}
    {encs : List (PyStr × Encapsulation)} (h : Encapsulated ss keys pool encs) :
    keys.map Prod.fst = ss.map (·.algorithmId) ∧ encs.map Prod.fst = ss.map (·.algorithmId) := by
  induction h with
  | nil => simp
  | cons head tail ih => simp [ih.1, ih.2]

theorem Recovered.ids {ss : List (Source H)} {handles : List H}
    {components : List (PyStr × Bytes)} {secrets : List Bytes}
    (h : Recovered ss handles components secrets) :
    components.map Prod.fst = ss.map (·.algorithmId) ∧ handles.length = ss.length := by
  induction h with
  | nil => simp
  | cons head tail ih => simp [ih.1, ih.2]

theorem encapsulateAll_eq_ok {ss : List (Source H)} {keys : List (PyStr × Bytes)}
    (hlen : ss.length = keys.length) {rt rt' : Runtime} {encs : List (PyStr × Encapsulation)}
    (h : (encapsulateAll (ss.zip keys)).run rt = (.ok encs, rt')) :
    Encapsulated ss keys rt.entropy encs := by
  induction ss generalizing keys rt encs with
  | nil =>
    have hkeys : keys = [] := List.length_eq_zero_iff.mp hlen.symm
    subst hkeys
    cases h
    exact Encapsulated.nil
  | cons s ss ih =>
    cases keys with
    | nil => cases hlen
    | cons key keys =>
      obtain ⟨algId, pub⟩ := key
      rw [List.zip_cons_cons, encapsulateAll] at h
      by_cases hid : s.algorithmId = algId
      · rw [if_neg (not_not.mpr hid)] at h
        obtain ⟨_, rt1, hrecord, h⟩ := Eff.bind_eq_ok.mp h
        obtain ⟨enc, rt2, henc, h⟩ := Eff.bind_eq_ok.mp h
        obtain ⟨encs', rt3, hrest, h⟩ := Eff.bind_eq_ok.mp h
        cases h
        have hpool : rt1.entropy = rt.entropy := (congrArg (fun p => p.2.entropy) hrecord).symm
        rw [Runtime.sample, Eff.run_zoom, hpool] at henc
        have hhead : (s.encapsulate pub).run rt.entropy = (.ok enc, rt2.entropy) := by
          rw [← (Prod.mk.inj henc).1, ← (Prod.mk.inj henc).2]
        have htail := ih (by simpa using hlen) hrest
        subst hid
        exact Encapsulated.cons hhead htail
      · rw [if_pos hid] at h
        cases h

theorem decapsulateAll_eq_ok {ss : List (Source H)} {handles : List H}
    {components : List (PyStr × Bytes)} (hhandles : ss.length = handles.length)
    (hcomponents : handles.length = components.length) {rt rt' : Runtime}
    {secrets : List (PyStr × Bytes)}
    (h : (decapsulateAll (ss.zip (handles.zip components))).run rt = (.ok secrets, rt')) :
    Recovered ss handles components (secrets.map Prod.snd) := by
  induction ss generalizing handles components rt secrets with
  | nil =>
    have hh : handles = [] := List.length_eq_zero_iff.mp hhandles.symm
    subst hh
    have hc : components = [] := List.length_eq_zero_iff.mp hcomponents.symm
    subst hc
    cases h
    exact Recovered.nil
  | cons s ss ih =>
    cases handles with
    | nil => cases hhandles
    | cons handle handles =>
      cases components with
      | nil => cases hcomponents
      | cons component components =>
        obtain ⟨algId, ct⟩ := component
        rw [List.zip_cons_cons, List.zip_cons_cons, decapsulateAll] at h
        by_cases hid : s.algorithmId = algId
        · rw [if_neg (not_not.mpr hid)] at h
          obtain ⟨-, rt1, -, h⟩ := Eff.bind_eq_ok.mp h
          obtain ⟨secret, rt2, hsecret, h⟩ := Eff.bind_eq_ok.mp h
          obtain ⟨rest, rt3, hrest, h⟩ := Eff.bind_eq_ok.mp h
          cases h
          have htail := ih (by simpa using hhandles) (by simpa using hcomponents) hrest
          subst hid
          exact Recovered.cons (Prod.mk.inj hsecret).1 htail
        · rw [if_pos hid] at h
          cases h

/-- The root key is HKDF over all secrets, with all components bound into its info. -/
def BoundKey (hkdf : Hkdf) (components : List (PyStr × Bytes)) (secrets : List Bytes)
    (rootKey : Bytes) : Prop :=
  ∃ info, encodeInfo defaultContext components = .ok info ∧
    rootKey = (hkdf info secrets.flatten).val

theorem combine_boundKey {hkdf : Hkdf} {encs : List (PyStr × Encapsulation)}
    {m : CombinedKeyMaterial} (h : combine hkdf encs = .ok m) :
    BoundKey hkdf m.components (encs.map fun e => e.2.sharedSecret) m.rootKey := by
  obtain ⟨info, hinfo, rfl⟩ := combine_eq_ok h
  exact ⟨info, hinfo, rfl⟩

theorem combineFromSecrets_boundKey {hkdf : Hkdf} {secrets components : List (PyStr × Bytes)}
    {m : CombinedKeyMaterial} (h : combineFromSecrets hkdf secrets components = .ok m) :
    BoundKey hkdf components (secrets.map Prod.snd) m.rootKey := by
  unfold combineFromSecrets at h
  dsimp only at h
  by_cases hids : secrets.map Prod.fst = components.map Prod.fst
  · rw [if_neg (not_not.mpr hids)] at h
    obtain ⟨info, hinfo, h⟩ := bind_eq_ok.mp h
    cases h
    exact ⟨info, hinfo, rfl⟩
  · rw [if_pos hids] at h
    cases h

/-- A returning `derive_root_key` has used every source of the profile once, in its order. -/
theorem deriveRootKey_allSources {env : Env H} {bundle : PublicBundle} {rt rt' : Runtime}
    {d : DerivedRoot} (h : (deriveRootKey env bundle).run rt = (.ok d, rt')) :
    ∃ profile encs, env.profiles.lookup bundle.profileId = some profile ∧
      Encapsulated profile.sources bundle.publicKeys rt.entropy encs ∧
      d.header.components = encs.map (fun e => (e.1, e.2.ciphertext)) ∧
      BoundKey env.hkdf d.header.components (encs.map fun e => e.2.sharedSecret) d.rootKey := by
  obtain ⟨profile, encs, nonce, hd⟩ := deriveRootKey_eq_ok h
  obtain ⟨rt1, hencs⟩ := hd.encapsulated
  have hkey := combine_boundKey hd.combined
  exact ⟨profile, encs, hd.registered, encapsulateAll_eq_ok hd.count hencs, hd.components, hkey⟩

/-- So has a returning `_recover_root_key_internal`. -/
theorem recoverRootKeyInternal_allSources {env : Env H} {handles : List H}
    {header : CryptoflexHeader} {profile : SecurityProfile H} {rt rt' : Runtime} {rootKey : Bytes}
    (h : (recoverRootKeyInternal env handles header profile).run rt = (.ok rootKey, rt')) :
    ∃ secrets, Recovered profile.sources handles header.components secrets ∧
      BoundKey env.hkdf header.components secrets rootKey := by
  unfold recoverRootKeyInternal at h
  by_cases hcount : profile.sources.length = handles.length ∧
    handles.length = header.components.length
  · rw [if_neg (not_not.mpr hcount)] at h
    obtain ⟨secrets, rt1, hsecrets, h⟩ := Eff.bind_eq_ok.mp h
    obtain ⟨combined, rt2, hc, h⟩ := Eff.bind_eq_ok.mp h
    cases h
    exact ⟨secrets.map Prod.snd, decapsulateAll_eq_ok hcount.1 hcount.2 hsecrets,
      combineFromSecrets_boundKey (Prod.mk.inj hc).1⟩
  · rw [if_pos hcount] at h
    cases h

/-- A header whose ids are not exactly the profile's is refused. -/
theorem recoverRootKeyInternal_refuses {header : CryptoflexHeader} {profile : SecurityProfile H}
    (hids : header.components.map Prod.fst ≠ profile.sources.map (·.algorithmId)) (env : Env H)
    (handles : List H) (rt : Runtime) :
    ∃ e rt', (recoverRootKeyInternal env handles header profile).run rt = (.error e, rt') := by
  rcases hrun : (recoverRootKeyInternal env handles header profile).run rt with ⟨_ | rootKey, rt'⟩
  · exact ⟨_, _, rfl⟩
  · obtain ⟨secrets, hrec, -⟩ := recoverRootKeyInternal_allSources hrun
    exact absurd hrec.ids.1 hids

/-- No key comes from a part, a repetition or a reordering of a profile's sources, on either side,
and the two sides agree. -/
theorem rootKey_allSources {H : Type} (env : Env H) :
    (∀ bundle rt rt' d, (deriveRootKey env bundle).run rt = (.ok d, rt') →
      ∃ profile encs, env.profiles.lookup bundle.profileId = some profile ∧
        bundle.publicKeys.map Prod.fst = profile.sources.map (·.algorithmId) ∧
        Encapsulated profile.sources bundle.publicKeys rt.entropy encs ∧
        d.header.components = encs.map (fun e => (e.1, e.2.ciphertext)) ∧
        BoundKey env.hkdf d.header.components (encs.map fun e => e.2.sharedSecret) d.rootKey) ∧
    (∀ handles header profile rt rt' rootKey,
      (recoverRootKeyInternal env handles header profile).run rt = (.ok rootKey, rt') →
      header.components.map Prod.fst = profile.sources.map (·.algorithmId) ∧
        handles.length = profile.sources.length ∧
        ∃ secrets, Recovered profile.sources handles header.components secrets ∧
          BoundKey env.hkdf header.components secrets rootKey) ∧
    (∀ handles (header : CryptoflexHeader) (profile : SecurityProfile H) rt,
      header.components.map Prod.fst ≠ profile.sources.map (·.algorithmId) →
      ∃ e rt', (recoverRootKeyInternal env handles header profile).run rt = (.error e, rt')) ∧
    ((∀ id p, env.profiles.lookup id = some p → p.profileId = id ∧ ∀ s ∈ p.sources, s.Correct) →
      ∀ engine constraint requireQs rt₀ rt₀' keyset,
        (establishKeys env engine constraint requireQs).run rt₀ = (.ok keyset, rt₀') →
      ∀ rt₁ rt₁' d, (deriveRootKey env keyset.publicBundle).run rt₁ = (.ok d, rt₁') →
        env.profiles.lookup d.header.profileId = some keyset.profile ∧
          ∀ rt₂, ((recoverRootKeyInternal env keyset.privateHandles d.header keyset.profile).run
            rt₂).1 = .ok d.rootKey) := by
  refine ⟨?_, ?_, ?_, ?_⟩
  · intro bundle rt rt' d h
    obtain ⟨profile, encs, hreg, hencs, hcomponents, hkey⟩ := deriveRootKey_allSources h
    exact ⟨profile, encs, hreg, hencs.ids.1, hencs, hcomponents, hkey⟩
  · intro handles header profile rt rt' rootKey h
    obtain ⟨secrets, hrec, hkey⟩ := recoverRootKeyInternal_allSources h
    exact ⟨hrec.ids.1, hrec.ids.2, secrets, hrec, hkey⟩
  · intro handles header profile rt hids
    exact recoverRootKeyInternal_refuses hids env handles rt
  · intro hprofiles engine constraint requireQs rt₀ rt₀' keyset hkeys rt₁ rt₁' d hd
    obtain ⟨hreg, hm⟩ := establishKeys_keyed (fun id p h => (hprofiles id p h).1)
      (fun id p h => (hprofiles id p h).2) hkeys
    obtain ⟨profile, encs, nonce, hderived⟩ := deriveRootKey_eq_ok hd
    obtain rfl := hderived.profile_eq hreg
    have hid : d.header.profileId = keyset.publicBundle.profileId := by rw [hderived.header]
    exact ⟨by rw [hid]; exact hreg, recoverRootKeyInternal_of_derive hm hderived⟩

theorem rootKey_allSources_zero : ∃ keyset d,
    ((establishKeys (xorEnv zeroTagAead) ⟨PolicyEngine.deprecatedMlkemTable⟩ .balanced false).run
      zeroRuntime).1 = .ok keyset ∧
    ((deriveRootKey (xorEnv zeroTagAead) keyset.publicBundle).run zeroRuntime).1 = .ok d ∧
    ∀ rt, ((recoverRootKeyInternal (xorEnv zeroTagAead) keyset.privateHandles d.header
      keyset.profile).run rt).1 = .ok d.rootKey := by
  obtain ⟨keyset, rt, hkeys, hbundle, -⟩ := establishKeys_zeroKeyset
  have hd := deriveRootKey_zero zeroTagAead
  rw [← hbundle] at hd
  have hprofiles : ∀ id p, (xorEnv zeroTagAead).profiles.lookup id = some p →
      p.profileId = id ∧ ∀ s ∈ p.sources, s.Correct := by
    intro id p h
    exact ⟨(profileRegistry_wellFormed xorX25519 xorOqs).keyed id p h,
      profileRegistry_xor_correct id p h⟩
  have hrecover := (rootKey_allSources (xorEnv zeroTagAead)).2.2.2 hprofiles _ _ _ _ _ _ hkeys
    zeroRuntime _ _ (Prod.ext hd rfl)
  exact ⟨keyset, _, by rw [hkeys], hd, hrecover.2⟩

end CryptoFlex
