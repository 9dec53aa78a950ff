import CryptoFlex.Api.AllSources
import CryptoFlex.Keystore.Reopening

namespace CryptoFlex

open Lib

variable {H : Type}

/-- Each source is named by the private entry and by the public key at its place. -/
inductive Aligned : List (Source H) → List Json → List (PyStr × Bytes) → List H → Prop
  | nil : Aligned [] [] [] []
  | cons {s : Source H} {ss : List (Source H)} {entry : JsonObject} {items : List Json} {pub : Bytes}
    {keys : List (PyStr × Bytes)} {handle : H} {handles : List H}
    (named : Json.field entry "alg_id" = some (.str s.algorithmId))
    (rest : Aligned ss items keys handles) :
    Aligned (s :: ss) (.obj entry :: items) ((s.algorithmId, pub) :: keys) (handle :: handles)

theorem Aligned.handles_length {ss : List (Source H)} {items : List Json}
    {keys : List (PyStr × Bytes)} {handles : List H} (h : Aligned ss items keys handles) :
    handles.length = ss.length := by
  induction h with
  | nil => rfl
  | cons _ _ ih => simp [ih]

theorem Aligned.keyIds {ss : List (Source H)} {items : List Json}
    {keys : List (PyStr × Bytes)} {handles : List H} (h : Aligned ss items keys handles) :
    keys.map Prod.fst = ss.map (·.algorithmId) := by
  induction h with
  | nil => rfl
  | cons _ _ ih => simp [ih]

theorem Aligned.entryIds {ss : List (Source H)} {items : List Json}
    {keys : List (PyStr × Bytes)} {handles : List H} (h : Aligned ss items keys handles)
    {i : Nat} {s : Source H} (hs : ss[i]? = some s) :
    ∃ entry, items[i]? = some (.obj entry) ∧
      Json.field entry "alg_id" = some (.str s.algorithmId) := by
  induction h generalizing i with
  | nil => simp at hs
  | cons named _ ih =>
    cases i with
    | zero =>
      have heq := Option.some.inj hs
      subst heq
      exact ⟨_, rfl, named⟩
    | succ i => exact ih (by simpa using hs)

theorem importHandle_named {source : Source H} {item : Json} {bundleAlgId : PyStr} {handle : H}
    (h : importHandle source item bundleAlgId = .ok handle) :
    bundleAlgId = source.algorithmId ∧ ∃ entry, item = .obj entry ∧
      Json.field entry "alg_id" = some (.str source.algorithmId) := by
  unfold importHandle at h
  split at h
  next entry =>
    split at h
    next algId hfield =>
      split at h
      · cases h
      next hid =>
      split at h
      · cases h
      next hbundle =>
      have hentry : Json.field entry "alg_id" = some (.str source.algorithmId) := by
        rw [hfield, not_not.mp hid]
      exact ⟨(not_not.mp hbundle).symm, entry, rfl, hentry⟩
    next => cases h
  next => cases h

/-- The import loop goes through all three lists, where they are of one length. -/
theorem importHandles_aligned {ss : List (Source H)} {items : List Json}
    {keys : List (PyStr × Bytes)} (hitems : ss.length = items.length)
    (hkeys : ss.length = keys.length) {handles : List H}
    (h : importHandles (ss.zip (items.zip keys)) = .ok handles) :
    Aligned ss items keys handles := by
  induction ss generalizing items keys handles with
  | nil =>
    have hnoItems : items = [] := List.length_eq_zero_iff.mp hitems.symm
    have hnoKeys : keys = [] := List.length_eq_zero_iff.mp hkeys.symm
    subst hnoItems hnoKeys
    cases h
    exact Aligned.nil
  | cons s ss ih =>
    cases items with
    | nil => cases hitems
    | cons item items =>
    cases keys with
    | nil => cases hkeys
    | cons key keys =>
    obtain ⟨bundleAlgId, pub⟩ := key
    rw [List.zip_cons_cons, List.zip_cons_cons, importHandles] at h
    obtain ⟨handle, hhead, h⟩ := bind_eq_ok.mp h
    obtain ⟨handles', htail, h⟩ := bind_eq_ok.mp h
    cases h
    have hrest := ih (Nat.succ.inj hitems) (Nat.succ.inj hkeys) htail
    obtain ⟨hid, entry, hitem, hfield⟩ := importHandle_named hhead
    subst hid hitem
    exact Aligned.cons hfield hrest

/-- The keyset is the one that the payload `o` describes, member by member: `id` is its profile id
and `items` its private entries. -/
structure KeySet.ReadFrom (keyset : KeySet H) (env : Env H) (o : JsonObject) (id : PyStr)
    (items : List Json) : Prop where
  named : Json.field o "profile_id" = some (.str id)
  nonempty : id ≠ .text ""
  registered : env.profiles.lookup id = some keyset.profile
  own : keyset.profile.profileId = id
  bundleId : keyset.publicBundle.profileId = id
  entries : (Json.field o "private_handles").getD (.arr []) = .arr items
  keyCount : keyset.publicBundle.publicKeys.length = keyset.profile.sources.length
  entryCount : items.length = keyset.profile.sources.length
  handleCount : keyset.privateHandles.length = keyset.profile.sources.length
  keyIds : ∀ (i : Nat) (s : Source H), keyset.profile.sources[i]? = some s →
    ∃ pub, keyset.publicBundle.publicKeys[i]? = some (s.algorithmId, pub)
  entryIds : ∀ (i : Nat) (s : Source H), keyset.profile.sources[i]? = some s →
    ∃ entry, items[i]? = some (Json.obj entry) ∧
      Json.field entry "alg_id" = some (.str s.algorithmId)

/-- A list of pairs with the ids of the sources has a pair of the right id at each place. -/
theorem getElem?_of_ids {α : Type} {ss : List (Source H)} {pairs : List (PyStr × α)}
    (hids : pairs.map Prod.fst = ss.map (·.algorithmId)) {i : Nat} {s : Source H}
    (hs : ss[i]? = some s) : ∃ a, pairs[i]? = some (s.algorithmId, a) := by
  have hi : (pairs.map Prod.fst)[i]? = some s.algorithmId := by
    rw [hids, List.getElem?_map, hs]
    rfl
  rw [List.getElem?_map] at hi
  cases hp : pairs[i]? with
  | none => simp [hp] at hi
  | some p =>
    simp only [hp, Option.map_some, Option.some.injEq] at hi
    exact ⟨p.2, by rw [← hi]⟩

theorem importPayload_readFrom {env : Env H} {payload : Json} {k : KeySet H}
    (h : importPayload env payload = .ok k) :
    ∃ o id items, payload = .obj o ∧ k.ReadFrom env o id items := by
  cases payload with
  | obj o =>
    unfold importPayload at h
    obtain ⟨⟨id, profile⟩, hprofile, h⟩ := bind_eq_ok.mp h
    obtain ⟨publicBundle, -, h⟩ := bind_eq_ok.mp h
    obtain ⟨bundle, -, h⟩ := bind_eq_ok.mp h
    obtain ⟨⟨⟩, hbinding, h⟩ := bind_eq_ok.mp h
    obtain ⟨value, hvalue, h⟩ := bind_eq_ok.mp h
    obtain ⟨hfield, hne, hlookup⟩ := importProfile_eq_ok.mp hprofile
    obtain ⟨hbundle, hown⟩ := checkBinding_eq_ok.mp hbinding
    have hentries : (Json.field o "private_handles").getD (.arr []) = value :=
      Except.ok.inj hvalue
    cases value with
    | arr items =>
      obtain ⟨⟨⟩, hcounts, h⟩ := bind_eq_ok.mp h
      obtain ⟨handles, hhandles, h⟩ := bind_eq_ok.mp h
      cases h
      obtain ⟨hitems, hkeys⟩ := checkCounts_eq_ok.mp hcounts
      have haligned := importHandles_aligned hitems hkeys hhandles
      exact ⟨o, id, items, rfl, {
        named := hfield
        nonempty := hne
        registered := hlookup
        own := hown
        bundleId := hbundle
        entries := hentries
        keyCount := hkeys.symm
        entryCount := hitems.symm
        handleCount := haligned.handles_length
        keyIds := fun i s hs => getElem?_of_ids haligned.keyIds hs
        entryIds := fun i s hs => haligned.entryIds hs }⟩
    | null => cases h
    | bool b => cases h
    | num token => cases h
    | str s => cases h
    | obj members => cases h
  | null => cases h
  | bool b => cases h
  | num token => cases h
  | str s => cases h
  | arr items => cases h

/-- The encapsulation loop without the comparison of ids. -/
def encapsulateEach : List (Source H × PyStr × Bytes) →
    Eff Exc Runtime (List (PyStr × Encapsulation))
  | [] => return []
  | (source, algId, pubKey) :: rest => do
    Runtime.record (.encapsulate algId)
    let enc ← Runtime.sample (source.encapsulate pubKey)
    let encapsulations ← encapsulateEach rest
    return (algId, enc) :: encapsulations

/-- `derive_root_key` for a given profile, without the structural checks. -/
def deriveUnchecked (env : Env H) (profile : SecurityProfile H) (bundle : PublicBundle) :
    Eff Exc Runtime DerivedRoot := do
  let encapsulations ← encapsulateEach (profile.sources.zip bundle.publicKeys)
  let combined ← Eff.lift (combine env.hkdf encapsulations)
  let nonce ← Runtime.sample (urandom nonceLen)
  let header : CryptoflexHeader :=
    { profileId := bundle.profileId, components := combined.components, nonce := some nonce }
  return { rootKey := combined.rootKey, header }

/-- The decapsulation loop without the comparison of ids. -/
def decapsulateEach : List (Source H × H × PyStr × Bytes) →
    Eff Exc Runtime (List (PyStr × Bytes))
  | [] => return []
  | (source, privHandle, algId, ciphertext) :: rest => do
    Runtime.record (.decapsulate algId)
    let secret ← Eff.lift (source.decapsulate privHandle ciphertext)
    let sharedSecrets ← decapsulateEach rest
    return (algId, secret) :: sharedSecrets

/-- `_recover_root_key_internal` without the structural checks. -/
def recoverUnchecked (env : Env H) (privateHandles : List H) (header : CryptoflexHeader)
    (profile : SecurityProfile H) : Eff Exc Runtime Bytes := do
  let sharedSecrets ←
    decapsulateEach (profile.sources.zip (privateHandles.zip header.components))
  let combined ← Eff.lift (combineFromSecrets env.hkdf sharedSecrets header.components)
  return combined.rootKey

theorem encapsulateAll_of_ids {l : List (Source H × PyStr × Bytes)}
    (h : ∀ e ∈ l, e.1.algorithmId = e.2.1) : encapsulateAll l = encapsulateEach l := by
  induction l with
  | nil => rfl
  | cons entry l ih =>
    obtain ⟨source, algId, pubKey⟩ := entry
    have hid : source.algorithmId = algId := h _ List.mem_cons_self
    have hrest := ih fun e he => h e (List.mem_cons_of_mem _ he)
    rw [encapsulateAll, if_neg (not_not.mpr hid), encapsulateEach, hrest]

theorem decapsulateAll_of_ids {l : List (Source H × H × PyStr × Bytes)}
    (h : ∀ e ∈ l, e.1.algorithmId = e.2.2.1) : decapsulateAll l = decapsulateEach l := by
  induction l with
  | nil => rfl
  | cons entry l ih =>
    obtain ⟨source, privHandle, algId, ciphertext⟩ := entry
    have hid : source.algorithmId = algId := h _ List.mem_cons_self
    have hrest := ih fun e he => h e (List.mem_cons_of_mem _ he)
    rw [decapsulateAll, if_neg (not_not.mpr hid), decapsulateEach, hrest]

/-- A source and the pair zipped to it, by their common place. -/
theorem getElem?_of_mem_zip {α β : Type} {as : List α} {bs : List β} {e : α × β}
    (h : e ∈ as.zip bs) : ∃ i : Nat, as[i]? = some e.1 ∧ bs[i]? = some e.2 := by
  obtain ⟨i, hi⟩ := List.mem_iff_getElem?.mp h
  exact ⟨i, List.getElem?_zip_eq_some.mp hi⟩

variable {env : Env H} {keyset : KeySet H} {o : JsonObject} {id : PyStr} {items : List Json}

theorem KeySet.ReadFrom.getProfile (h : keyset.ReadFrom env o id items) :
    getProfile env.profiles keyset.publicBundle.profileId = .ok keyset.profile := by
  rw [h.bundleId]
  exact getProfile_eq_ok.mpr h.registered

theorem KeySet.ReadFrom.checkExport (h : keyset.ReadFrom env o id items) :
    checkExport keyset = .ok () := by
  have hid : keyset.profile.profileId = keyset.publicBundle.profileId := by
    rw [h.own, h.bundleId]
  exact checkExport_eq_ok.mpr ⟨hid, h.keyCount.symm, h.handleCount.symm⟩

/-- No check of `derive_root_key` is missed. -/
theorem KeySet.ReadFrom.derive (h : keyset.ReadFrom env o id items) (rt : Runtime) :
    (deriveRootKey env keyset.publicBundle).run rt =
      (deriveUnchecked env keyset.profile keyset.publicBundle).run rt := by
  have hids : ∀ e ∈ keyset.profile.sources.zip keyset.publicBundle.publicKeys,
      e.1.algorithmId = e.2.1 := by
    intro e he
    obtain ⟨i, hs, hkey⟩ := getElem?_of_mem_zip he
    obtain ⟨pub, hpub⟩ := h.keyIds i e.1 hs
    rw [hpub] at hkey
    have heq := Option.some.inj hkey
    rw [← heq]
  have hcount : ¬keyset.profile.sources.length ≠ keyset.publicBundle.publicKeys.length :=
    not_not.mpr h.keyCount.symm
  unfold deriveRootKey
  rw [h.getProfile, Eff.run_lift_ok_bind, if_neg hcount, encapsulateAll_of_ids hids]
  rfl

/-- No check of `_recover_root_key_internal` is missed, on a header for the keyset's bundle. -/
theorem KeySet.ReadFrom.recover (h : keyset.ReadFrom env o id items) {rt rt' : Runtime}
    {d : DerivedRoot} (hd : (deriveRootKey env keyset.publicBundle).run rt = (.ok d, rt')) :
    CryptoFlex.getProfile env.profiles d.header.profileId = .ok keyset.profile ∧
      recoverRootKeyInternal env keyset.privateHandles d.header keyset.profile =
        recoverUnchecked env keyset.privateHandles d.header keyset.profile := by
  obtain ⟨profile, encs, nonce, hderived⟩ := deriveRootKey_eq_ok hd
  have hreg : env.profiles.lookup keyset.publicBundle.profileId = some keyset.profile :=
    getProfile_eq_ok.mp h.getProfile
  have hprofile := hderived.profile_eq hreg
  subst hprofile
  have hheader : d.header.profileId = keyset.publicBundle.profileId := by rw [hderived.header]
  have hcomponents : d.header.components.map Prod.fst =
      keyset.profile.sources.map (·.algorithmId) := by
    rw [hderived.components, List.map_map]
    exact hderived.ids
  have hcount : keyset.profile.sources.length = keyset.privateHandles.length ∧
      keyset.privateHandles.length = d.header.components.length := by
    have hlen := congrArg List.length hcomponents
    rw [List.length_map, List.length_map] at hlen
    exact ⟨h.handleCount.symm, h.handleCount.trans hlen.symm⟩
  have hids : ∀ e ∈ keyset.profile.sources.zip (keyset.privateHandles.zip d.header.components),
      e.1.algorithmId = e.2.2.1 := by
    intro e he
    obtain ⟨i, hs, hrest⟩ := getElem?_of_mem_zip he
    obtain ⟨ct, hct⟩ := getElem?_of_ids hcomponents hs
    have hcomponent := (List.getElem?_zip_eq_some.mp hrest).2
    rw [hct] at hcomponent
    have heq := Option.some.inj hcomponent
    rw [← heq]
  refine ⟨by rw [hheader]; exact h.getProfile, ?_⟩
  rw [recoverRootKeyInternal, if_neg (not_not.mpr hcount), decapsulateAll_of_ids hids]
  rfl

/-- A keyset that import returns is well-formed, and no structural check of key derivation, of
export or of key recovery stops on it. -/
theorem importKeysetBytes_wellFormed {H : Type} (env : Env H) (kdf : PasswordKdf) (data : Bytes)
    (password : Password) (rt rt' : Runtime) (keyset : KeySet H)
    (h : (importKeysetBytes env kdf data password).run rt = (.ok keyset, rt')) :
    (∃ pw o id items, password.encode = .ok pw ∧ SealedPayload env kdf pw data (.obj o) ∧
      keyset.ReadFrom env o id items) ∧
    (∀ rt₁, (deriveRootKey env keyset.publicBundle).run rt₁ =
      (deriveUnchecked env keyset.profile keyset.publicBundle).run rt₁) ∧
    checkExport keyset = .ok () ∧
    ∀ rt₁ rt₂ d, (deriveRootKey env keyset.publicBundle).run rt₁ = (.ok d, rt₂) →
      getProfile env.profiles d.header.profileId = .ok keyset.profile ∧
      recoverRootKeyInternal env keyset.privateHandles d.header keyset.profile =
        recoverUnchecked env keyset.privateHandles d.header keyset.profile := by
  obtain ⟨pw, hpw, hne, hp⟩ := importKeysetBytes_needs h
  obtain ⟨payload, hsealed, himport⟩ := (importKeysetBytes_eq_ok hpw hne hp).mp ⟨rt', h⟩
  obtain ⟨o, id, items, hpayload, hread⟩ := importPayload_readFrom himport
  subst hpayload
  exact ⟨⟨pw, o, id, items, hpw, hsealed, hread⟩, hread.derive, hread.checkExport,
    fun rt₁ rt₂ d hd => hread.recover hd⟩

/-- The keyset of zeros, out of its own keystore. -/
theorem importKeysetBytes_wellFormed_zero : ∃ data keyset rt',
    (importKeysetBytes (xorEnv zeroTagAead) padKdf data (.bytes [0x70])).run zeroRuntime =
      (.ok keyset, rt') ∧ checkExport keyset = .ok () := by
  have hconsistent : zeroKeyset.Consistent := ⟨rfl, rfl, rfl⟩
  have hp : zeroRuntime.kdfPermits ≠ 0 := by decide
  obtain ⟨blob, rt, hexport⟩ := exportKeysetBytes_xor hconsistent zeroKeyset_serialized
  obtain ⟨keyset, rt', himport⟩ := zeroKeyset_reopens.imports zeroTagAead_correct hexport hp
  exact ⟨blob, keyset, rt', himport, (importKeysetBytes_wellFormed (xorEnv zeroTagAead) padKdf blob
    (.bytes [0x70]) zeroRuntime rt' keyset himport).2.2.1⟩

end CryptoFlex
