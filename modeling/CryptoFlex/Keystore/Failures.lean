import CryptoFlex.Keystore.Import

namespace CryptoFlex

open Lib

variable {H : Type}

/-- A `DecryptionError` proper. -/
def IsDecryptionError (e : Exc) : Prop := ∃ m, e = .decryptionError m

/-- The dictionary names a profile that is registered. -/
def NamesProfile (env : Env H) (o : JsonObject) (id : PyStr) (profile : SecurityProfile H) : Prop :=
  Json.field o "profile_id" = some (.str id) ∧ id ≠ .text "" ∧
    env.profiles.lookup id = some profile

/-- The payloads whose reading raises something else: no dictionary at all, or one that names a
registered profile and has no public bundle. -/
def Mishandled (env : Env H) : Json → Prop
  | .obj o => Json.field o "public_bundle" = none ∧ ∃ id profile, NamesProfile env o id profile
  | _ => True

section Payload

variable {env : Env H}

theorem mapError_raises {α : Type} {x : Except Exc α} {f : Exc → String} {e : Exc}
    (h : (x.mapError fun e => Exc.decryptionError (f e)) = .error e) : IsDecryptionError e := by
  cases x with
  | ok a => cases h
  | error e' =>
    cases h
    exact ⟨_, rfl⟩

theorem Json.getItem_some {o : JsonObject} {key : PyStr} {value : Json}
    (h : field o key = some value) : (obj o).getItem key = .ok value := by
  simp only [getItem, h]

theorem Json.getItem_none {o : JsonObject} {key : PyStr} (h : field o key = none) :
    (obj o).getItem key = .error .keyError := by
  simp only [getItem, h]

theorem importProfile_cases (env : Env H) (o : JsonObject) :
    (∃ id profile, importProfile env (.obj o) = .ok (id, profile) ∧
      NamesProfile env o id profile) ∨
    ∃ e, importProfile env (.obj o) = .error e ∧ IsDecryptionError e ∧
      ∀ id profile, ¬NamesProfile env o id profile := by
  unfold importProfile NamesProfile
  cases hfield : Json.field o "profile_id" with
  | none =>
    rw [Json.getItem_none hfield]
    exact Or.inr ⟨_, rfl, ⟨_, rfl⟩, by simp⟩
  | some value =>
    rw [Json.getItem_some hfield, ok_bind]
    cases value with
    | str id =>
      by_cases hempty : id.isEmpty = true
      · right
        rw [PyStr.isEmpty_iff] at hempty
        subst hempty
        refine ⟨_, rfl, ⟨_, rfl⟩, ?_⟩
        rintro id profile ⟨heq, hne, -⟩
        cases heq
        exact hne rfl
      have hne : id ≠ .text "" := fun h => hempty (PyStr.isEmpty_iff.mpr h)
      dsimp only
      rw [if_neg hempty]
      cases hget : getProfile env.profiles id with
      | ok profile =>
        left
        exact ⟨id, profile, rfl, rfl, hne, getProfile_eq_ok.mp hget⟩
      | error e =>
        obtain ⟨hnone, m, rfl⟩ := getProfile_error hget
        right
        refine ⟨_, rfl, ⟨_, rfl⟩, ?_⟩
        rintro id' profile ⟨heq, -, hlookup⟩
        cases heq
        rw [hnone] at hlookup
        cases hlookup
    | null => exact Or.inr ⟨_, rfl, ⟨_, rfl⟩, by simp⟩
    | bool b => exact Or.inr ⟨_, rfl, ⟨_, rfl⟩, by simp⟩
    | num token => exact Or.inr ⟨_, rfl, ⟨_, rfl⟩, by simp⟩
    | arr items => exact Or.inr ⟨_, rfl, ⟨_, rfl⟩, by simp⟩
    | obj members => exact Or.inr ⟨_, rfl, ⟨_, rfl⟩, by simp⟩

theorem importProfile_eq_ok {o : JsonObject} {id : PyStr} {profile : SecurityProfile H} :
    importProfile env (.obj o) = .ok (id, profile) ↔ NamesProfile env o id profile := by
  rcases importProfile_cases env o with ⟨id', profile', hrun, hnames⟩ | ⟨e, hrun, -, hnot⟩
  · rw [hrun]
    constructor
    · intro h
      cases h
      exact hnames
    · rintro ⟨hfield, hne, hlookup⟩
      obtain ⟨hfield', -, hlookup'⟩ := hnames
      rw [hfield] at hfield'
      cases hfield'
      rw [hlookup] at hlookup'
      cases hlookup'
      rfl
  · rw [hrun]
    exact ⟨nofun, fun h => absurd h (hnot id profile)⟩

theorem importProfile_raises {o : JsonObject} {e : Exc}
    (h : importProfile env (.obj o) = .error e) : IsDecryptionError e := by
  rcases importProfile_cases env o with ⟨id, profile, hrun, -⟩ | ⟨e', hrun, he, -⟩
  · rw [hrun] at h
    cases h
  · rw [hrun] at h
    cases h
    exact he

theorem deserializePublicBundle_raises {s : PyStr} {e : Exc}
    (h : deserializePublicBundle s = .error e) : IsDecryptionError e := mapError_raises h

theorem checkBinding_raises {id : PyStr} {bundle : PublicBundle} {profile : SecurityProfile H}
    {e : Exc} (h : checkBinding id bundle profile = .error e) : IsDecryptionError e := by
  unfold checkBinding at h
  split at h
  · cases h
    exact ⟨_, rfl⟩
  split at h <;> cases h
  exact ⟨_, rfl⟩

theorem checkCounts_raises {profile : SecurityProfile H} {items : List Json}
    {bundle : PublicBundle} {e : Exc} (h : checkCounts profile items bundle = .error e) :
    IsDecryptionError e := by
  unfold checkCounts at h
  split at h
  · cases h
    exact ⟨_, rfl⟩
  split at h <;> cases h
  exact ⟨_, rfl⟩

theorem importHandle_raises {source : Source H} {item : Json} {bundleAlgId : PyStr} {e : Exc}
    (h : importHandle source item bundleAlgId = .error e) : IsDecryptionError e := by
  unfold importHandle at h
  split at h
  · split at h
    · split at h
      · cases h
        exact ⟨_, rfl⟩
      split at h
      · cases h
        exact ⟨_, rfl⟩
      split at h
      · exact mapError_raises h
      · cases h
        exact ⟨_, rfl⟩
    · cases h
      exact ⟨_, rfl⟩
  · cases h
    exact ⟨_, rfl⟩

theorem importHandles_raises {l : List (Source H × Json × PyStr × Bytes)} {e : Exc}
    (h : importHandles l = .error e) : IsDecryptionError e := by
  induction l with
  | nil => cases h
  | cons entry rest ih =>
    rcases bind_eq_error.mp h with hhead | ⟨privHandle, -, h⟩
    · exact importHandle_raises hhead
    rcases bind_eq_error.mp h with hrest | ⟨privateHandles, -, h⟩
    · exact ih hrest
    · cases h

/-- Behind the checked profile and a public bundle that is there, every failure is caught. -/
theorem importPayload_raises {o : JsonObject} (hm : ¬Mishandled env (.obj o)) {e : Exc}
    (h : importPayload env (.obj o) = .error e) : IsDecryptionError e := by
  rcases bind_eq_error.mp h with hprofile | ⟨⟨id, profile⟩, hprofile, h⟩
  · exact importProfile_raises hprofile
  have hnames := importProfile_eq_ok.mp hprofile
  rcases bind_eq_error.mp h with hbundle | ⟨publicBundle, -, h⟩
  · cases hfield : Json.field o "public_bundle" with
    | none => exact absurd ⟨hfield, id, profile, hnames⟩ hm
    | some value =>
      rw [Json.getItem_some hfield] at hbundle
      cases hbundle
  rcases bind_eq_error.mp h with hbundle | ⟨bundle, -, h⟩
  · exact deserializePublicBundle_raises hbundle
  rcases bind_eq_error.mp h with hbinding | ⟨-, -, h⟩
  · exact checkBinding_raises hbinding
  rcases bind_eq_error.mp h with hitems | ⟨items, -, h⟩
  · cases hitems
  split at h
  · next items =>
    rcases bind_eq_error.mp h with hcounts | ⟨-, -, h⟩
    · exact checkCounts_raises hcounts
    rcases bind_eq_error.mp h with hhandles | ⟨handles, -, h⟩
    · exact importHandles_raises hhandles
    · cases h
  · cases h
    exact ⟨_, rfl⟩

/-- The failure of a mishandled payload is a `TypeError` or a `KeyError`. -/
theorem importPayload_of_mishandled {payload : Json} (hm : Mishandled env payload) :
    importPayload env payload = .error .typeError ∨ importPayload env payload = .error .keyError := by
  cases payload with
  | obj o =>
    obtain ⟨hnone, id, profile, hnames⟩ := hm
    right
    rw [importPayload, importProfile_eq_ok.mpr hnames, ok_bind, Json.getItem_none hnone]
    rfl
  | null => exact Or.inl rfl
  | bool b => exact Or.inl rfl
  | num token => exact Or.inl rfl
  | str s => exact Or.inl rfl
  | arr items => exact Or.inl rfl

end Payload

/-- Opening a keystore fails with a `DecryptionError`, where the derivation does not raise. -/
theorem openKeystore_raises {env : Env H} {kdf : PasswordKdf} {data pw : Bytes}
    (hkdf : kdf.Returns pw) {e : Exc} (h : openKeystore env kdf data pw = .error e) :
    IsDecryptionError e := by
  unfold openKeystore at h
  split at h
  · cases h
    exact ⟨_, rfl⟩
  split at h
  · cases h
    exact ⟨_, rfl⟩
  rcases bind_eq_error.mp h with hmagic | ⟨kdfType, hmagic, h⟩
  · rcases kdfTypeOf_cases (data.take 4) with ⟨-, hok⟩ | ⟨-, hok⟩ | ⟨m, hraise⟩
    · rw [hok] at hmagic
      cases hmagic
    · rw [hok] at hmagic
      cases hmagic
    · rw [hraise] at hmagic
      cases hmagic
      exact ⟨m, rfl⟩
  rcases bind_eq_error.mp h with hkey | ⟨key, -, h⟩
  · obtain ⟨key, hok⟩ := hkdf.derive hmagic (slice data 4 (4 + saltLen))
    rw [hok] at hkey
    cases hkey
  · exact mapError_raises h

/-- Import fails with nothing but a `DecryptionError` exactly when no mishandled payload is sealed
in the keystore. -/
theorem importKeysetBytes_decryptionError_iff (env : Env H) (kdf : PasswordKdf) (data : Bytes)
    (password : Password) (pw : Bytes) (hpw : password.encode = .ok pw) (hne : pw ≠ [])
    (hkdf : kdf.Returns pw) (rt : Runtime) (hp : rt.kdfPermits ≠ 0) :
    (∀ e rt', (importKeysetBytes env kdf data password).run rt = (.error e, rt') →
      IsDecryptionError e) ↔
    ∀ payload, SealedPayload env kdf pw data payload → ¬Mishandled env payload := by
  have hrun := importKeysetBytes_outcome env kdf data hpw hne hp
  constructor
  · intro h payload hsealed hm
    rw [openKeystore_eq_ok.mpr hsealed, ok_bind] at hrun
    rcases importPayload_of_mishandled hm with hraise | hraise <;> rw [hraise] at hrun <;>
      obtain ⟨m, hm'⟩ := h _ _ (Prod.ext hrun rfl) <;> cases hm'
  · intro h e rt' herror
    rw [herror] at hrun
    rcases bind_eq_error.mp hrun.symm with hopen | ⟨payload, hopen, himport⟩
    · exact openKeystore_raises hkdf hopen
    have hm := h payload (openKeystore_eq_ok.mp hopen)
    cases payload with
    | obj o => exact importPayload_raises hm himport
    | null => exact absurd trivial hm
    | bool b => exact absurd trivial hm
    | num token => exact absurd trivial hm
    | str s => exact absurd trivial hm
    | arr items => exact absurd trivial hm

/-- The password and the salt, brought to the length of the key. -/
def padKey (salt password : Bytes) (length : Nat) : KeyOfLength length :=
  ⟨(password ++ salt ++ List.replicate length 0).take length, by
    apply List.length_take_of_le
    simp only [List.length_append, List.length_replicate]
    omega⟩

def padKdf : PasswordKdf where
  argon2id salt length _ _ _ password := .ok (padKey salt password length)
  scrypt salt length _ _ _ password := .ok (padKey salt password length)

theorem padKdf_returns (pw : Bytes) : padKdf.Returns pw := fun _ => ⟨⟨_, rfl⟩, ⟨_, rfl⟩⟩

/-- The keystore of a plaintext under `zeroTagAead`, with a salt and a nonce of zeros. -/
def zeroKeystore (plaintext : Bytes) : Bytes :=
  magicKeystoreArgon2 ++ List.replicate saltLen 0 ++ List.replicate nonceLen 0 ++
    (plaintext ++ List.replicate 16 0)

theorem zeroKeystore_sealed {plaintext : Bytes} {payload : Json}
    (hsize : (zeroKeystore plaintext).length ≤ maxKeystoreSize)
    (hparse : parsePayload plaintext = .ok payload) (pw : Bytes) :
    SealedPayload (xorEnv zeroTagAead) padKdf pw (zeroKeystore plaintext) payload := by
  let key := padKey (List.replicate saltLen 0) pw keyLen
  have hinit : zeroTagAead.init key.val = .ok () := zeroTagAead_correct.init_ok _ key.property
  refine ⟨hsize, _, _, _, _, .argon2id, key, plaintext, rfl, by simp, by simp, rfl, rfl, hinit, ?_,
    hparse⟩
  simp [xorEnv, builtinEnv, zeroTagAead]

/-- The UTF-8 bytes of "[]". -/
def emptyArrayText : Bytes := [0x5B, 0x5D]

/-- The UTF-8 bytes of an empty object. -/
def emptyObjectText : Bytes := [0x7B, 0x7D]

/-- An authentic payload that is no dictionary: a `TypeError` escapes. -/
theorem importKeysetBytes_emptyArray : ∃ rt',
    (importKeysetBytes (xorEnv zeroTagAead) padKdf (zeroKeystore emptyArrayText)
      (.bytes [0x70])).run zeroRuntime = (.error .typeError, rt') ∧
    ¬IsDecryptionError .typeError := by
  have hparse : parsePayload emptyArrayText = .ok (.arr []) := rfl
  have hsealed := zeroKeystore_sealed (by decide) hparse [0x70]
  have hpw : (Password.bytes [0x70]).encode = .ok [0x70] := rfl
  have hp : zeroRuntime.kdfPermits ≠ 0 := by decide
  have hrun := importKeysetBytes_outcome (xorEnv zeroTagAead) padKdf
    (zeroKeystore emptyArrayText) hpw (by simp) hp
  rw [openKeystore_eq_ok.mpr hsealed] at hrun
  exact ⟨_, Prod.ext hrun rfl, fun ⟨m, hm⟩ => by cases hm⟩

theorem importKeysetBytes_decryptionError_emptyObject : ∃ e rt',
    (importKeysetBytes (xorEnv zeroTagAead) padKdf (zeroKeystore emptyObjectText)
      (.bytes [0x70])).run zeroRuntime = (.error e, rt') ∧ IsDecryptionError e := by
  have hparse : parsePayload emptyObjectText = .ok (.obj []) := rfl
  have hsealed := zeroKeystore_sealed (by decide) hparse [0x70]
  have hopen := openKeystore_eq_ok.mpr hsealed
  have hpw : (Password.bytes [0x70]).encode = .ok [0x70] := rfl
  have hp : zeroRuntime.kdfPermits ≠ 0 := by decide
  have hrun := importKeysetBytes_outcome (xorEnv zeroTagAead) padKdf
    (zeroKeystore emptyObjectText) hpw (by simp) hp
  rw [hopen] at hrun
  have herror := Prod.ext hrun rfl
  refine ⟨_, _, herror, (importKeysetBytes_decryptionError_iff (xorEnv zeroTagAead) padKdf
    (zeroKeystore emptyObjectText) (.bytes [0x70]) [0x70] hpw (by simp) (padKdf_returns _)
    zeroRuntime hp).mpr ?_ _ _ herror⟩
  intro payload hpayload hm
  have hopen' := openKeystore_eq_ok.mpr hpayload
  rw [hopen] at hopen'
  cases hopen'
  obtain ⟨-, id, profile, hfield, -⟩ := hm
  cases hfield

end CryptoFlex
