import CryptoFlex.Api.Failures

namespace CryptoFlex

open Lib CryptoflexHeader

variable {H : Type} {env : Env H}

/-- Both profiles are registered and the header's is weaker than the minimum. -/
def Env.Downgrade (env : Env H) (header : CryptoflexHeader) (minProfile : Option PyStr) : Prop :=
  ∃ minId headerProfile minProf, minProfile = some minId ∧
    env.profiles.lookup header.profileId = some headerProfile ∧
    env.profiles.lookup minId = some minProf ∧
    headerProfile.strengthLevel < minProf.strengthLevel

/-- Where a minimum is given, both profiles are registered and the header's is at least as strong. -/
def Env.Meets (env : Env H) (header : CryptoflexHeader) (minProfile : Option PyStr) : Prop :=
  ∀ minId, minProfile = some minId → ∃ headerProfile minProf,
    env.profiles.lookup header.profileId = some headerProfile ∧
    env.profiles.lookup minId = some minProf ∧
    minProf.strengthLevel ≤ headerProfile.strengthLevel

theorem Env.Meets.not_downgrade {header : CryptoflexHeader} {minProfile : Option PyStr}
    (h : env.Meets header minProfile) : ¬env.Downgrade header minProfile := by
  rintro ⟨minId, headerProfile, minProf, hmin, hheader, hprof, hlt⟩
  obtain ⟨headerProfile', minProf', hheader', hprof', hle⟩ := h minId hmin
  cases hheader.symm.trans hheader'
  cases hprof.symm.trans hprof'
  omega

/-- The three outcomes of the check. -/
inductive Checked (env : Env H) (header : CryptoflexHeader) (minProfile : Option PyStr) :
    Except Exc Unit → Prop
  | passed (meets : env.Meets header minProfile) : Checked env header minProfile (.ok ())
  | refused (m : String) (downgrade : env.Downgrade header minProfile) :
    Checked env header minProfile (.error (.downgradeError m))
  | unknown (not : ¬env.Downgrade header minProfile) :
    Checked env header minProfile (.error (.decryptionError "decryption failed"))

theorem checkDowngrade_checked (env : Env H) (header : CryptoflexHeader)
    (minProfile : Option PyStr) :
    Checked env header minProfile (checkDowngrade env header minProfile) := by
  cases minProfile with
  | none => exact Checked.passed fun minId h => by cases h
  | some minId =>
    unfold checkDowngrade
    dsimp only
    split
    · next headerProfile minProf hheader hmin =>
      rw [getProfile_eq_ok] at hheader hmin
      by_cases hlt : headerProfile.strengthLevel < minProf.strengthLevel
      · rw [if_pos hlt]
        exact Checked.refused _ ⟨minId, headerProfile, minProf, rfl, hheader, hmin, hlt⟩
      · rw [if_neg hlt]
        apply Checked.passed
        intro minId' h
        cases h
        exact ⟨headerProfile, minProf, hheader, hmin, by omega⟩
    · next hnone =>
      apply Checked.unknown
      rintro ⟨minId', headerProfile, minProf, h, hheader, hmin, -⟩
      cases h
      exact hnone _ _ (getProfile_eq_ok.mpr hheader) (getProfile_eq_ok.mpr hmin)

/-- What a call that parsed `parsed` makes of its minimum: it raises a downgrade just when the
header is one, it has then left everything as it was, and where it returns the minimum is met. -/
structure Enforced {α : Type} (env : Env H) (parsed : Option CryptoflexHeader)
    (minProfile : Option PyStr) (r : Except Exc α) (untouched : Prop) : Prop where
  raises_iff : (∃ m, r = .error (.downgradeError m)) ↔
    ∃ header, parsed = some header ∧ env.Downgrade header minProfile
  untouched : (∃ m, r = .error (.downgradeError m)) → untouched
  meets : ∀ a, r = .ok a → ∃ header, parsed = some header ∧ env.Meets header minProfile

/-- A call that fails for another reason, on a header that is no downgrade if there is one. -/
theorem Enforced.failed {α : Type} {parsed : Option CryptoflexHeader} {minProfile : Option PyStr}
    (hnot : ∀ header, parsed = some header → ¬env.Downgrade header minProfile) {e : Exc}
    (he : NotDowngrade e) {untouched : Prop} :
    Enforced (α := α) env parsed minProfile (.error e) untouched where
  raises_iff := by
    constructor
    · rintro ⟨m, h⟩
      exact absurd (Except.error.inj h) (he.ne m)
    · rintro ⟨header, h, hdown⟩
      exact absurd hdown (hnot header h)
  untouched := by
    rintro ⟨m, h⟩
    exact absurd (Except.error.inj h) (he.ne m)
  meets := by
    intro a h
    cases h

theorem Enforced.unparsed {α : Type} {minProfile : Option PyStr} {e : Exc} (he : NotDowngrade e)
    {untouched : Prop} : Enforced (α := α) env none minProfile (.error e) untouched :=
  Enforced.failed (fun _ h => by cases h) he

theorem Enforced.mono {α : Type} {parsed : Option CryptoflexHeader} {minProfile : Option PyStr}
    {r : Except Exc α} {untouched untouched' : Prop}
    (h : Enforced env parsed minProfile r untouched) (imp : untouched → untouched') :
    Enforced env parsed minProfile r untouched' :=
  ⟨h.raises_iff, fun hr => imp (h.untouched hr), h.meets⟩

/-- A call that checks its header and then does what raises no downgrade. -/
theorem Enforced.of_check {α σ : Type} {header : CryptoflexHeader} {minProfile : Option PyStr}
    {rest : Eff Exc σ α} (hrest : Eff.Raises NotDowngrade rest) (s : σ) :
    Enforced env (some header) minProfile
      ((Eff.lift (checkDowngrade env header minProfile) >>= fun _ => rest).run s).1
      (((Eff.lift (checkDowngrade env header minProfile) >>= fun _ => rest).run s).2 = s) := by
  have hchecked := checkDowngrade_checked env header minProfile
  revert hchecked
  generalize checkDowngrade env header minProfile = r
  intro hchecked
  cases hchecked with
  | passed hmeets =>
    have hnot := hmeets.not_downgrade
    have hraise : ¬∃ m, (rest.run s).1 = .error (.downgradeError m) := by
      rintro ⟨m, h⟩
      exact absurd rfl ((hrest s _ _ (Prod.ext h rfl)).ne m)
    rw [Eff.run_lift_ok_bind]
    refine ⟨⟨fun h => absurd h hraise, ?_⟩, fun h => absurd h hraise,
      fun a _ => ⟨header, rfl, hmeets⟩⟩
    rintro ⟨header', h, hdown⟩
    cases h
    exact absurd hdown hnot
  | refused m hdown =>
    rw [Eff.run_lift_error_bind]
    refine ⟨⟨fun _ => ⟨header, rfl, hdown⟩, fun _ => ⟨m, rfl⟩⟩, fun _ => rfl, ?_⟩
    intro a h
    cases h
  | unknown hnot =>
    rw [Eff.run_lift_error_bind]
    refine ⟨⟨?_, ?_⟩, fun _ => rfl, ?_⟩
    · rintro ⟨m, h⟩
      cases h
    · rintro ⟨header', h, hdown⟩
      cases h
      exact absurd hdown hnot
    · intro a h
      cases h

/-- What follows a call and raises no downgrade does not change what is enforced. -/
theorem Enforced.bind {α β σ : Type} {parsed : Option CryptoflexHeader}
    {minProfile : Option PyStr} {x : Eff Exc σ α} {f : α → Eff Exc σ β} {s t : σ}
    (h : Enforced env parsed minProfile (x.run s).1 ((x.run s).2 = t))
    (hf : ∀ a, Eff.Raises NotDowngrade (f a)) :
    Enforced env parsed minProfile ((x >>= f).run s).1 (((x >>= f).run s).2 = t) := by
  rcases hx : x.run s with ⟨r, s'⟩
  rw [hx] at h
  cases r with
  | error e =>
    rw [Eff.bind_error hx]
    refine ⟨?_, ?_, ?_⟩
    · rw [← h.raises_iff]
      simp
    · rintro ⟨m, hm⟩
      exact h.untouched ⟨m, by rw [Except.error.inj hm]⟩
    · intro b hb
      cases hb
  | ok a =>
    rw [Eff.bind_ok hx]
    have hraise : ¬∃ m, ((f a).run s').1 = .error (.downgradeError m) := by
      rintro ⟨m, hm⟩
      exact absurd rfl ((hf a s' _ _ (Prod.ext hm rfl)).ne m)
    have hnot : ¬∃ header, parsed = some header ∧ env.Downgrade header minProfile := by
      rw [← h.raises_iff]
      rintro ⟨m, hm⟩
      cases hm
    exact ⟨⟨fun hm => absurd hm hraise, fun hd => absurd hd hnot⟩, fun hm => absurd hm hraise,
      fun b _ => h.meets a rfl⟩

/-- The header at the front of `data`, where it parses. -/
def parsedHeader (data : Bytes) : Option CryptoflexHeader :=
  (fromBytes data).toOption.map Prod.fst

theorem parsedHeader_of_parse {data : Bytes} {msg : String} {r : CryptoflexHeader × Nat}
    (h : parseHeader data msg = .ok r) : parsedHeader data = some r.1 := by
  unfold parseHeader at h
  split at h
  · cases h
  · rw [parsedHeader, h]
    rfl

theorem parsedHeader_of_error {data : Bytes} {msg : String} {e : Exc}
    (h : parseHeader data msg = .error e) : parsedHeader data = none := by
  unfold parseHeader at h
  split at h
  · next m hm =>
    rw [parsedHeader, hm]
    rfl
  · rw [parsedHeader, h]
    rfl

/-- The handler that collapses exceptions makes no downgrade of them. -/
theorem collapsing_raises {α σ : Type} {x : Eff Exc σ α} (hx : Eff.Raises NotDowngrade x) :
    Eff.Raises NotDowngrade (Eff.tryCatch x fun e => Eff.raise e.collapse) := by
  refine Eff.Raises.tryCatch hx ?_
  intro e he
  apply Eff.Raises.raise
  unfold NotDowngrade
  rw [Exc.collapse_isDowngradeError]
  exact he

theorem decrypt_enforced (hs : env.DecapsulateRaises NotDowngrade)
    (ha : env.aead.DecryptRaises NotDowngrade) (handles : List H) (blob : Bytes)
    (minProfile : Option PyStr) (rt : Runtime) :
    Enforced env (parsedHeader blob) minProfile ((decrypt env handles blob minProfile).run rt).1
      (((decrypt env handles blob minProfile).run rt).2 = rt) := by
  unfold decrypt
  cases hparse : parseHeader blob "decryption failed" with
  | error e =>
    rw [Eff.run_lift_error_bind, parsedHeader_of_error hparse, parseHeader_raises hparse]
    have hfailed : NotDowngrade (.decryptionError "decryption failed") := rfl
    exact Enforced.unparsed hfailed
  | ok parsed =>
    rw [Eff.run_lift_ok_bind, parsedHeader_of_parse hparse]
    apply Enforced.of_check
    split
    · exact Eff.Raises.raise rfl
    · next nonce _ =>
      exact collapsing_raises
        (openBlob_raises notDowngrade_covers hs ha handles blob parsed.1 parsed.2 nonce)

theorem migrate_enforced (hs : env.DecapsulateRaises NotDowngrade)
    (hs' : env.EncapsulateRaises NotDowngrade) (ha : env.aead.DecryptRaises NotDowngrade)
    (ha' : env.aead.EncryptRaises NotDowngrade) (handles : List H) (blob : Bytes)
    (bundle : PublicBundle) (minProfile : Option PyStr) (rt : Runtime) :
    Enforced env (parsedHeader blob) minProfile
      ((migrate env handles blob bundle minProfile).run rt).1
      (((migrate env handles blob bundle minProfile).run rt).2 = rt) := by
  unfold migrate
  apply Enforced.bind (decrypt_enforced hs ha handles blob minProfile rt)
  intro plaintext
  exact encrypt_raises notDowngrade_covers hs' ha' bundle plaintext

/-- For a registered profile, `recover_root_key` makes the check of `decrypt`. -/
theorem recoverRootKey_checks (handles : List H) {header : CryptoflexHeader}
    {profile : SecurityProfile H} (hprofile : getProfile env.profiles header.profileId = .ok profile)
    (minProfile : Option PyStr) :
    recoverRootKey env handles header minProfile =
      (Eff.lift (checkDowngrade env header minProfile) >>= fun _ =>
        Eff.tryCatch (recoverRootKeyInternal env handles header profile) fun e =>
          Eff.raise e.collapse) := by
  unfold recoverRootKey checkDowngrade
  rw [hprofile]
  dsimp only
  cases minProfile with
  | none => rfl
  | some minId =>
    dsimp only
    cases getProfile env.profiles minId with
    | error e => rfl
    | ok minProf =>
      dsimp only
      split <;> rfl

theorem recoverRootKey_enforced (hs : env.DecapsulateRaises NotDowngrade) (handles : List H)
    (header : CryptoflexHeader) (minProfile : Option PyStr) (rt : Runtime) :
    Enforced env (some header) minProfile
      ((recoverRootKey env handles header minProfile).run rt).1
      (((recoverRootKey env handles header minProfile).run rt).2 = rt) := by
  cases hprofile : getProfile env.profiles header.profileId with
  | error e =>
    have hnone := (getProfile_error hprofile).1
    have hrun : (recoverRootKey env handles header minProfile).run rt =
        (.error (.decryptionError "decryption failed"), rt) := by
      unfold recoverRootKey
      rw [hprofile]
      rfl
    have hfailed : NotDowngrade (.decryptionError "decryption failed") := rfl
    rw [hrun]
    refine Enforced.failed ?_ hfailed
    rintro header' h ⟨minId, headerProfile, minProf, -, hheader, -⟩
    cases h
    rw [hnone] at hheader
    cases hheader
  | ok profile =>
    rw [recoverRootKey_checks handles hprofile]
    apply Enforced.of_check
    have hreg := getProfile_eq_ok.mp hprofile
    exact collapsing_raises
      (recoverRootKeyInternal_raises notDowngrade_covers env handles header (hs _ _ hreg))

end CryptoFlex
