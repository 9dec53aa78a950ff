import CryptoFlex.Keystore.Custody
import CryptoFlex.Policy.Decision
import CryptoFlex.Streaming.Truncation

namespace CryptoFlex

open Lib CryptoflexHeader

variable {H : Type}

/-- A memory stream read `n` bytes at a time gives no more than it holds, in chunks that are whole
but for the last one. -/
theorem memoryStream_arrives {n : Nat} (hn : 0 < n) {p : Bytes} {cs : List Bytes}
    {i : MemoryStream} (h : Arrives n (MemoryStream.mk p) cs i) :
    cs.flatten.length ≤ p.length ∧ cs.length * n < p.length + n := by
  induction cs generalizing p with
  | nil =>
    simp only [List.flatten_nil, List.length_nil]
    omega
  | cons c cs ih =>
    cases h with
    | chunk read nonempty more =>
    cases read
    have hpos : 0 < (p.take n).length := List.length_pos_iff.mpr nonempty
    have hrest : Arrives n (MemoryStream.mk (p.drop n)) cs i := more
    obtain ⟨hlen, hcount⟩ := ih hrest
    rw [List.length_take] at hpos
    rw [List.length_drop] at hlen hcount
    show (p.take n :: cs).flatten.length ≤ p.length ∧ (cs.length + 1) * n < p.length + n
    rw [List.flatten_cons, List.length_append, List.length_take, Nat.succ_mul]
    rcases Nat.lt_or_ge p.length n with hlast | hwhole
    · have hnone : cs.length * n < 1 * n := by omega
      have hzero : cs.length < 1 := lt_of_mul_lt_mul_right hnone (Nat.zero_le n)
      have hcs : cs.length * n = 0 := by
        rw [Nat.lt_one_iff.mp hzero, Nat.zero_mul]
      omega
    · omega

/-- The plaintext can be sealed: within the limit of AES-GCM in one piece, and within those of a
stream in chunks. -/
def Fits (stream : Bool) (chunkSize : Int) (plaintext : Bytes) : Prop :=
  match stream with
  | false => plaintext.length < 2 ^ 31
  | true => ValidChunkSize chunkSize ∧ plaintext.length ≤ maxStreamPlaintextSize ∧
    plaintext.length ≤ maxStreamDataFrames * chunkSize.toNat

theorem Fits.not_overLimit {chunkSize : Int} {plaintext : Bytes}
    (h : Fits true chunkSize plaintext) :
    ¬OverLimit chunkSize.toNat (MemoryStream.mk plaintext) 0 0 := by
  obtain ⟨⟨hpos, -⟩, hsize, hframes⟩ := h
  rintro ⟨cs, i', harrives, hover⟩
  have hn : 0 < chunkSize.toNat := by omega
  obtain ⟨hlen, hcount⟩ := memoryStream_arrives hn harrives
  rw [Nat.zero_add, Nat.zero_add] at hover
  rcases hover with hover | hover
  · have hmany := Nat.mul_le_mul_right chunkSize.toNat hover
    rw [Nat.succ_mul] at hmany
    omega
  · omega

section Documents

variable {env : Env H} {bundle : PublicBundle} {profile : SecurityProfile H} {stream : Bool}
  {plaintext doc : Bytes}

theorem memoryStream_readsAtMost (n : Nat) (p : Bytes) :
    ReadsAtMost n (MemoryStream.mk p) := by
  intro cs i' h
  induction cs generalizing p with
  | nil => simp
  | cons c cs ih =>
    cases h with
    | chunk read nonempty more =>
    cases read
    rw [List.forall_mem_cons]
    exact ⟨List.length_take_le n p, ih _ more⟩

theorem memoryStream_neverFails (n : Nat) (p : Bytes) : NeverFails n (MemoryStream.mk p) := by
  intro cs i' e i'' _ hread
  cases hread

/-- What fits is sealed for whatever bundle is in order. -/
theorem sealDocument_returns (ha : env.aead.Correct) (hr : env.Reachable bundle profile)
    {chunkSize : Int} (hfits : Fits stream chunkSize plaintext) (rt : Runtime) :
    ∃ doc rt', (sealDocument env stream bundle chunkSize plaintext).run rt = (.ok doc, rt') := by
  cases stream with
  | false =>
    obtain ⟨doc, rt', hrun, -⟩ := encrypt_returns ha.toDocumented hr (ha.accepts hfits) rt
    exact ⟨doc, rt', hrun⟩
  | true =>
    obtain ⟨d, headerBytes, rt₁, hderive, hheader⟩ := deriveRootKey_returns hr rt
    obtain ⟨profile', encs, nonce, hd⟩ := deriveRootKey_eq_ok hderive
    have hnonce : d.header.nonce = some nonce := by rw [hd.header]
    have hkey : (StreamKey.mk d.rootKey headerBytes nonce).DerivedFrom env bundle rt :=
      ⟨d, rt₁, hderive, hheader, hnonce, rfl⟩
    have hlimit := encryptStream_limit ha bytesSink_reliable hkey hfits.1
      (memoryStream_readsAtMost chunkSize.toNat plaintext) (memoryStream_neverFails _ plaintext)
      BytesSink.mk
    rcases hrun : (encryptStream env bundle chunkSize).run
      (World.start rt (MemoryStream.mk plaintext) BytesSink.mk) with ⟨e | _, w⟩
    · exact absurd (hlimit.elim hrun).2 hfits.not_overLimit
    · exact ⟨w.out, w.rt, inMemory_eq_ok.mpr ⟨w, hrun, rfl, rfl⟩⟩

/-- The document begins with a header for the profile `id` that one read of a stream holds. -/
def BeginsFor (id : PyStr) (doc : Bytes) : Prop :=
  ∃ header headerBytes rest, header.profileId = id ∧ scanHeader.Reads headerBytes header ∧
    headerBytes.length ≤ maxHeaderSize ∧ doc = headerBytes ++ rest

theorem Derivation.beginsFor (he : env.Lasting) {rt : Runtime} {d : DerivedRoot}
    {encs : List (PyStr × Encapsulation)} {nonce headerBytes : Bytes}
    (hd : Derivation env bundle rt d profile encs nonce)
    (hbytes : d.header.toBytes = .ok headerBytes) (rest : Bytes) :
    BeginsFor bundle.profileId (headerBytes ++ rest) := by
  refine ⟨d.header, headerBytes, rest, ?_, hd.reads he.wellFormed hbytes,
    hd.header_length_le he.compact hbytes, rfl⟩
  rw [hd.header]

theorem sealDocument_beginsFor (he : env.Lasting)
    (hreg : env.profiles.lookup bundle.profileId = some profile) {chunkSize : Int}
    {rt rt' : Runtime}
    (h : (sealDocument env stream bundle chunkSize plaintext).run rt = (.ok doc, rt')) :
    BeginsFor bundle.profileId doc := by
  cases stream with
  | false =>
    obtain ⟨rt₀, d, encs, nonce, headerBytes, ct, hd, hbytes, -, rfl⟩ := encrypt_blobFor hreg h
    exact hd.beginsFor he hbytes ct
  | true =>
    change (inMemory (encryptStream env bundle chunkSize) plaintext).run rt = (.ok doc, rt') at h
    obtain ⟨w, hrun, rfl, -⟩ := inMemory_eq_ok.mp h
    obtain ⟨chunks, -, rt₀, t, ht, -, -, -, hwire⟩ :=
      encryptStream_streamFor (memoryStream_fills plaintext).delivers hrun
    obtain ⟨d, rt₁, hderive, hbytes, -, -⟩ := ht.derived
    obtain ⟨profile', encs, nonce, hd⟩ := deriveRootKey_eq_ok hderive
    rw [hwire]
    exact hd.beginsFor he hbytes t.frames

end Documents

theorem inMemory_error {y : Eff Exc (World MemoryStream BytesSink) Unit} {input : Bytes}
    {rt : Runtime} {e : Exc} {w : World MemoryStream BytesSink}
    (h : y.run (World.start rt (MemoryStream.mk input) BytesSink.mk) = (.error e, w)) :
    (inMemory y input).run rt = (.error e, w.rt) := by
  simp only [inMemory, h]
  rfl

section Refusals

variable {env : Env H} {profile minProf : SecurityProfile H} {id minId : PyStr} {doc : Bytes}

theorem checkDowngrade_weaker {header : CryptoflexHeader} (hid : header.profileId = id)
    (hreg : env.profiles.lookup id = some profile) (hmin : env.profiles.lookup minId = some minProf)
    (hweak : profile.strengthLevel < minProf.strengthLevel) :
    checkDowngrade env header (some minId) =
      .error (downgradeError id profile.strengthLevel minId minProf.strengthLevel) := by
  unfold checkDowngrade
  dsimp only
  rw [hid, getProfile_eq_ok.mpr hreg, getProfile_eq_ok.mpr hmin]
  dsimp only
  rw [if_pos hweak]

/-- Neither reader touches a document for a weaker profile, whatever the handles. -/
theorem decrypt_refuses (hdoc : BeginsFor id doc) (hreg : env.profiles.lookup id = some profile)
    (hmin : env.profiles.lookup minId = some minProf)
    (hweak : profile.strengthLevel < minProf.strengthLevel) (handles : List H) (rt : Runtime) :
    (decrypt env handles doc (some minId)).run rt =
      (.error (downgradeError id profile.strengthLevel minId minProf.strengthLevel), rt) := by
  obtain ⟨header, headerBytes, rest, hid, hreads, -, rfl⟩ := hdoc
  have hparse : parseHeader (headerBytes ++ rest) "decryption failed" =
      .ok (header, headerBytes.length) := by
    rw [parseHeader, fromBytes_of_reads hreads rest]
  unfold decrypt
  rw [hparse, Eff.run_lift_ok_bind]
  dsimp only
  rw [checkDowngrade_weaker hid hreg hmin hweak, Eff.run_lift_error_bind]

theorem readPrologue_refuses (hdoc : BeginsFor id doc)
    (hreg : env.profiles.lookup id = some profile) (hmin : env.profiles.lookup minId = some minProf)
    (hweak : profile.strengthLevel < minProf.strengthLevel) (handles : List H) (rt : Runtime) :
    ∃ w, w.rt = rt ∧ (readPrologue env handles (some minId)).run
        (World.start rt (MemoryStream.mk doc) BytesSink.mk) =
      (.error (downgradeError id profile.strengthLevel minId minProf.strengthLevel), w) := by
  obtain ⟨header, headerBytes, rest, hid, hreads, hsize, rfl⟩ := hdoc
  have htake : (headerBytes ++ rest).take maxHeaderSize =
      headerBytes ++ rest.take (maxHeaderSize - headerBytes.length) := by
    rw [List.take_append, List.take_of_length_le hsize]
  have hread : Input.read maxHeaderSize (MemoryStream.mk (headerBytes ++ rest)) =
      (.ok (headerBytes ++ rest.take (maxHeaderSize - headerBytes.length)),
        MemoryStream.mk ((headerBytes ++ rest).drop maxHeaderSize)) := by
    rw [← htake]
    rfl
  have hprologue : (parsePrologue env handles (some minId)
      (headerBytes ++ rest.take (maxHeaderSize - headerBytes.length))).run rt =
      (.error (downgradeError id profile.strengthLevel minId minProf.strengthLevel), rt) := by
    rw [parsePrologue_of_reads env handles (some minId) hreads]
    apply Eff.bind_error
    unfold unlock
    rw [checkDowngrade_weaker hid hreg hmin hweak, Eff.run_lift_error_bind]
  have hrun := readPrologue_run (ω := BytesSink) env handles (some minId)
    (w := World.start rt (MemoryStream.mk (headerBytes ++ rest)) BytesSink.mk) hread
  have hrt : (World.start rt (MemoryStream.mk (headerBytes ++ rest)) BytesSink.mk).rt = rt := rfl
  rw [hrt, hprologue] at hrun
  exact ⟨_, rfl, hrun⟩

theorem inMemory_refuses (hdoc : BeginsFor id doc)
    (hreg : env.profiles.lookup id = some profile) (hmin : env.profiles.lookup minId = some minProf)
    (hweak : profile.strengthLevel < minProf.strengthLevel) (handles : List H) (rt : Runtime)
    (rest : Prologue → Eff Exc (World MemoryStream BytesSink) Unit) :
    (inMemory (readPrologue env handles (some minId) >>= rest) doc).run rt =
      (.error (downgradeError id profile.strengthLevel minId minProf.strengthLevel), rt) := by
  obtain ⟨w, hw, hrun⟩ := readPrologue_refuses hdoc hreg hmin hweak handles rt
  have hall := inMemory_error (Eff.bind_error hrun rest)
  rw [hw] at hall
  exact hall

theorem openDocument_refuses (hdoc : BeginsFor id doc)
    (hreg : env.profiles.lookup id = some profile) (hmin : env.profiles.lookup minId = some minProf)
    (hweak : profile.strengthLevel < minProf.strengthLevel) (stream : Bool) (handles : List H)
    (rt : Runtime) : (openDocument env stream handles (some minId) doc).run rt =
      (.error (downgradeError id profile.strengthLevel minId minProf.strengthLevel), rt) := by
  cases stream with
  | false => exact decrypt_refuses hdoc hreg hmin hweak handles rt
  | true => exact inMemory_refuses hdoc hreg hmin hweak handles rt _

theorem moveDocument_refuses (hdoc : BeginsFor id doc)
    (hreg : env.profiles.lookup id = some profile) (hmin : env.profiles.lookup minId = some minProf)
    (hweak : profile.strengthLevel < minProf.strengthLevel) (stream : Bool) (handles : List H)
    (newBundle : PublicBundle) (rt : Runtime) :
    (moveDocument env stream handles newBundle (some minId) doc).run rt =
      (.error (downgradeError id profile.strengthLevel minId minProf.strengthLevel), rt) := by
  cases stream with
  | false => exact Eff.bind_error (decrypt_refuses hdoc hreg hmin hweak handles rt) _
  | true => exact inMemory_refuses hdoc hreg hmin hweak handles rt _

end Refusals

namespace PolicyEngine

def approvedEntry (quantumSafe : Bool) (notes : String) : Json :=
  .obj [(.text "status", .str "approved"), (.text "quantum_safe", .bool quantumSafe),
    (.text "notes", .str notes)]

/-- algorithm_status.json. -/
def algorithmStatus : JsonObject :=
  [(.text "table_version", .str "2026.08.1"),
    (.text "note", .str ("Bundled locally with the package release. The 'approved' status " ++
      "indicates approval under CryptoFlex's bundled local algorithm policy only; it does not " ++
      "indicate government, regulatory, standards-body, or independent third-party " ++
      "certification. Updated by maintainers as new guidance is published. No network calls " ++
      "are made.")),
    (.text "algorithms", .obj [
      (.text "x25519", approvedEntry false ("Well-audited classical ECDH. Not " ++
        "quantum-resistant; retained in hybrid profiles for defense-in-depth against " ++
        "undiscovered PQC flaws.")),
      (.text "mlkem768", approvedEntry true ("NIST FIPS 203 (ML-KEM-768). Recommended default " ++
        "PQC component as of table_version 2026.08.1.")),
      (.text "mlkem1024", approvedEntry true ("NIST FIPS 203 (ML-KEM-1024). Higher security " ++
        "margin, larger keys/ciphertexts, more compute."))])]

theorem algorithmStatus_x25519 :
    Lists ⟨algorithmStatus⟩ (.text "x25519") .approved false :=
  record_eq_some.mp (by decide +kernel)

theorem algorithmStatus_pqc {kemName : String} (hk : kemName ∈ ["ML-KEM-768", "ML-KEM-1024"]) :
    Lists ⟨algorithmStatus⟩ (pqcAlgorithmId kemName) .approved true := by
  have hall : ∀ kemName ∈ ["ML-KEM-768", "ML-KEM-1024"],
      record ⟨algorithmStatus⟩ (pqcAlgorithmId kemName) = some (.approved, true) := by
    decide +kernel
  exact record_eq_some.mp (hall kemName hk)

theorem Lists.unique {engine : PolicyEngine} {id : PyStr} {status status' : Status} {qs qs' : Bool}
    (h : engine.Lists id status qs) (h' : engine.Lists id status' qs') :
    status = status' ∧ qs = qs' := by
  have hrecord := record_eq_some.mpr h
  rw [record_eq_some.mpr h'] at hrecord
  cases hrecord
  exact ⟨rfl, rfl⟩

section Shipped

variable {K₁ K₂ : Type} {x : X25519 K₁} {o : Oqs K₂}
  {p : SecurityProfile (PrivateHandle K₁ K₂)} {requireQs : Bool}

theorem classical_qualifies (hp : p.sources = [classicalSource x]) :
    Qualifies ⟨algorithmStatus⟩ p requireQs ↔ requireQs = false := by
  have hlists := algorithmStatus_x25519
  constructor
  · intro h
    rw [← Bool.not_eq_true]
    intro hreq
    obtain ⟨s, hs, status, hsafe⟩ := h.quantumSafe hreq
    rw [hp, List.mem_singleton] at hs
    subst hs
    cases (hlists.unique hsafe).2
  · rintro rfl
    refine ⟨?_, ?_, ?_, fun h => nomatch h⟩
    · simp [hp, classicalSource]
    · simp only [hp, List.forall_mem_singleton]
      exact ⟨_, _, hlists⟩
    · exact ⟨classicalSource x, by simp [hp], _, hlists⟩

theorem hybrid_qualifies {kemName : String} (hk : kemName ∈ ["ML-KEM-768", "ML-KEM-1024"])
    (hp : p.sources = [classicalSource x, pqcSource o kemName]) :
    Qualifies ⟨algorithmStatus⟩ p requireQs ↔ kemName ∈ o.enabled := by
  have hlists := algorithmStatus_pqc hk
  constructor
  · intro h
    exact of_decide_eq_true (h.available (pqcSource o kemName) (by simp [hp]))
  · intro henabled
    refine ⟨?_, ?_, ?_, ?_⟩
    · simp [hp, classicalSource, pqcSource, henabled]
    · simp only [hp, List.forall_mem_cons, List.not_mem_nil, false_implies, implies_true, and_true]
      exact ⟨⟨_, _, algorithmStatus_x25519⟩, ⟨_, _, hlists⟩⟩
    · exact ⟨pqcSource o kemName, by simp [hp], _, hlists⟩
    · intro _
      exact ⟨pqcSource o kemName, by simp [hp], _, hlists⟩

/-- With the shipped table there is no decision only where quantum safety is asked of a machine that
has neither mechanism. -/
theorem decide_algorithmStatus_error (x : X25519 K₁) (o : Oqs K₂) (constraint : Constraint)
    (requireQs : Bool) :
    (∃ m, decide ⟨algorithmStatus⟩ (profileRegistry x o) constraint requireQs =
      .error (.runtimeError m)) ↔
      requireQs = true ∧ "ML-KEM-768" ∉ o.enabled ∧ "ML-KEM-1024" ∉ o.enabled := by
  rcases decide_cases ⟨algorithmStatus⟩ requireQs (profileRegistry_candidates x o constraint) with
    ⟨i, id, p, d, hfirst, hd, -⟩ | ⟨hnone, hm⟩
  · rw [hd]
    refine iff_of_false (fun ⟨m, h⟩ => nomatch h) ?_
    rintro ⟨rfl, hstandard, hhigh⟩
    have hqualifies := hfirst.qualifies
    revert hqualifies
    refine profileRegistry_cases ?_ ?_ ?_ hfirst.registered
    · intro h
      cases (classical_qualifies rfl).mp h
    · intro h
      exact hstandard ((hybrid_qualifies (by simp) rfl).mp h)
    · intro h
      exact hhigh ((hybrid_qualifies (by simp) rfl).mp h)
  · refine iff_of_true hm ⟨?_, ?_, ?_⟩
    · rw [← Bool.not_eq_false]
      intro hreq
      exact hnone (.text "classical_only") (by cases constraint <;> decide) _ rfl
        ((classical_qualifies rfl).mpr hreq)
    · intro henabled
      exact hnone (.text "hybrid_standard") (by cases constraint <;> decide) _ rfl
        ((hybrid_qualifies (by simp) rfl).mpr henabled)
    · intro henabled
      exact hnone (.text "hybrid_high") (by cases constraint <;> decide) _ rfl
        ((hybrid_qualifies (by simp) rfl).mpr henabled)

end Shipped

end PolicyEngine

section Decisions

variable {env : Env H}

theorem generateKeypairs_returns {ss : List (Source H)} (hs : ∀ s ∈ ss, s.Lasting)
    (havail : ∀ s ∈ ss, s.isAvailable = true) (rt : Runtime) : ∃ keys handles rt',
    (generateKeypairs ss).run rt = (.ok (keys, handles), rt') := by
  induction ss generalizing rt with
  | nil => exact ⟨[], [], rt, rfl⟩
  | cons s ss ih =>
    rw [List.forall_mem_cons] at hs havail
    obtain ⟨pub, priv, pool, hgen⟩ := hs.1.generates havail.1 rt.entropy
    have hsample : (Runtime.sample s.generateKeypair).run rt =
        (.ok (pub, priv), { rt with entropy := pool }) := by
      rw [Runtime.sample, Eff.run_zoom, hgen]
    obtain ⟨keys, handles, rt', hrest⟩ := ih hs.2 havail.2 { rt with entropy := pool }
    refine ⟨(s.algorithmId, pub) :: keys, priv :: handles, rt', ?_⟩
    rw [generateKeypairs, Eff.bind_ok hsample]
    exact Eff.bind_ok hrest _

theorem establishKeys_of_decide {engine : PolicyEngine} {constraint : Constraint}
    {requireQs : Bool} {d : PolicyDecision H}
    (hd : engine.decide env.profiles constraint requireQs = .ok d) {rt rt' : Runtime}
    {keys : List (PyStr × Bytes)} {handles : List H}
    (hgen : (generateKeypairs d.profile.sources).run rt = (.ok (keys, handles), rt')) :
    (establishKeys env engine constraint requireQs).run rt =
      (.ok ⟨d.profile, ⟨d.profile.profileId, keys⟩, handles, d⟩, rt') := by
  unfold establishKeys
  rw [hd, Eff.run_lift_ok_bind]
  dsimp only
  rw [Eff.bind_ok hgen]
  rfl

/-- What the keys `k` protect where the reader asks for at least the profile `minId`: the owner
opens every document that was sealed for them, and no reader touches one for a weaker profile. -/
structure Protects (env : Env H) (k : KeySet H) (minId : PyStr) : Prop where
  seals : ∀ stream chunkSize plaintext rt, Fits stream chunkSize plaintext → ∃ doc rt',
    (sealDocument env stream k.publicBundle chunkSize plaintext).run rt = (.ok doc, rt') ∧
      ∀ rt₁, ((openDocument env stream k.privateHandles (some minId) doc).run rt₁).1 = .ok plaintext
  refuses : ∀ weak, Established env weak → weak.profile.strengthLevel < k.profile.strengthLevel →
    ∀ stream chunkSize plaintext rt doc rt',
      (sealDocument env stream weak.publicBundle chunkSize plaintext).run rt = (.ok doc, rt') →
      ∀ stream' handles rt₁,
        (openDocument env stream' handles (some minId) doc).run rt₁ =
          (.error (downgradeError weak.profile.profileId weak.profile.strengthLevel minId
            k.profile.strengthLevel), rt₁) ∧
        ∀ newBundle, (moveDocument env stream' handles newBundle (some minId) doc).run rt₁ =
          (.error (downgradeError weak.profile.profileId weak.profile.strengthLevel minId
            k.profile.strengthLevel), rt₁)

theorem Established.protects (he : env.Lasting) {k : KeySet H} (hk : Established env k)
    {minId : PyStr} (hmin : env.profiles.lookup minId = some k.profile) :
    Protects env k minId where
  seals := by
    intro stream chunkSize plaintext rt hfits
    have howned := hk.owned he
    obtain ⟨doc, rt', hrun⟩ := sealDocument_returns he.aead howned.reachable hfits rt
    have hsize : stream = false → plaintext.length < 2 ^ 31 := by
      rintro rfl
      exact hfits
    have hdoc := sealDocument_documentFor howned.reachable.registered hsize hrun
    have hnot : NotStronger env (some minId) k.profile := by
      intro minId' hid
      cases hid
      exact ⟨k.profile, hmin, le_refl _⟩
    exact ⟨doc, rt', hrun, fun rt₁ => hdoc.opens he howned hnot rt₁⟩
  refuses := by
    intro weak hweak hlt stream chunkSize plaintext rt doc rt' hrun stream' handles rt₁
    have hreach := (hweak.owned he).reachable
    have hbegins := sealDocument_beginsFor he hreach.registered hrun
    have hreg := hreach.registered
    rw [← hreach.profileId] at hbegins hreg
    exact ⟨openDocument_refuses hbegins hreg hmin hlt stream' handles rt₁,
      fun newBundle => moveDocument_refuses hbegins hreg hmin hlt stream' handles newBundle rt₁⟩

end Decisions

theorem decide_kept {engine : PolicyEngine} {profiles : Registry H} {constraint : Constraint}
    {requireQs : Bool} (hreg : ∀ id ∈ PolicyEngine.candidateOrder constraint, ∃ p,
      profiles.lookup id = some p) {d : PolicyDecision H}
    (h : engine.decide profiles constraint requireQs = .ok d) :
    (∀ s ∈ d.profile.sources, s.isAvailable = true) ∧
      profiles.lookup d.minAcceptedProfile = some d.profile := by
  rcases PolicyEngine.decide_cases engine requireQs hreg with
    ⟨i, id, p, d', hfirst, hd, hchosen⟩ | ⟨-, m, hm⟩
  · rw [h] at hd
    cases hd
    rw [hchosen.minimum, hchosen.profile]
    exact ⟨hfirst.qualifies.available, hfirst.registered⟩
  · rw [h] at hm
    cases hm

/-- Whatever risk table the engine has and whatever packages are installed, `establish_keys` gives
the keys of the profile that the policy decides on, or raises the `RuntimeError` of a machine on
which none is acceptable. Whoever asks for the minimum of that decision opens what was sealed for
the keys, and is not given anything weaker. -/
theorem establishKeys_protects {K₁ K₂ : Type} (x : X25519 K₁) (o : Oqs K₂) (hkdf : Hkdf)
    (aead : Aead) (hx : x.Documented)
    (ho : ∀ kemName ∈ ["ML-KEM-768", "ML-KEM-1024"], kemName ∈ o.enabled → o.Documented kemName)
    (ha : aead.Correct) (engine : PolicyEngine) (constraint : Constraint) (requireQs : Bool)
    (rt : Runtime) :
    match engine.decide (profileRegistry x o) constraint requireQs with
    | .ok d => ∃ k rt',
      (establishKeys (builtinEnv x o hkdf aead) engine constraint requireQs).run rt =
        (.ok k, rt') ∧ k.policyDecision = d ∧ k.profile = d.profile ∧
      Protects (builtinEnv x o hkdf aead) k d.minAcceptedProfile
    | .error e => (∃ m, e = .runtimeError m) ∧
      (establishKeys (builtinEnv x o hkdf aead) engine constraint requireQs).run rt =
        (.error e, rt) := by
  have he := builtinEnv_lasting x o hkdf aead hx ho ha
  have hreg := PolicyEngine.profileRegistry_candidates x o constraint
  cases hd : engine.decide (profileRegistry x o) constraint requireQs with
  | error e =>
    refine ⟨?_, ?_⟩
    · rcases PolicyEngine.decide_cases engine requireQs hreg with ⟨i, id, p, d, -, hok, -⟩ | ⟨-, hm⟩
      · rw [hd] at hok
        cases hok
      · obtain ⟨m, hm⟩ := hm
        rw [hd] at hm
        cases hm
        exact ⟨m, rfl⟩
    · unfold establishKeys
      apply Eff.bind_error
      rw [Eff.run_lift]
      exact congrArg (·, rt) hd
  | ok d =>
    obtain ⟨havail, hmin⟩ := decide_kept hreg hd
    obtain ⟨keys, handles, rt', hgen⟩ :=
      generateKeypairs_returns (he.sources _ _ hmin) havail rt
    let k : KeySet (PrivateHandle K₁ K₂) :=
      ⟨d.profile, ⟨d.profile.profileId, keys⟩, handles, d⟩
    have hrun : (establishKeys (builtinEnv x o hkdf aead) engine constraint requireQs).run rt =
        (.ok k, rt') := establishKeys_of_decide hd hgen
    have hk : Established (builtinEnv x o hkdf aead) k := ⟨_, _, _, _, _, hrun⟩
    exact ⟨k, rt', hrun, rfl, rfl, hk.protects he hmin⟩

theorem establishKeys_protects_shipped : ∃ d k rt',
    PolicyEngine.decide ⟨PolicyEngine.algorithmStatus⟩ (profileRegistry xorX25519 xorOqs)
      .maxSecurity true = .ok d ∧
    (establishKeys (xorEnv zeroTagAead) ⟨PolicyEngine.algorithmStatus⟩ .maxSecurity true).run
      zeroRuntime = (.ok k, rt') ∧ Protects (xorEnv zeroTagAead) k d.minAcceptedProfile := by
  have hkeys := establishKeys_protects xorX25519 xorOqs xorHkdf zeroTagAead xorX25519_documented
    (fun kemName _ _ => xorOqs_documented kemName) zeroTagAead_correct
    ⟨PolicyEngine.algorithmStatus⟩ .maxSecurity true zeroRuntime
  revert hkeys
  cases hd : PolicyEngine.decide ⟨PolicyEngine.algorithmStatus⟩
    (profileRegistry xorX25519 xorOqs) .maxSecurity true with
  | error e =>
    rintro ⟨⟨m, rfl⟩, -⟩
    have hnone := (PolicyEngine.decide_algorithmStatus_error xorX25519 xorOqs _ _).mp ⟨m, hd⟩
    exact absurd (by decide) hnone.2.1
  | ok d =>
    rintro ⟨k, rt', hrun, -, -, hprotects⟩
    exact ⟨d, k, rt', rfl, hrun, hprotects⟩

end CryptoFlex
