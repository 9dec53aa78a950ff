import CryptoFlex.Header.RoundTrip
import CryptoFlex.Streaming.Decrypt

namespace CryptoFlex

open Lib World CryptoflexHeader

section Prologue

variable {H : Type} (env : Env H) (handles : List H) (minProfile : Option PyStr)

/-- The checks of the prologue and the key recovery, for a parsed header: base nonce and key. -/
def unlock (header : CryptoflexHeader) : Eff Exc Runtime (Bytes × Bytes) := do
  Eff.lift (checkDowngrade env header minProfile)
  match header.nonce with
  | none => Eff.raise (.decryptionError
      "decryption failed: v1 header not supported in streaming mode")
  | some baseNonce =>
  let rawRootKey ← Eff.tryCatch (do
    let profile ← Eff.lift (getProfile env.profiles header.profileId)
    recoverRootKeyInternal env handles header profile) fun e => Eff.raise e.collapse
  return (baseNonce, rawRootKey)

/-- Beyond the header's own bytes the initial read is passed on unseen. -/
theorem parsePrologue_of_reads {c : Bytes} {h : CryptoflexHeader} (hr : scanHeader.Reads c h)
    (t : Bytes) :
    parsePrologue env handles minProfile (c ++ t) = (do
      let (baseNonce, rawRootKey) ← unlock env handles minProfile h
      return { baseNonce, headerBytes := c, unconsumedInitial := t, rawRootKey }) := by
  have hparse : parseHeader (c ++ t) "decryption failed: invalid header" = .ok (h, c.length) := by
    rw [parseHeader, fromBytes_of_reads hr t]
  unfold parsePrologue unlock
  rw [if_neg (reads_ne_nil hr t), hparse]
  have hlift : (Eff.lift (.ok (h, c.length)) : Eff Exc Runtime _) = pure (h, c.length) := rfl
  rw [hlift, Eff.pure_bind, Eff.bind_assoc]
  dsimp only
  apply congrArg
  funext _
  cases h.nonce with
  | none => rfl
  | some baseNonce =>
    dsimp only
    rw [Eff.bind_assoc, List.take_left, List.drop_left]
    rfl

theorem parsePrologue_of_error {initial : Bytes} {e : Exc}
    (he : fromBytes initial = .error e) (rt : Runtime) :
    ∃ m, (parsePrologue env handles minProfile initial).run rt =
      (.error (.decryptionError m), rt) := by
  unfold parsePrologue
  by_cases hnil : initial = []
  · rw [if_pos hnil]
    exact ⟨_, rfl⟩
  · obtain ⟨m, rfl⟩ := fromBytes_error he
    rw [if_neg hnil, parseHeader, he]
    exact ⟨_, rfl⟩

theorem Recording.parsePrologue {K : Runtime → Runtime → Prop} (hK : Recording K) (initial : Bytes) :
    Eff.Keeps K (parsePrologue env handles minProfile initial) := by
  unfold CryptoFlex.parsePrologue
  split
  · exact Eff.Keeps.raise hK.refl _
  · apply Eff.Keeps.bind hK.trans (Eff.Keeps.lift hK.refl _)
    intro parsed
    apply Eff.Keeps.bind hK.trans (Eff.Keeps.lift hK.refl _)
    intro _
    split
    · exact Eff.Keeps.raise hK.refl _
    · apply Eff.Keeps.bind hK.trans
      · apply Eff.Keeps.tryCatch hK.trans
        · apply Eff.Keeps.bind hK.trans (Eff.Keeps.lift hK.refl _)
          intro profile
          exact hK.recoverRootKeyInternal env handles _ profile
        · intro e
          exact Eff.Keeps.raise hK.refl _
      · intro rawRootKey
        exact Eff.Keeps.pure hK.refl _

variable {env handles minProfile}

/-- A prologue that returns has parsed a header and unlocked it. -/
theorem parsePrologue_eq_ok {initial : Bytes} {rt rt' : Runtime} {p : Prologue}
    (h : (parsePrologue env handles minProfile initial).run rt = (.ok p, rt')) :
    ∃ header n, fromBytes initial = .ok (header, n) ∧
      (unlock env handles minProfile header).run rt = (.ok (p.baseNonce, p.rawRootKey), rt') ∧
      p.headerBytes = initial.take n ∧ p.unconsumedInitial = initial.drop n := by
  cases hparse : fromBytes initial with
  | error e =>
    obtain ⟨m, hp⟩ := parsePrologue_of_error env handles minProfile hparse rt
    rw [hp] at h
    cases h
  | ok r =>
    obtain ⟨header, n⟩ := r
    obtain ⟨hn, hr⟩ := fromBytes_eq_ok.mp hparse
    have hp := parsePrologue_of_reads env handles minProfile hr (initial.drop n)
    rw [List.take_append_drop] at hp
    rw [hp] at h
    obtain ⟨⟨nonce, key⟩, rt₁, hu, hret⟩ := Eff.bind_eq_ok.mp h
    cases hret
    exact ⟨header, n, rfl, hu, rfl, rfl⟩

theorem recoverRootKeyInternal_length {header : CryptoflexHeader} {profile : SecurityProfile H}
    {rt rt' : Runtime} {key : Bytes}
    (h : (recoverRootKeyInternal env handles header profile).run rt = (.ok key, rt')) :
    key.length = rootKeyLen := by
  unfold recoverRootKeyInternal at h
  split at h
  · cases h
  · obtain ⟨secrets, rt1, -, h⟩ := Eff.bind_eq_ok.mp h
    obtain ⟨combined, rt2, hc, hret⟩ := Eff.bind_eq_ok.mp h
    cases hret
    have hcombined := (Prod.mk.inj hc).1
    unfold combineFromSecrets at hcombined
    dsimp only at hcombined
    split at hcombined
    · cases hcombined
    · obtain ⟨info, -, hkey⟩ := bind_eq_ok.mp hcombined
      cases hkey
      exact (env.hkdf info _).property

/-- What a prologue that returns has checked. -/
theorem unlock_eq_ok {header : CryptoflexHeader} {rt rt' : Runtime} {baseNonce key : Bytes}
    (h : (unlock env handles minProfile header).run rt = (.ok (baseNonce, key), rt')) :
    checkDowngrade env header minProfile = .ok () ∧ header.nonce = some baseNonce ∧
      ∃ profile, getProfile env.profiles header.profileId = .ok profile ∧
        (recoverRootKeyInternal env handles header profile).run rt = (.ok key, rt') := by
  unfold unlock at h
  obtain ⟨_, rt1, hcheck, h⟩ := Eff.bind_eq_ok.mp h
  obtain ⟨hdowngrade, rfl⟩ := Prod.mk.inj hcheck
  cases hnonce : header.nonce with
  | none =>
    rw [hnonce] at h
    cases h
  | some n =>
    rw [hnonce] at h
    obtain ⟨raw, rt2, htry, hret⟩ := Eff.bind_eq_ok.mp h
    cases hret
    refine ⟨hdowngrade, rfl, ?_⟩
    rcases hbody : ((do
      let profile ← Eff.lift (getProfile env.profiles header.profileId)
      recoverRootKeyInternal env handles header profile) : Eff Exc Runtime Bytes).run rt
      with ⟨r, rt3⟩
    cases r with
    | error e =>
      rw [Eff.tryCatch_error hbody] at htry
      cases htry
    | ok key =>
      rw [Eff.tryCatch_ok hbody] at htry
      cases htry
      obtain ⟨profile, rt4, hp, hrec⟩ := Eff.bind_eq_ok.mp hbody
      obtain ⟨hprofile, rfl⟩ := Prod.mk.inj hp
      exact ⟨profile, hprofile, hrec⟩

theorem unlock_key_length {header : CryptoflexHeader} {rt rt' : Runtime} {baseNonce key : Bytes}
    (h : (unlock env handles minProfile header).run rt = (.ok (baseNonce, key), rt')) :
    key.length = rootKeyLen := by
  obtain ⟨-, -, profile, -, hrec⟩ := unlock_eq_ok h
  exact recoverRootKeyInternal_length hrec

theorem init_of_unlock (ha : env.aead.Documented) {header : CryptoflexHeader} {rt rt' : Runtime}
    {baseNonce key : Bytes}
    (h : (unlock env handles minProfile header).run rt = (.ok (baseNonce, key), rt')) :
    env.aead.init key = .ok () := ha.init_ok key (unlock_key_length h)

end Prologue

section Run

variable {H ι ω : Type} [Input ι]

theorem readPrologue_run (env : Env H) (handles : List H) (minProfile : Option PyStr)
    {w : World ι ω} {initial : Bytes} {i' : ι}
    (hread : Input.read maxHeaderSize w.reader.stream = (.ok initial, i')) :
    (readPrologue env handles minProfile).run w =
      (((parsePrologue env handles minProfile initial).run w.rt).1,
        { w with
          rt := ((parsePrologue env handles minProfile initial).run w.rt).2
          reader := { w.reader with stream := i' } }) := by
  have hinput : (readInput maxHeaderSize : Eff Exc (World ι ω) Bytes).run w =
      (.ok initial, { w with reader := { w.reader with stream := i' } }) := by
    simp only [readInput, onReader, Eff.run_zoom, StreamReader.readStream, hread]
  unfold readPrologue
  rw [Eff.bind_ok hinput]
  rfl

variable [Output ω]

/-- The run after the prologue: it decodes the bytes the prologue left over and those the stream
still holds, writes the chunks until a write fails, and reports every failure as a decryption
failure. -/
theorem decryptStream_run (env : Env H) (handles : List H)
    (minProfile : Option PyStr) {i i' : ι} {initial t : Bytes}
    (hread : Input.read maxHeaderSize i = (.ok initial, i')) (ht : Delivers i' t) {rt rt' : Runtime}
    {p : Prologue} (hinit : env.aead.init p.rawRootKey = .ok ())
    (hp : (parsePrologue env handles minProfile initial).run rt = (.ok p, rt')) (sink : ω) :
    ∃ chunks ending w',
      Decodes env.aead ⟨p.rawRootKey, p.headerBytes, p.baseNonce⟩ 0 0 (p.unconsumedInitial ++ t)
        chunks ending ∧
      (decryptStream env handles minProfile).run (World.start rt i sink) =
        (((writeAll chunks sink).1 >>= fun _ => ending >>= noTrailing).mapError Exc.collapse, w') ∧
      w'.out = (writeAll chunks sink).2 := by
  have hprologue := readPrologue_run (ω := ω) env handles minProfile
    (w := World.start rt i sink) hread
  have hw : (World.start rt i sink).rt = rt := rfl
  rw [hw, hp] at hprologue
  let w1 : World ι ω :=
    { rt := { rt' with heap := rt'.heap ++ [p.rawRootKey] }
      reader := { buf := p.unconsumedInitial, stream := i' }, sink, out := [] }
  have hholds : w1.reader.Holds (p.unconsumedInitial ++ t) := ⟨t, rfl, ht⟩
  obtain ⟨chunks, ending, w2, hdec, hloop, hout⟩ := decryptLoop_decodes env
    ⟨p.rawRootKey, p.headerBytes, p.baseNonce⟩ (v := {}) rfl hholds
  have hbody : ((do
      let key ← onRuntime (Runtime.readBuffer rt'.heap.length)
      let aesgcm ← Eff.lift (AESGCM env.aead key)
      newReader p.unconsumedInitial
      let receivedFinal ← (decryptLoop env aesgcm p.headerBytes p.baseNonce).toEff {}
      if !receivedFinal then
        Eff.raise (.decryptionError "decryption failed: missing FINAL frame")) :
        Eff Exc (World ι ω) Unit).run { w1 with reader := { buf := [], stream := i' } } =
      ((writeAll chunks sink).1 >>= fun _ => ending >>= noTrailing, w2) := by
    have hsink : w1.sink = sink := rfl
    rw [hsink] at hloop
    rw [Eff.bind_ok (readBuffer_run (heap_getD_append _ _) _ rfl), AESGCM_of_init hinit,
      Eff.run_lift_ok_bind]
    have hnew : (newReader p.unconsumedInitial : Eff Exc (World ι ω) Unit).run
        { w1 with reader := { buf := [], stream := i' } } = (.ok (), w1) := rfl
    rw [Eff.bind_ok hnew]
    cases hwrite : (writeAll chunks sink).1 with
    | error e =>
      rw [hwrite] at hloop
      exact Eff.bind_error hloop _
    | ok u =>
      rw [hwrite] at hloop
      rw [ok_bind] at hloop ⊢
      cases hending : ending >>= noTrailing with
      | ok u =>
        rw [hending] at hloop
        exact Eff.bind_ok hloop _
      | error e =>
        rw [hending] at hloop
        exact Eff.bind_error hloop _
  refine ⟨chunks, ending,
    { w2 with rt := ((Runtime.zeroize rt'.heap.length).run w2.rt).2 }, hdec, ?_, ?_⟩
  · unfold decryptStream
    rw [Eff.bind_ok hprologue, Eff.bind_ok (newBuffer_run _ _)]
    apply Eff.tryFinally_run (t := w2)
    · cases hr : (writeAll chunks sink).1 >>= fun _ => ending >>= noTrailing with
      | ok u => rw [hr] at hbody; exact Eff.tryCatch_ok hbody _
      | error e => rw [hr] at hbody; exact Eff.tryCatch_error hbody _
    · rfl
  · rw [hout]
    rfl

/-- No cipher for the recovered key, nothing written. -/
theorem decryptStream_uninit (env : Env H) (handles : List H) (minProfile : Option PyStr)
    {i i' : ι} {initial : Bytes} (hread : Input.read maxHeaderSize i = (.ok initial, i'))
    {rt rt' : Runtime} {p : Prologue} {e : Exc} (hinit : env.aead.init p.rawRootKey = .error e)
    (hp : (parsePrologue env handles minProfile initial).run rt = (.ok p, rt')) (sink : ω) :
    ∃ w', (decryptStream env handles minProfile).run (World.start rt i sink) =
        (.error e.collapse, w') ∧ w'.out = [] := by
  have hprologue := readPrologue_run (ω := ω) env handles minProfile
    (w := World.start rt i sink) hread
  have hw : (World.start rt i sink).rt = rt := rfl
  rw [hw, hp] at hprologue
  let w₁ : World ι ω := { World.start rt i' sink with
    rt := { rt' with heap := rt'.heap ++ [p.rawRootKey] } }
  have hbody : ((do
      let key ← onRuntime (Runtime.readBuffer rt'.heap.length)
      let aesgcm ← Eff.lift (AESGCM env.aead key)
      newReader p.unconsumedInitial
      let receivedFinal ← (decryptLoop env aesgcm p.headerBytes p.baseNonce).toEff {}
      if !receivedFinal then
        Eff.raise (.decryptionError "decryption failed: missing FINAL frame")) :
        Eff Exc (World ι ω) Unit).run w₁ = (.error e, w₁) := by
    rw [Eff.bind_ok (readBuffer_run (heap_getD_append _ _) _ rfl), AESGCM_of_error hinit,
      Eff.run_lift_error_bind]
  refine ⟨{ w₁ with rt := ((Runtime.zeroize rt'.heap.length).run w₁.rt).2 }, ?_, rfl⟩
  unfold decryptStream
  rw [Eff.bind_ok hprologue, Eff.bind_ok (newBuffer_run _ _)]
  exact Eff.tryFinally_run (Eff.tryCatch_error hbody _) rfl

theorem decryptStream_refused (env : Env H) (handles : List H) (minProfile : Option PyStr)
    {i i' : ι} {initial : Bytes} (hread : Input.read maxHeaderSize i = (.ok initial, i'))
    {rt rt' : Runtime} {e : Exc}
    (hp : (parsePrologue env handles minProfile initial).run rt = (.error e, rt')) (sink : ω) :
    ∃ w', (decryptStream env handles minProfile).run (World.start rt i sink) = (.error e, w') ∧
      w'.out = [] := by
  have hprologue := readPrologue_run (ω := ω) env handles minProfile
    (w := World.start rt i sink) hread
  have hw : (World.start rt i sink).rt = rt := rfl
  rw [hw, hp] at hprologue
  exact ⟨_, Eff.bind_error hprologue _, rfl⟩

theorem parsePrologue_unlocked {env : Env H} {handles : List H} {minProfile : Option PyStr}
    {c : Bytes} {h : CryptoflexHeader} (hr : scanHeader.Reads c h) (u : Bytes) {rt rt' : Runtime}
    {nonce key : Bytes} (hu : (unlock env handles minProfile h).run rt = (.ok (nonce, key), rt')) :
    (parsePrologue env handles minProfile (c ++ u)).run rt = (.ok ⟨nonce, c, u, key⟩, rt') := by
  rw [parsePrologue_of_reads env handles minProfile hr u, Eff.bind_ok hu]
  rfl

/-- The run on a stream whose initial read holds the header `c` of `h`. -/
theorem decryptStream_unlocked {env : Env H} {handles : List H}
    {minProfile : Option PyStr} {i i' : ι} {c u t : Bytes} {h : CryptoflexHeader}
    (hr : scanHeader.Reads c h) (hread : Input.read maxHeaderSize i = (.ok (c ++ u), i'))
    (ht : Delivers i' t) {rt rt' : Runtime} {nonce key : Bytes}
    (hu : (unlock env handles minProfile h).run rt = (.ok (nonce, key), rt'))
    (hinit : env.aead.init key = .ok ()) (sink : ω) :
    ∃ chunks ending w', Decodes env.aead ⟨key, c, nonce⟩ 0 0 (u ++ t) chunks ending ∧
      (decryptStream env handles minProfile).run (World.start rt i sink) =
        (((writeAll chunks sink).1 >>= fun _ => ending >>= noTrailing).mapError Exc.collapse, w') ∧
      w'.out = (writeAll chunks sink).2 :=
  decryptStream_run env handles minProfile hread ht hinit (parsePrologue_unlocked hr u hu) sink

theorem decryptStream_locked {env : Env H} {handles : List H} {minProfile : Option PyStr}
    {i i' : ι} {c u : Bytes} {h : CryptoflexHeader} (hr : scanHeader.Reads c h)
    (hread : Input.read maxHeaderSize i = (.ok (c ++ u), i')) {rt rt' : Runtime} {e : Exc}
    (hu : (unlock env handles minProfile h).run rt = (.error e, rt')) (sink : ω) :
    ∃ w', (decryptStream env handles minProfile).run (World.start rt i sink) = (.error e, w') ∧
      w'.out = [] := by
  have hp : (parsePrologue env handles minProfile (c ++ u)).run rt = (.error e, rt') := by
    rw [parsePrologue_of_reads env handles minProfile hr u, Eff.bind_error hu]
  exact decryptStream_refused env handles minProfile hread hp sink

theorem decryptStream_noHeader (env : Env H) (handles : List H) (minProfile : Option PyStr)
    {i i' : ι} {initial : Bytes} (hread : Input.read maxHeaderSize i = (.ok initial, i'))
    {e : Exc} (he : fromBytes initial = .error e) (rt : Runtime) (sink : ω) :
    ∃ m w', (decryptStream env handles minProfile).run (World.start rt i sink) =
      (.error (.decryptionError m), w') ∧ w'.out = [] := by
  obtain ⟨m, hp⟩ := parsePrologue_of_error env handles minProfile he rt
  obtain ⟨w', hrun, hout⟩ := decryptStream_refused env handles minProfile hread hp sink
  exact ⟨m, w', hrun, hout⟩

/-- What a run of `decrypt_stream` does with a stream of the bytes `s` whose first read gives
`initial`: its outcome and the bytes it writes to `sink`. -/
inductive StreamRun (env : Env H) (handles : List H) (minProfile : Option PyStr) (rt : Runtime)
    (sink : ω) (initial s : Bytes) : Except Exc Unit → Bytes → Prop
  | noHeader {e : Exc} {m : String} (parsed : fromBytes initial = .error e) :
    StreamRun env handles minProfile rt sink initial s (.error (.decryptionError m)) []
  | locked {h : CryptoflexHeader} {n : Nat} {e : Exc} {rt' : Runtime}
    (parsed : fromBytes initial = .ok (h, n))
    (refused : (unlock env handles minProfile h).run rt = (.error e, rt')) :
    StreamRun env handles minProfile rt sink initial s (.error e) []
  | uninit {h : CryptoflexHeader} {n : Nat} {nonce key : Bytes} {rt' : Runtime} {e : Exc}
    (parsed : fromBytes initial = .ok (h, n))
    (accepted : (unlock env handles minProfile h).run rt = (.ok (nonce, key), rt'))
    (refused : env.aead.init key = .error e) :
    StreamRun env handles minProfile rt sink initial s (.error e.collapse) []
  | unlocked {h : CryptoflexHeader} {n : Nat} {nonce key : Bytes} {rt' : Runtime}
    {chunks : List Bytes} {ending : Except Exc Bytes} (parsed : fromBytes initial = .ok (h, n))
    (accepted : (unlock env handles minProfile h).run rt = (.ok (nonce, key), rt'))
    (cipher : env.aead.init key = .ok ())
    (decoded : Decodes env.aead ⟨key, s.take n, nonce⟩ 0 0 (s.drop n) chunks ending) :
    StreamRun env handles minProfile rt sink initial s
      (((writeAll chunks sink).1 >>= fun _ => ending >>= noTrailing).mapError Exc.collapse)
      (writeAll chunks sink).2

theorem decryptStream_streamRun (env : Env H) (handles : List H)
    (minProfile : Option PyStr) {i i' : ι} {initial t : Bytes}
    (hread : Input.read maxHeaderSize i = (.ok initial, i')) (ht : Delivers i' t) (rt : Runtime)
    (sink : ω) :
    StreamRun env handles minProfile rt sink initial (initial ++ t)
      ((decryptStream env handles minProfile).run (World.start rt i sink)).1
      ((decryptStream env handles minProfile).run (World.start rt i sink)).2.out := by
  cases hparse : fromBytes initial with
  | error e =>
    obtain ⟨m, w', hrun, hout⟩ :=
      decryptStream_noHeader (ω := ω) env handles minProfile hread hparse rt sink
    rw [hrun, hout]
    exact StreamRun.noHeader hparse
  | ok r =>
    obtain ⟨h, n⟩ := r
    obtain ⟨hn, hr⟩ := fromBytes_eq_ok.mp hparse
    have hsplit : Input.read maxHeaderSize i = (.ok (initial.take n ++ initial.drop n), i') := by
      rw [List.take_append_drop]
      exact hread
    rcases hu : (unlock env handles minProfile h).run rt with ⟨r, rt'⟩
    cases r with
    | error e =>
      obtain ⟨w', hrun, hout⟩ := decryptStream_locked hr hsplit hu sink
      rw [hrun, hout]
      exact StreamRun.locked hparse hu
    | ok nk =>
      obtain ⟨nonce, key⟩ := nk
      cases hinit : env.aead.init key with
      | error e =>
        obtain ⟨w', hrun, hout⟩ := decryptStream_uninit env handles minProfile hsplit hinit
          (parsePrologue_unlocked hr _ hu) sink
        rw [hrun, hout]
        exact StreamRun.uninit hparse hu hinit
      | ok u =>
      obtain ⟨chunks, ending, w', hdec, hrun, hout⟩ :=
        decryptStream_unlocked hr hsplit ht hu hinit sink
      rw [hrun, hout]
      apply StreamRun.unlocked hparse hu hinit
      rw [List.take_append_of_le_length hn, List.drop_append_of_le_length hn]
      exact hdec

theorem decryptStream_inMemory (env : Env H) (handles : List H) (minProfile : Option PyStr)
    (rt : Runtime) (sink : ω) (s : Bytes) :
    StreamRun env handles minProfile rt sink (s.take maxHeaderSize) s
      ((decryptStream env handles minProfile).run (World.start rt (MemoryStream.mk s) sink)).1
      ((decryptStream env handles minProfile).run (World.start rt (MemoryStream.mk s) sink)).2.out := by
  have hread : Input.read maxHeaderSize (MemoryStream.mk s) =
    (.ok (s.take maxHeaderSize), ⟨s.drop maxHeaderSize⟩) := rfl
  have hrun := decryptStream_streamRun env handles minProfile hread
    (memoryStream_fills _).delivers rt sink
  rw [List.take_append_drop] at hrun
  exact hrun

end Run

end CryptoFlex
