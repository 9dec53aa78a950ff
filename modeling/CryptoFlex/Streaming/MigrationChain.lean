import CryptoFlex.Api.Migration
import CryptoFlex.Streaming.Simulation

namespace CryptoFlex

open Lib World CryptoflexHeader

section Own

variable {H ι ω : Type} [Input ι] [Output ω] {env : Env H} {bundle : PublicBundle}
  {profile : SecurityProfile H} {chunks : List Bytes} {s : Bytes}

/-- `s` is a whole stream made for the bundle, with these chunks in its frames. -/
def StreamFor (env : Env H) (bundle : PublicBundle) (chunks : List Bytes) (s : Bytes) : Prop :=
  ∃ rt t, Transcript.From env bundle rt t ∧ t.final.isSome ∧ Limits 0 0 chunks ∧
    t.plaintexts = chunks ∧ s = t.wire

/-- Its header is read whole by the first read of a stream. -/
def ShortHeader (s : Bytes) : Prop :=
  ∃ header n, fromBytes s = .ok (header, n) ∧ n ≤ maxHeaderSize

theorem Transcript.From.header {rt : Runtime} {t : Transcript} (hw : env.profiles.WellFormed)
    (ht : t.From env bundle rt) : ∃ header,
      fromBytes t.wire = .ok (header, t.key.headerBytes.length) := by
  obtain ⟨header, hreads⟩ := ht.derived.reads hw
  exact ⟨header, fromBytes_of_reads hreads t.frames⟩

theorem Transcript.From.short {rt : Runtime} {t : Transcript} (hw : env.profiles.WellFormed)
    (ht : t.From env bundle rt) (hs : ShortHeader t.wire) :
    t.key.headerBytes.length ≤ maxHeaderSize := by
  obtain ⟨header, hparse⟩ := ht.header hw
  obtain ⟨header', n, hparse', hn⟩ := hs
  rw [hparse] at hparse'
  cases hparse'
  exact hn

/-- A first read that holds a header holds the header of the stream. -/
theorem shortHeader_of_prologue {handles : List H} {minProfile : Option PyStr} {rt rt' : Runtime}
    {p : Prologue}
    (hp : (parsePrologue env handles minProfile (s.take maxHeaderSize)).run rt = (.ok p, rt')) :
    ShortHeader s := by
  obtain ⟨header, n, hparse, -, -, -⟩ := parsePrologue_eq_ok hp
  obtain ⟨hn, hreads⟩ := fromBytes_eq_ok.mp hparse
  have hwhole := fromBytes_of_reads hreads ((s.take maxHeaderSize).drop n ++ s.drop maxHeaderSize)
  rw [← List.append_assoc, List.take_append_drop, List.take_append_drop,
    List.length_take_of_le hn] at hwhole
  have htake := List.length_take_le maxHeaderSize s
  exact ⟨header, n, hwhole, hn.trans htake⟩

theorem encryptStream_streamFor {i : ι} {p : Bytes} (hp : Delivers i p) {chunkSize : Int}
    {rt : Runtime} {sink : ω} {w : World ι ω}
    (hrun : (encryptStream env bundle chunkSize).run (World.start rt i sink) = (.ok (), w)) :
    ∃ chunks, chunks.flatten = p ∧ StreamFor env bundle chunks w.out := by
  obtain ⟨r, w₁, hrun₁, hcase⟩ := encryptStream_run env bundle chunkSize rt i sink
  rw [hrun] at hrun₁
  cases hrun₁
  rcases hcase with ⟨⟨e, he⟩, -⟩ | ⟨t, ht, -, hwritten, hdone⟩
  · cases he
  · obtain ⟨hfinal, hout⟩ := hwritten.whole rfl
    obtain ⟨hflat, hlimits⟩ := hdone hfinal p hp
    exact ⟨t.plaintexts, hflat, rt, t, ht, hfinal, hlimits, rfl, hout⟩

theorem StreamFor.frameSizes (hw : env.profiles.WellFormed) (ha : env.aead.Correct)
    (hs : StreamFor env bundle chunks s) : FrameSizes s (chunks.map List.length) := by
  obtain ⟨rt, t, ht, hfinal, hlimits, rfl, rfl⟩ := hs
  obtain ⟨ct, hct⟩ := Option.isSome_iff_exists.mp hfinal
  obtain ⟨header, hparse⟩ := ht.header hw
  have hframed := (Transcript.decodes_complete ha ht.valid hlimits hct).framed ha.toDocumented
  refine ⟨header, t.key.headerBytes.length, hparse, ?_⟩
  rw [Transcript.wire, List.drop_left]
  exact hframed

/-- The owner of the bundle unlocks the stream and finds its chunks behind the header. -/
theorem StreamFor.prologue (hw : env.profiles.WellFormed) (ha : env.aead.Correct)
    (hs : StreamFor env bundle chunks s) (hshort : ShortHeader s) {handles : List H}
    (hreg : env.profiles.lookup bundle.profileId = some profile)
    (hm : KeysMatch profile.sources bundle.publicKeys handles) {minProfile : Option PyStr}
    (hmin : NotStronger env minProfile profile) (rt : Runtime) : ∃ p rt',
      (parsePrologue env handles minProfile (s.take maxHeaderSize)).run rt = (.ok p, rt') ∧
      Decodes env.aead ⟨p.rawRootKey, p.headerBytes, p.baseNonce⟩ 0 0
        (p.unconsumedInitial ++ s.drop maxHeaderSize) chunks (.ok []) := by
  obtain ⟨rt₀, t, ht, hfinal, hlimits, rfl, rfl⟩ := hs
  have hsize := ht.short hw hshort
  obtain ⟨ct, hct⟩ := Option.isSome_iff_exists.mp hfinal
  have hdecodes := Transcript.decodes_complete ha ht.valid hlimits hct
  obtain ⟨d, rt₁, hderive, hbytes, hnonce, hkey⟩ := ht.derived
  obtain ⟨profile', encs, nonce, hd⟩ := deriveRootKey_eq_ok hderive
  obtain rfl := hd.profile_eq hreg
  have hbase : nonce = t.key.baseNonce := by
    rw [hd.header] at hnonce
    exact Option.some.inj hnonce
  have hunlock := (hd.unlock hm hmin).run_eq rt
  have htake : t.wire.take maxHeaderSize =
      t.key.headerBytes ++ t.frames.take (maxHeaderSize - t.key.headerBytes.length) := by
    rw [Transcript.wire, List.take_append, List.take_of_length_le hsize]
  have hdrop : t.wire.drop maxHeaderSize =
      t.frames.drop (maxHeaderSize - t.key.headerBytes.length) := by
    rw [Transcript.wire, List.drop_append, List.drop_eq_nil_of_le hsize, List.nil_append]
  rw [htake, hdrop, parsePrologue_of_reads env handles minProfile (hd.reads hw hbytes)]
  refine ⟨⟨nonce, t.key.headerBytes, t.frames.take (maxHeaderSize - t.key.headerBytes.length),
    d.rootKey⟩, ((unlock env handles minProfile d.header).run rt).2, ?_, ?_⟩
  · exact Eff.bind_ok hunlock _
  · dsimp only
    rw [List.take_append_drop, hbase, ← hkey]
    exact hdecodes

theorem StreamFor.decryptStream (hw : env.profiles.WellFormed) (ha : env.aead.Correct)
    (hs : StreamFor env bundle chunks s) (hshort : ShortHeader s) {handles : List H}
    (hreg : env.profiles.lookup bundle.profileId = some profile)
    (hm : KeysMatch profile.sources bundle.publicKeys handles) {minProfile : Option PyStr}
    (hmin : NotStronger env minProfile profile) {i : ι} (hi : Fills i s) (hO : Reliable ω)
    (rt : Runtime) (sink : ω) : ∃ w,
      (decryptStream env handles minProfile).run (World.start rt i sink) = (.ok (), w) ∧
      w.out = chunks.flatten := by
  obtain ⟨p, rt', hp, hdec⟩ := hs.prologue hw ha hshort hreg hm hmin rt
  obtain ⟨i', hread, hrest⟩ := hi.read (by decide : 0 < maxHeaderSize)
  obtain ⟨header, n, -, hunlock, -, -⟩ := parsePrologue_eq_ok hp
  obtain ⟨chunks', ending, w, hdec', hrun, hout⟩ := decryptStream_run env handles minProfile hread
    hrest.delivers (init_of_unlock ha.toDocumented hunlock) hp sink
  obtain ⟨rfl, rfl⟩ := hdec.unique hdec'
  rw [writeAll_reliable hO] at hrun hout
  exact ⟨w, hrun, hout⟩

/-- Migrated, it is a stream with the same chunks for the new bundle. -/
theorem StreamFor.migrateStream (hw : env.profiles.WellFormed) (ha : env.aead.Correct)
    (hs : StreamFor env bundle chunks s) (hshort : ShortHeader s) {handles : List H}
    (hreg : env.profiles.lookup bundle.profileId = some profile)
    (hm : KeysMatch profile.sources bundle.publicKeys handles) {minProfile : Option PyStr}
    (hmin : NotStronger env minProfile profile) {i : ι} (hi : Fills i s) (hO : Reliable ω)
    {newBundle : PublicBundle} {newProfile : SecurityProfile H}
    (hnew : env.Reachable newBundle newProfile) (rt : Runtime) (sink : ω) : ∃ w,
      (migrateStream env handles newBundle minProfile).run (World.start rt i sink) = (.ok (), w) ∧
      StreamFor env newBundle chunks w.out := by
  obtain ⟨p, rt', hp, hdec⟩ := hs.prologue hw ha hshort hreg hm hmin rt
  obtain ⟨i', hread, hrest⟩ := hi.read (by decide : 0 < maxHeaderSize)
  obtain ⟨d, headerBytes, rt₁, hderive, hheader⟩ := deriveRootKey_returns hnew rt
  obtain ⟨profile', encs, nonce, hd⟩ := deriveRootKey_eq_ok hderive
  have hnonce : d.header.nonce = some nonce := by rw [hd.header]
  have hkey : (StreamKey.mk d.rootKey headerBytes nonce).DerivedFrom env newBundle rt :=
    ⟨d, rt₁, hderive, hheader, hnonce, rfl⟩
  obtain ⟨sealed, final, ending, w, hrun, hdec', hfrom, hfinal, hout⟩ :=
    migrateStream_looped ha hread hrest.delivers hp hkey hO sink
  obtain ⟨hchunks, hending⟩ := hdec.unique hdec'
  rw [← hending] at hrun hfinal
  have hlimits := hdec.limits ha.toDocumented
  exact ⟨w, hrun, rt, _, hfrom, hfinal.mpr ⟨[], rfl⟩, hlimits, hchunks.symm, hout⟩

end Own

section Short

variable {H : Type} {env : Env H}

/-- Its ciphertexts leave room in a header of 64 KiB; those of the shipped KEMs have at most 1568
bytes. -/
def Source.Compact (s : Source H) : Prop :=
  ∀ pub coins coins' enc, (s.encapsulate pub).run coins = (.ok enc, coins') →
    enc.ciphertext.length ≤ 16384

/-- Every stream made under the registry has a header that the first read holds. -/
def Env.HeadersFit (env : Env H) : Prop :=
  ∀ bundle chunks s, StreamFor env bundle chunks s → ShortHeader s

theorem encapsulateAll_compact {l : List (Source H × PyStr × Bytes)}
    (hl : ∀ entry ∈ l, entry.1.Compact) {rt rt' : Runtime} {encs : List (PyStr × Encapsulation)}
    (h : (encapsulateAll l).run rt = (.ok encs, rt')) :
    ∀ e ∈ encs, e.2.ciphertext.length ≤ 16384 := by
  induction l generalizing rt encs with
  | nil =>
    cases h
    simp
  | cons entry l ih =>
    obtain ⟨source, algId, pubKey⟩ := entry
    unfold encapsulateAll at h
    split at h
    · cases h
    · obtain ⟨-, rt₁, -, h⟩ := Eff.bind_eq_ok.mp h
      obtain ⟨enc, rt₂, henc, h⟩ := Eff.bind_eq_ok.mp h
      obtain ⟨rest, rt₃, hrest, h⟩ := Eff.bind_eq_ok.mp h
      cases h
      have hhead := hl _ (List.mem_cons_self ..)
      have htail := ih (fun entry hmem => hl entry (List.mem_cons_of_mem _ hmem)) hrest
      rw [Runtime.sample, Eff.run_zoom] at henc
      have hlen := hhead pubKey rt₁.entropy _ enc (Prod.ext (Prod.mk.inj henc).1 rfl)
      simp only [List.forall_mem_cons]
      exact ⟨hlen, htail⟩

theorem componentsToBytes_compact {cs : List (PyStr × Bytes)}
    (hcs : ∀ c ∈ cs, c.2.length ≤ 16384) {b : Bytes} (h : componentsToBytes cs = .ok b) :
    b.length ≤ cs.length * 16642 := by
  induction cs generalizing b with
  | nil =>
    cases h
    simp
  | cons c cs ih =>
    obtain ⟨out, hout, h⟩ := bind_eq_ok.mp h
    obtain ⟨tail, htail, h⟩ := bind_eq_ok.mp h
    cases h
    obtain ⟨alg, -, halg, -, rfl⟩ := componentToBytes_eq_ok hout
    have hhead := hcs c (List.mem_cons_self ..)
    have hrest := ih (fun c hmem => hcs c (List.mem_cons_of_mem _ hmem)) htail
    simp only [List.length_append, List.length_cons, beEncode_length]
    omega

/-- The profiles have few sources, and these compact ciphertexts. -/
def Env.Compact (env : Env H) : Prop :=
  ∀ id p, env.profiles.lookup id = some p → p.sources.length ≤ 3 ∧ ∀ s ∈ p.sources, s.Compact

theorem Derivation.header_length_le (hsmall : env.Compact) {bundle : PublicBundle} {rt : Runtime}
    {d : DerivedRoot} {profile : SecurityProfile H} {encs : List (PyStr × Encapsulation)}
    {nonce headerBytes : Bytes} (hd : Derivation env bundle rt d profile encs nonce)
    (hbytes : d.header.toBytes = .ok headerBytes) : headerBytes.length ≤ maxHeaderSize := by
  obtain ⟨hcount, hcompact⟩ := hsmall _ _ hd.registered
  obtain ⟨rt₁, hencs⟩ := hd.encapsulated
  have hlens := encapsulateAll_compact
    (fun entry hmem => hcompact _ (List.of_mem_zip hmem).1) hencs
  have hcomponents : ∀ c ∈ d.header.components, c.2.length ≤ 16384 := by
    rw [hd.components, List.forall_mem_map]
    exact hlens
  have hids := congrArg List.length hd.ids
  have hnumber : d.header.components.length ≤ 3 := by
    rw [hd.components, List.length_map]
    simp only [List.length_map] at hids
    omega
  obtain ⟨v, name, cb, nb, -, -, -, hname, -, hcb, hnb, hb⟩ := toBytes_eq_ok hbytes
  have hbody := componentsToBytes_compact hcomponents hcb
  have hnonce : nb.length ≤ 12 := by
    rcases nonceToBytes_eq_ok hnb with ⟨-, rfl⟩ | ⟨-, -, hlen⟩
    · simp
    · exact le_of_eq hlen
  have hmagic : magic.length = 4 := rfl
  rw [hb]
  simp only [List.length_append, beEncode_length, maxHeaderSize]
  omega

theorem headersFit (hw : env.profiles.WellFormed) (hsmall : env.Compact) : env.HeadersFit := by
  intro bundle chunks s hs
  obtain ⟨rt, t, ht, -, -, -, rfl⟩ := hs
  obtain ⟨header, hparse⟩ := ht.header hw
  obtain ⟨d, rt', hderive, hbytes, -, -⟩ := ht.derived
  obtain ⟨profile, encs, nonce, hd⟩ := deriveRootKey_eq_ok hderive
  exact ⟨header, t.key.headerBytes.length, hparse, hd.header_length_le hsmall hbytes⟩

theorem builtinEnv_headersFit {K₁ K₂ : Type} (x : X25519 K₁) (o : Oqs K₂) (hkdf : Hkdf)
    (aead : Aead) (hsmall : ∀ id p, (profileRegistry x o).lookup id = some p →
      ∀ s ∈ p.sources, s.Compact) : (builtinEnv x o hkdf aead).HeadersFit := by
  apply headersFit (profileRegistry_wellFormed x o)
  intro id p h
  refine ⟨?_, hsmall id p h⟩
  refine profileRegistry_cases ?_ ?_ ?_ h <;> simp

end Short

section Chains

variable {H : Type} {env : Env H} {k : KeySet H} {chunks : List Bytes} {s : Bytes}

/-- Migrate a stream from key set to key set; the last one and its stream. -/
def migrateStreams (env : Env H) : KeySet H → Bytes → List (MigrationStep H) →
    Except Exc (KeySet H × Bytes)
  | k, s, [] => .ok (k, s)
  | k, s, step :: steps => do
    let (r, w) := (migrateStream env k.privateHandles step.keyset.publicBundle
      step.minProfile).run (World.start step.rt (MemoryStream.mk s) BytesSink.mk)
    r
    migrateStreams env step.keyset w.out steps

theorem migrateStreams_returns (he : env.Sound) (hfit : env.HeadersFit) (hk : Established env k)
    (hs : StreamFor env k.publicBundle chunks s) {steps : List (MigrationStep H)}
    (hsteps : Permitted env k steps) : ∃ kn result,
      migrateStreams env k s steps = .ok (kn, result) ∧ Established env kn ∧
      StreamFor env kn.publicBundle chunks result := by
  induction steps generalizing k s with
  | nil => exact ⟨k, s, rfl, hk, hs⟩
  | cons step steps ih =>
    obtain ⟨hmin, hnew, hrest⟩ := hsteps
    obtain ⟨hreach, hm⟩ := hk.usable he
    obtain ⟨hreach', -⟩ := hnew.usable he
    obtain ⟨w, hrun, hs'⟩ := hs.migrateStream he.wellFormed he.aead (hfit _ _ _ hs)
      hreach.registered hm hmin (memoryStream_fills s) bytesSink_reliable hreach' step.rt
      BytesSink.mk
    obtain ⟨kn, result, hall, hresult⟩ := ih hnew hs' hrest
    refine ⟨kn, result, ?_, hresult⟩
    rw [migrateStreams, hrun]
    exact hall

end Chains

/-- However long the chain of key sets, every migration of the stream returns, its frames keep
their sizes and the last key set decrypts it to the plaintext. -/
theorem streamMigrations_roundTrip {K₁ K₂ : Type} (x : X25519 K₁) (o : Oqs K₂) (hkdf : Hkdf)
    (aead : Aead) (ha : aead.Correct)
    (hkem : ∀ id p, (profileRegistry x o).lookup id = some p → ∀ s ∈ p.sources, s.Kem)
    (hsmall : ∀ id p, (profileRegistry x o).lookup id = some p → ∀ s ∈ p.sources, s.Compact)
    (k : KeySet (PrivateHandle K₁ K₂)) (hk : Established (builtinEnv x o hkdf aead) k)
    {ι ω : Type} [Input ι] [Output ω] (i : ι) (plaintext : Bytes) (hp : Delivers i plaintext)
    (chunkSize : Int) (rt : Runtime) (sink : ω) (w : World ι ω)
    (hrun : (encryptStream (builtinEnv x o hkdf aead) k.publicBundle chunkSize).run
      (World.start rt i sink) = (.ok (), w))
    (steps : List (MigrationStep (PrivateHandle K₁ K₂)))
    (hsteps : Permitted (builtinEnv x o hkdf aead) k steps) : ∃ kn result sizes,
      migrateStreams (builtinEnv x o hkdf aead) k w.out steps = .ok (kn, result) ∧
      FrameSizes w.out sizes ∧ FrameSizes result sizes ∧
      ∀ minProfile rt', NotStronger (builtinEnv x o hkdf aead) minProfile kn.profile →
        ∃ w' : World MemoryStream BytesSink,
          (decryptStream (builtinEnv x o hkdf aead) kn.privateHandles minProfile).run
            (World.start rt' (MemoryStream.mk result) BytesSink.mk) = (.ok (), w') ∧
          w'.out = plaintext := by
  have hw := profileRegistry_wellFormed x o
  have he : (builtinEnv x o hkdf aead).Sound := ⟨hw, profileRegistry_writable x o, hkem, ha⟩
  have hfit := builtinEnv_headersFit x o hkdf aead hsmall
  obtain ⟨chunks, hflat, hs⟩ := encryptStream_streamFor hp hrun
  obtain ⟨kn, result, hall, hkn, hresult⟩ := migrateStreams_returns he hfit hk hs hsteps
  refine ⟨kn, result, chunks.map List.length, hall, hs.frameSizes hw ha,
    hresult.frameSizes hw ha, ?_⟩
  intro minProfile rt' hmin
  obtain ⟨hreach, hm⟩ := hkn.usable he
  rw [← hflat]
  exact hresult.decryptStream hw ha (hfit _ _ _ hresult) hreach.registered hm hmin
    (memoryStream_fills result) bytesSink_reliable rt' BytesSink.mk

theorem profileRegistry_xor_compact (id : PyStr) (p : SecurityProfile (PrivateHandle Bytes Bytes))
    (h : (profileRegistry xorX25519 xorOqs).lookup id = some p) : ∀ s ∈ p.sources, s.Compact := by
  refine profileRegistry_sources ?_ ?_ h
  · intro pub coins coins' enc henc
    obtain ⟨priv, coins₁, hpriv, henc⟩ := Eff.bind_eq_ok.mp henc
    obtain ⟨peer, coins₂, -, henc⟩ := Eff.bind_eq_ok.mp henc
    obtain ⟨secret, coins₃, -, henc⟩ := Eff.bind_eq_ok.mp henc
    cases henc
    cases hpriv
    simp [xorX25519]
  · intro kemName hk pub coins coins' enc henc
    obtain ⟨-, coins₁, -, henc⟩ := Eff.bind_eq_ok.mp henc
    obtain ⟨pair, coins₂, hpair, henc⟩ := Eff.bind_eq_ok.mp henc
    cases henc
    cases hpair
    simp only [List.length_zipWith, List.length_map, List.length_range]
    omega

theorem streamMigrations_roundTrip_zero : ∃ keyset w kn result,
    (encryptStream (xorEnv zeroTagAead) keyset.publicBundle 2).run
      (World.start zeroRuntime (Drip.mk [1, 2, 3]) BytesSink.mk) = (.ok (), w) ∧
    migrateStreams (xorEnv zeroTagAead) keyset w.out
      [⟨some "classical_only", keyset, zeroRuntime⟩, ⟨none, keyset, zeroRuntime⟩] =
        .ok (kn, result) ∧
    ∃ w' : World MemoryStream BytesSink,
      (decryptStream (xorEnv zeroTagAead) kn.privateHandles none).run
        (World.start zeroRuntime (MemoryStream.mk result) BytesSink.mk) = (.ok (), w') ∧
      w'.out = [1, 2, 3] := by
  obtain ⟨keyset, rt, hkeys, hbundle, hstrength⟩ := establishKeys_zeroKeyset
  have hk : Established (xorEnv zeroTagAead) keyset := ⟨_, _, _, _, _, hkeys⟩
  have hmin : NotStronger (xorEnv zeroTagAead) (some "classical_only") keyset.profile := by
    intro minId hid
    cases hid
    refine ⟨_, rfl, ?_⟩
    rw [hstrength]
    decide
  have hnone : ∀ profile, NotStronger (xorEnv zeroTagAead) none profile := by
    intro profile minId hid
    cases hid
  have hsteps : Permitted (xorEnv zeroTagAead) keyset
    [⟨some "classical_only", keyset, zeroRuntime⟩, ⟨none, keyset, zeroRuntime⟩] :=
    ⟨hmin, hk, hnone _, hk, trivial⟩
  have hpos : (0 : Int) < 2 := by decide
  have htwo : (2 : Int) ≤ maxChunkPlaintextSize := by decide
  obtain ⟨w, hrun⟩ := encryptStream_returns bytesSink_reliable zeroTagAead_correct
    (zeroKey_derivedFrom zeroTagAead) hpos htwo (drip_delivers [1, 2, 3])
    (by decide) BytesSink.mk
  rw [← hbundle] at hrun
  obtain ⟨kn, result, sizes, hall, -, -, hdecrypt⟩ := streamMigrations_roundTrip xorX25519 xorOqs
    _ zeroTagAead zeroTagAead_correct profileRegistry_xor_kem profileRegistry_xor_compact keyset hk
    _ _ (drip_delivers [1, 2, 3]) 2 zeroRuntime BytesSink.mk w hrun _ hsteps
  obtain ⟨w', hrun', hout⟩ := hdecrypt none zeroRuntime (hnone _)
  exact ⟨keyset, w, kn, result, hrun, hall, w', hrun', hout⟩

end CryptoFlex
