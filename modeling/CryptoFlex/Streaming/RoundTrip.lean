import CryptoFlex.Api.Blob
import CryptoFlex.Streaming.DecryptRun
import CryptoFlex.Streaming.Encrypt

namespace CryptoFlex

open Lib World CryptoflexHeader

section Prologue

variable {H : Type} {env : Env H}

variable {bundle : PublicBundle} {rt : Runtime} {d : DerivedRoot} {profile : SecurityProfile H}
  {encs : List (PyStr × Encapsulation)} {nonce : Bytes}

/-- The handles that belong to the bundle unlock the header. -/
theorem Derivation.unlock {handles : List H} {minProfile : Option PyStr}
    (hm : KeysMatch profile.sources bundle.publicKeys handles)
    (hmin : NotStronger env minProfile profile)
    (hd : Derivation env bundle rt d profile encs nonce) :
    Eff.Yields (unlock env handles minProfile d.header) (.ok (nonce, d.rootKey)) := by
  have hname : d.header.profileId = bundle.profileId := by rw [hd.header]
  have hnonce : d.header.nonce = some nonce := by rw [hd.header]
  have hreg : env.profiles.lookup d.header.profileId = some profile := by
    rw [hname]
    exact hd.registered
  unfold CryptoFlex.unlock
  rw [checkDowngrade_ok hreg hmin, hnonce]
  apply (Eff.Yields.lift _).bind_ok
  dsimp only
  rw [getProfile_eq_ok.mpr hreg]
  apply Eff.Yields.bind_ok
  · apply Eff.Yields.tryCatch_ok
    apply (Eff.Yields.lift _).bind_ok
    exact recoverRootKeyInternal_of_derive hm hd
  · exact Eff.Yields.pure _

end Prologue

section Returns

variable {H ι ω : Type} [Input ι] [Output ω] {env : Env H} {k : StreamKey}

theorem encryptStep_returns (hworks : EmitWorks ι ω env k) {chunkSize : Nat} {v : EncryptVars}
    {w : World ι ω} {chunk : Bytes} {i' : ι}
    (hread : Input.read chunkSize w.reader.stream = (.ok chunk, i'))
    (hcount : chunk ≠ [] → v.sequenceNumber < maxStreamDataFrames)
    (htotal : v.totalPlaintextBytes + chunk.length ≤ maxStreamPlaintextSize)
    (hsize : chunk.length ≤ maxChunkPlaintextSize) :
    ∃ r w', (encryptStep env k.aesgcm k.headerBytes k.baseNonce chunkSize v).run w =
      (.ok r, w') := by
  have hinput : (readInput chunkSize : Eff Exc (World ι ω) Bytes).run w =
      (.ok chunk, { w with reader := { w.reader with stream := i' } }) := by
    simp only [readInput, onReader, Eff.run_zoom, StreamReader.readStream, hread]
  rw [encryptStep_eq, Eff.bind_ok hinput]
  by_cases hc : chunk = []
  · rw [if_pos hc]
    exact ⟨_, _, rfl⟩
  have hlt := hcount hc
  rw [if_neg hc, if_neg (by omega), if_neg (by omega)]
  rcases hemit : (emitFrame env k v.sequenceNumber aadTagData frameTypeData chunk).run
    ({ w with reader := { w.reader with stream := i' } } : World ι ω) with ⟨_ | u, w'⟩
  · exact absurd ⟨_, _, _, hemit⟩ (hworks _ _ _ _ (by omega) hsize (by decide) (by decide))
  · rw [Eff.bind_ok hemit]
    exact ⟨_, _, rfl⟩

/-- The loop comes to the end of every input that the stream limits allow. -/
theorem encryptLoop_returns (hworks : EmitWorks ι ω env k) {chunkSize : Nat}
    (hpos : 0 < chunkSize) (hmax : chunkSize ≤ maxChunkPlaintextSize) {v : EncryptVars}
    {w : World ι ω} {p : Bytes} (hp : Delivers w.reader.stream p)
    (hcount : v.sequenceNumber + p.length ≤ maxStreamDataFrames)
    (htotal : v.totalPlaintextBytes + p.length ≤ maxStreamPlaintextSize) :
    ∃ v' w', ((encryptLoop env k.aesgcm k.headerBytes k.baseNonce chunkSize).toEff v).run w =
      (.ok v', w') ∧ v'.sequenceNumber ≤ maxStreamDataFrames := by
  induction v, w using (encryptLoop env k.aesgcm k.headerBytes k.baseNonce chunkSize :
    Loop Exc (World ι ω) EncryptVars EncryptVars).induction generalizing p with
  | h v w ih =>
    obtain ⟨chunk, rest, i', hread, rfl, hlen, -, hrest⟩ := hp.read hpos
    rw [List.length_append] at hcount htotal
    have hchunk : chunk ≠ [] → v.sequenceNumber < maxStreamDataFrames := by
      intro hne
      have hpos := List.length_pos_iff.mpr hne
      omega
    obtain ⟨r, w₁, hrun⟩ :=
      encryptStep_returns hworks hread hchunk (by omega) (hlen.trans hmax)
    obtain ⟨r', w₁', hrun', hpass⟩ := encryptStep_pass env k chunkSize v w
    rw [hrun] at hrun'
    cases hrun'
    have hstep : ((encryptLoop env k.aesgcm k.headerBytes k.baseNonce chunkSize).step v).run w =
      (.ok r, w₁) := hrun
    cases hpass with
    | finished read emitted => exact ⟨_, w₁, Loop.run_break _ hstep, by omega⟩
    | @chunk chunk' ct i'' _ read nonempty count fits sealed emitted stream =>
      rw [hread] at read
      cases read
      rw [← stream] at hrest
      have hone := List.length_pos_iff.mpr nonempty
      obtain ⟨v', w', hloop, hle⟩ := ih _ w₁ hstep hrest (by dsimp only; omega)
        (by dsimp only; omega)
      rw [← Loop.run_continue _ hstep] at hloop
      exact ⟨v', w', hloop, hle⟩

/-- A plaintext of at most a million bytes is encrypted whatever pieces it comes in. -/
theorem encryptStream_returns (hO : Reliable ω) (ha : env.aead.Correct) {bundle : PublicBundle}
    {rt : Runtime} (hk : k.DerivedFrom env bundle rt)
    {chunkSize : Int} (hpos : 0 < chunkSize) (hmax : chunkSize ≤ maxChunkPlaintextSize) {i : ι}
    {p : Bytes} (hp : Delivers i p) (hcount : p.length ≤ maxStreamDataFrames) (sink : ω) :
    ∃ w, (encryptStream env bundle chunkSize).run (World.start rt i sink) = (.ok (), w) := by
  have hlengths := hk.lengths
  have hworks : EmitWorks ι ω env k :=
    emitWorks_of_reliable hO ha hlengths.1 hlengths.2 hk.header_length
  obtain ⟨rt₁, hkey⟩ := newStream_derived (w := World.start rt i sink) noNonceToEncrypt hk
  obtain ⟨sink₁, hwrite⟩ :=
    write_reliable hO k.headerBytes ({ World.start rt i sink with rt := rt₁ } : World ι ω)
  let w₁ : World ι ω :=
    { rt := { rt₁ with heap := rt₁.heap ++ [k.aesgcm] }, reader := { buf := [], stream := i }
      sink := sink₁, out := [] ++ k.headerBytes }
  have htotal : p.length ≤ maxStreamPlaintextSize := hcount.trans (by decide)
  have hpos' : 0 < chunkSize.toNat := by omega
  obtain ⟨v, w₂, hloop, hseq⟩ := encryptLoop_returns (w := w₁) (v := {}) hworks hpos' (by omega) hp
    (by simpa using hcount) (by simpa using htotal)
  rcases hemit : (emitFrame env k v.sequenceNumber aadTagFinal frameTypeFinal []).run w₂ with
    ⟨_ | u, w₃⟩
  · exact absurd ⟨_, _, _, hemit⟩ (hworks _ _ _ _ hseq (Nat.zero_le _) (by decide) (by decide))
  have hbody : ((do
      let key ← onRuntime (Runtime.readBuffer rt₁.heap.length)
      let aesgcm ← Eff.lift (AESGCM env.aead key)
      let v ← (encryptLoop env aesgcm k.headerBytes k.baseNonce chunkSize.toNat).toEff {}
      let finalNonce ← Eff.lift (deriveChunkNonce k.baseNonce v.sequenceNumber)
      let finalAad ← Eff.lift (deriveChunkAad k.headerBytes v.sequenceNumber aadTagFinal)
      let finalCt ← onRuntime (aesgcmEncrypt env aesgcm finalNonce [] finalAad)
      writeFrame frameTypeFinal finalCt) : Eff Exc (World ι ω) Unit).run w₁ = (.ok (), w₃) := by
    rw [Eff.bind_ok (readBuffer_run (heap_getD_append _ _) w₁ rfl),
      ha.AESGCM_of_length hlengths.1, Eff.run_lift_ok_bind, Eff.bind_ok hloop]
    exact hemit
  have hzero : (onRuntime (Runtime.zeroize rt₁.heap.length)).run w₃ =
    (.ok (), { w₃ with rt := ((Runtime.zeroize rt₁.heap.length).run w₃.rt).2 }) := rfl
  rw [encryptStream_eq, Eff.bind_ok hkey]
  unfold encryptUnder
  rw [if_neg (by omega), Eff.bind_ok hwrite, Eff.bind_ok (newBuffer_run _ _)]
  exact ⟨_, Eff.tryFinally_run hbody hzero⟩

end Returns

section Own

variable {H ω : Type} [Output ω] {env : Env H}

/-- What the owner of a stream's key makes of its header and any bytes behind it. -/
theorem decryptStream_own (hw : env.profiles.WellFormed) (ha : env.aead.Documented)
    {bundle : PublicBundle} {rt : Runtime} {t : Transcript} (ht : t.From env bundle rt)
    (hsize : t.key.headerBytes.length ≤ maxHeaderSize) {handles : List H}
    {profile : SecurityProfile H} (hreg : env.profiles.lookup bundle.profileId = some profile)
    (hm : KeysMatch profile.sources bundle.publicKeys handles) {minProfile : Option PyStr}
    (hmin : NotStronger env minProfile profile) (body : Bytes) (rt' : Runtime) (sink : ω) :
    ∃ chunks ending w', Decodes env.aead t.key 0 0 body chunks ending ∧
      (decryptStream env handles minProfile).run
          (World.start rt' (MemoryStream.mk (t.key.headerBytes ++ body)) sink) =
        (((writeAll chunks sink).1 >>= fun _ => ending >>= noTrailing).mapError Exc.collapse, w') ∧
      w'.out = (writeAll chunks sink).2 := by
  obtain ⟨d, rt₁, hderive, hbytes, hnonce, hkey⟩ := ht.derived
  obtain ⟨profile', encs, nonce, hd⟩ := deriveRootKey_eq_ok hderive
  obtain rfl := hd.profile_eq hreg
  have hbase : nonce = t.key.baseNonce := by
    rw [hd.header] at hnonce
    exact Option.some.inj hnonce
  subst hbase
  have hreads := hd.reads hw hbytes
  have hread := memoryStream_read hsize body
  have hunlock := (hd.unlock hm hmin).run_eq rt'
  obtain ⟨chunks, ending, w', hdec, hrun, hout⟩ := decryptStream_unlocked hreads hread
    (memoryStream_fills _).delivers hunlock (init_of_unlock ha hunlock) sink
  refine ⟨chunks, ending, w', ?_, hrun, hout⟩
  rw [List.take_append_drop, ← hkey] at hdec
  exact hdec

theorem decryptStream_complete (hw : env.profiles.WellFormed) (ha : env.aead.Correct)
    {bundle : PublicBundle} {rt : Runtime} {t : Transcript} (ht : t.From env bundle rt)
    (hsize : t.key.headerBytes.length ≤ maxHeaderSize) (hfinal : t.final.isSome)
    (hlimits : Limits 0 0 t.plaintexts) {handles : List H} {profile : SecurityProfile H}
    (hreg : env.profiles.lookup bundle.profileId = some profile)
    (hm : KeysMatch profile.sources bundle.publicKeys handles) {minProfile : Option PyStr}
    (hmin : NotStronger env minProfile profile) (rt' : Runtime) (hO : Reliable ω) (sink : ω) :
    ∃ w', (decryptStream env handles minProfile).run
        (World.start rt' (MemoryStream.mk t.wire) sink) = (.ok (), w') ∧
      w'.out = t.plaintexts.flatten := by
  obtain ⟨chunks, ending, w', hdec, hrun, hout⟩ :=
    decryptStream_own hw ha.toDocumented ht hsize hreg hm hmin t.frames rt' sink
  obtain ⟨ct, hct⟩ := Option.isSome_iff_exists.mp hfinal
  obtain ⟨rfl, rfl⟩ := hdec.unique (Transcript.decodes_complete ha ht.valid hlimits hct)
  rw [writeAll_reliable hO] at hrun hout
  exact ⟨w', hrun, hout⟩

theorem decryptStream_encrypted {ι ω' : Type} [Input ι] [Output ω']
    (hw : env.profiles.WellFormed) (ha : env.aead.Correct) {bundle : PublicBundle}
    {profile : SecurityProfile H} (hreg : env.profiles.lookup bundle.profileId = some profile)
    {handles : List H} (hm : KeysMatch profile.sources bundle.publicKeys handles)
    {minProfile : Option PyStr} (hmin : NotStronger env minProfile profile) {i : ι} {p : Bytes}
    (hp : Delivers i p) {chunkSize : Int} {rt : Runtime} {sink : ω'} {w : World ι ω'}
    (hrun : (encryptStream env bundle chunkSize).run (World.start rt i sink) = (.ok (), w))
    (hsize : ∀ d rt' b, (deriveRootKey env bundle).run rt = (.ok d, rt') →
      d.header.toBytes = .ok b → b.length ≤ maxHeaderSize) (rt' : Runtime) (hO : Reliable ω)
    (sink' : ω) :
    ∃ w', (decryptStream env handles minProfile).run
        (World.start rt' (MemoryStream.mk w.out) sink') = (.ok (), w') ∧ w'.out = p := by
  obtain ⟨r, w₁, hrun₁, hcase⟩ := encryptStream_run env bundle chunkSize rt i sink
  rw [hrun] at hrun₁
  cases hrun₁
  rcases hcase with ⟨⟨e, he⟩, -⟩ | ⟨t, ht, -, hwritten, hdone⟩
  · cases he
  · obtain ⟨hfinal, hout⟩ := hwritten.whole rfl
    obtain ⟨hflat, hlimits⟩ := hdone hfinal p hp
    obtain ⟨d, rt₁, hderive, hbytes, -, -⟩ := ht.derived
    obtain ⟨w', hdecrypt, hplain⟩ := decryptStream_complete hw ha ht (hsize d rt₁ _ hderive hbytes)
      hfinal hlimits hreg hm hmin rt' hO sink'
    rw [hout]
    exact ⟨w', hdecrypt, hplain.trans hflat⟩

end Own

def zeroKey : StreamKey := ⟨List.replicate 32 0, zeroHeaderBytes, List.replicate 12 0⟩

theorem zeroKey_derivedFrom (aead : Aead) :
    zeroKey.DerivedFrom (xorEnv aead) zeroBundle zeroRuntime :=
  ⟨_, _, Prod.ext (deriveRootKey_zero aead) rfl, zeroHeader_toBytes, rfl, rfl⟩

/-- Its header is short. -/
theorem zeroKey_headerSize (aead : Aead) (d : DerivedRoot) (rt' : Runtime) (b : Bytes)
    (hd : (deriveRootKey (xorEnv aead) zeroBundle).run zeroRuntime = (.ok d, rt'))
    (hb : d.header.toBytes = .ok b) : b.length ≤ maxHeaderSize := by
  have hderive := deriveRootKey_zero aead
  rw [hd] at hderive
  cases hderive
  rw [zeroHeader_toBytes] at hb
  cases hb
  decide

/-- Under an exclusive-or key set, plaintexts of up to a million bytes come back. -/
theorem decryptStream_zero {aead : Aead} (ha : aead.Correct) {ι : Type} [Input ι] {i : ι}
    {p : Bytes} (hp : Delivers i p) (hcount : p.length ≤ maxStreamDataFrames) :
    ∃ w : World ι BytesSink,
      (encryptStream (xorEnv aead) zeroBundle 2).run (World.start zeroRuntime i BytesSink.mk) =
        (.ok (), w) ∧
      ∀ rt', ∃ w' : World MemoryStream BytesSink, (decryptStream (xorEnv aead) zeroHandles none).run
        (World.start rt' (MemoryStream.mk w.out) BytesSink.mk) = (.ok (), w') ∧ w'.out = p := by
  have hpos : (0 : Int) < 2 := by decide
  have htwo : (2 : Int) ≤ maxChunkPlaintextSize := by decide
  obtain ⟨w, hrun⟩ := encryptStream_returns bytesSink_reliable ha (zeroKey_derivedFrom aead)
    hpos htwo hp hcount BytesSink.mk
  obtain ⟨profile, hreg, hm⟩ := zeroHandles_for aead
  have hmin : NotStronger (xorEnv aead) none profile := nofun
  refine ⟨w, hrun, ?_⟩
  intro rt'
  exact decryptStream_encrypted (profileRegistry_wellFormed _ _) ha hreg hm hmin hp hrun
    (zeroKey_headerSize aead) rt' bytesSink_reliable BytesSink.mk

/-- Whatever way the plaintext arrives in pieces, a stream that `encrypt_stream` has written
decrypts to it under the keys it was made for. -/
theorem decryptStream_encryptStream {K₁ K₂ : Type} (x : X25519 K₁) (o : Oqs K₂) (hkdf : Hkdf)
    (aead : Aead) (hsources : ∀ id profile, (profileRegistry x o).lookup id = some profile →
      ∀ s ∈ profile.sources, s.Correct) (ha : aead.Correct)
    (engine : PolicyEngine) (constraint : Constraint) (requireQs : Bool) (rt₀ rt₀' : Runtime)
    (keyset : KeySet (PrivateHandle K₁ K₂))
    (hkeys : (establishKeys (builtinEnv x o hkdf aead) engine constraint requireQs).run rt₀ =
      (.ok keyset, rt₀'))
    {ι ω ω' : Type} [Input ι] [Output ω] [Output ω'] (i : ι) (p : Bytes) (hp : Delivers i p)
    (chunkSize : Int) (rt : Runtime) (sink : ω) (w : World ι ω)
    (hsize : ∀ d rt' b, (deriveRootKey (builtinEnv x o hkdf aead) keyset.publicBundle).run rt =
      (.ok d, rt') → d.header.toBytes = .ok b → b.length ≤ maxHeaderSize)
    (hrun : (encryptStream (builtinEnv x o hkdf aead) keyset.publicBundle chunkSize).run
      (World.start rt i sink) = (.ok (), w))
    (minProfile : Option PyStr)
    (hmin : NotStronger (builtinEnv x o hkdf aead) minProfile keyset.profile) (rt' : Runtime)
    (hO : Reliable ω') (sink' : ω') :
    ∃ w', (decryptStream (builtinEnv x o hkdf aead) keyset.privateHandles minProfile).run
        (World.start rt' (MemoryStream.mk w.out) sink') = (.ok (), w') ∧ w'.out = p := by
  obtain ⟨hreg, hm⟩ := establishKeys_handlesFor (profileRegistry_wellFormed x o) hsources hkeys
  exact decryptStream_encrypted (profileRegistry_wellFormed x o) ha hreg hm hmin hp hrun hsize rt' hO
    sink'

theorem decryptStream_encryptStream_zero : ∃ keyset w w',
    ((establishKeys (xorEnv zeroTagAead) ⟨PolicyEngine.deprecatedMlkemTable⟩ .balanced false).run
      zeroRuntime).1 = .ok keyset ∧
    (encryptStream (xorEnv zeroTagAead) keyset.publicBundle 2).run
      (World.start zeroRuntime (Drip.mk [1, 2, 3]) BytesSink.mk) = (.ok (), w) ∧
    (decryptStream (xorEnv zeroTagAead) keyset.privateHandles (some "classical_only")).run
      (World.start zeroRuntime (MemoryStream.mk w.out) BytesSink.mk) = (.ok (), w') ∧
    w'.out = [1, 2, 3] := by
  obtain ⟨keyset, rt, hkeys, hbundle, hstrength⟩ := establishKeys_zeroKeyset
  have hpos : (0 : Int) < 2 := by decide
  have htwo : (2 : Int) ≤ maxChunkPlaintextSize := by decide
  obtain ⟨w, hrun⟩ := encryptStream_returns bytesSink_reliable zeroTagAead_correct
    (zeroKey_derivedFrom zeroTagAead) hpos htwo (drip_delivers [1, 2, 3])
    (by decide) BytesSink.mk
  have hmin : NotStronger (xorEnv zeroTagAead) (some "classical_only") keyset.profile := by
    intro minId hid
    cases hid
    refine ⟨_, rfl, ?_⟩
    rw [hstrength]
    decide
  have hsize := zeroKey_headerSize zeroTagAead
  rw [← hbundle] at hrun hsize
  obtain ⟨w', hdecrypt, hout⟩ := decryptStream_encryptStream xorX25519 xorOqs _ zeroTagAead
    profileRegistry_xor_correct zeroTagAead_correct _ _ _ _ _ keyset hkeys _ _
    (drip_delivers [1, 2, 3]) 2 zeroRuntime BytesSink.mk w hsize hrun (some "classical_only") hmin
    zeroRuntime bytesSink_reliable BytesSink.mk
  exact ⟨keyset, w, w', by rw [hkeys], hrun, hdecrypt, hout⟩

end CryptoFlex
