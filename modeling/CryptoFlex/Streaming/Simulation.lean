import CryptoFlex.Streaming.MigrateRun
import CryptoFlex.Streaming.RoundTrip

namespace CryptoFlex

open Lib World CryptoflexHeader

/-- The plaintext sizes of the DATA frames up to an end mark that nothing follows. -/
inductive Framed : Nat → Nat → Bytes → List Nat → Prop
  | data {seq total : Nat} {bs rest ct : Bytes} {sizes : List Nat}
    (frame : (nextFrame seq total).run bs = .ok (.data ct, rest))
    (more : Framed (seq + 1) (total + (ct.length - 16)) rest sizes) :
    Framed seq total bs ((ct.length - 16) :: sizes)
  | final {seq total : Nat} {bs ct : Bytes}
    (frame : (nextFrame seq total).run bs = .ok (.final ct, [])) : Framed seq total bs []

/-- `s` is a header with frames behind it that carry plaintexts of these sizes. -/
def FrameSizes (s : Bytes) (sizes : List Nat) : Prop :=
  ∃ h n, fromBytes s = .ok (h, n) ∧ Framed 0 0 (s.drop n) sizes

theorem Decodes.framed {aead : Aead} (ha : aead.Documented) {k : StreamKey} {seq total : Nat}
    {bs : Bytes} {chunks : List Bytes} (h : Decodes aead k seq total bs chunks (.ok [])) :
    Framed seq total bs (chunks.map List.length) := by
  generalize hr : (Except.ok [] : Except Exc Bytes) = ending at h
  induction h with
  | malformed _ => cases hr
  | rejected _ _ => cases hr
  | final frame opened =>
    cases hr
    exact Framed.final frame
  | @data seq total bs rest ct pt chunks ending frame opened more ih =>
    have hlen : pt.length = ct.length - 16 := by
      have htag := StreamKey.openCt_length ha opened
      omega
    have hmore := ih hr
    rw [hlen] at hmore
    rw [List.map_cons, hlen]
    exact Framed.data frame hmore

/-- The two sequence counters agree in every state of the loop, so no divergence is reported. -/
theorem migrateLoop_counters {H ι ω : Type} [Input ι] [Output ω] (env : Env H)
    (old new : StreamKey) {v : MigrateVars} {w w' : World ι ω}
    (h : (migrateLoop env old.aesgcm old.headerBytes old.baseNonce new.aesgcm new.headerBytes
      new.baseNonce).Reaches {} w v w') : v.sequenceNumber = v.newSequenceNumber := by
  have hstep : ∀ (v : MigrateVars) (w : World ι ω) v' w',
      v.sequenceNumber = v.newSequenceNumber →
      ((migrateLoop env old.aesgcm old.headerBytes old.baseNonce new.aesgcm new.headerBytes
        new.baseNonce).step v).run w = (.ok (.inl v'), w') →
      v'.sequenceNumber = v'.newSequenceNumber := by
    intro v w v' w' hv hrun
    obtain ⟨-, hold, hnew⟩ := migrateStep_continue hrun
    rw [hold, hnew, hv]
  exact Loop.Reaches.invariant _ hstep h rfl

theorem noTrailing_eq_ok {ending : Except Exc Bytes}
    (h : (ending >>= noTrailing).mapError Exc.collapse = .ok ()) : ending = .ok [] := by
  cases ending with
  | error e => cases h
  | ok rest =>
    by_cases hr : rest = []
    · rw [hr]
    · rw [ok_bind, noTrailing, if_neg hr] at h
      cases h

section Simulation

variable {H ι ω ω' : Type} [Input ι] [Output ω] [Output ω'] {env : Env H}

theorem prologue_drop {handles : List H} {minProfile : Option PyStr} {s : Bytes}
    {rt rt' : Runtime} {p : Prologue}
    (hp : (parsePrologue env handles minProfile (s.take maxHeaderSize)).run rt = (.ok p, rt')) :
    ∃ h n, fromBytes s = .ok (h, n) ∧
      p.unconsumedInitial ++ s.drop maxHeaderSize = s.drop n := by
  obtain ⟨header, n, hparse, -, -, hrest⟩ := parsePrologue_eq_ok hp
  obtain ⟨hn, hreads⟩ := fromBytes_eq_ok.mp hparse
  have hwhole := fromBytes_of_reads hreads ((s.take maxHeaderSize).drop n ++ s.drop maxHeaderSize)
  rw [← List.append_assoc, List.take_append_drop, List.take_append_drop,
    List.length_take_of_le hn] at hwhole
  refine ⟨header, n, hwhole, ?_⟩
  rw [hrest, ← List.drop_append_of_le_length hn, List.take_append_drop]

theorem migrateStream_decryptStream (hw : env.profiles.WellFormed) (ha : env.aead.Correct) {i : ι}
    {s : Bytes} (hi : Fills i s) (handles : List H) (minProfile : Option PyStr)
    {newBundle : PublicBundle} {newHandles : List H} (hm : env.HandlesFor newBundle newHandles)
    {rt : Runtime} {new : StreamKey} (hnew : new.DerivedFrom env newBundle rt)
    (hsize : new.headerBytes.length ≤ maxHeaderSize) (hO : Reliable ω) (hO' : Reliable ω')
    (sink : ω) (sink' : ω') : ∃ r w w',
      (migrateStream env handles newBundle minProfile).run (World.start rt i sink) = (r, w) ∧
      (decryptStream env handles minProfile).run (World.start rt i sink') = (r, w') ∧
      (r = .ok () → (∀ rt', ∃ w'', (decryptStream env newHandles none).run
          (World.start rt' (MemoryStream.mk w.out) sink') = (.ok (), w'') ∧ w''.out = w'.out) ∧
        ∃ sizes, FrameSizes s sizes ∧ FrameSizes w.out sizes) := by
  obtain ⟨i', hread, hrest⟩ := hi.read (by decide : 0 < maxHeaderSize)
  rcases hp : (parsePrologue env handles minProfile (s.take maxHeaderSize)).run rt with ⟨r, rt'⟩
  cases r with
  | error e =>
    obtain ⟨w, hmigrate, -⟩ := migrateStream_refused newBundle hread hp sink
    obtain ⟨w', hdecrypt, -⟩ := decryptStream_refused env handles minProfile hread hp sink'
    exact ⟨_, w, w', hmigrate, hdecrypt, nofun⟩
  | ok p =>
    obtain ⟨header, n, -, hunlock, -, -⟩ := parsePrologue_eq_ok hp
    obtain ⟨chunks, ending, w', hdec, hdecrypt, hout'⟩ :=
      decryptStream_run env handles minProfile hread hrest.delivers
        (init_of_unlock ha.toDocumented hunlock) hp sink'
    obtain ⟨sealed, final, ending', w, hmigrate, hdec', hfrom, hfinal, hout⟩ :=
      migrateStream_looped ha hread hrest.delivers hp hnew hO sink
    obtain ⟨rfl, rfl⟩ := hdec.unique hdec'
    rw [writeAll_reliable hO', ok_bind] at hdecrypt
    rw [writeAll_reliable hO'] at hout'
    refine ⟨_, w, w', hmigrate, hdecrypt, ?_⟩
    intro hr
    have hending := noTrailing_eq_ok hr
    subst hending
    have hlimits := hdec.limits ha.toDocumented
    have hsome : final.isSome := hfinal.mpr ⟨[], rfl⟩
    obtain ⟨profile, hreg, hmatch⟩ := hm
    have hmin : NotStronger env none profile := nofun
    refine ⟨?_, sealed.map (fun c => c.1.length), ?_, ?_⟩
    · intro rt''
      obtain ⟨w'', hown, hplain⟩ := decryptStream_complete hw ha hfrom hsize hsome hlimits hreg
        hmatch hmin rt'' hO' sink'
      rw [hout, hout']
      exact ⟨w'', hown, hplain⟩
    · obtain ⟨h, n, hparse, hdrop⟩ := prologue_drop hp
      have hframed := hdec.framed ha.toDocumented
      rw [hdrop, List.map_map] at hframed
      exact ⟨h, n, hparse, hframed⟩
    · obtain ⟨d, rt₁, hderive, hbytes, -, -⟩ := hnew
      obtain ⟨profile', encs, nonce, hd⟩ := deriveRootKey_eq_ok hderive
      obtain ⟨ct, hct⟩ := Option.isSome_iff_exists.mp hsome
      have hown := Transcript.decodes_complete ha hfrom.valid hlimits hct
      have hframed := hown.framed ha.toDocumented
      rw [Transcript.plaintexts, List.map_map] at hframed
      refine ⟨d.header, new.headerBytes.length, ?_, ?_⟩
      · rw [hout]
        exact fromBytes_of_reads (hd.reads hw hbytes) _
      · rw [hout, Transcript.wire, List.drop_left]
        exact hframed

end Simulation

/-- Migrating a stream is decrypting it and encrypting it again with the same chunks. -/
theorem migrateStream_simulates {K₁ K₂ : Type} (x : X25519 K₁) (o : Oqs K₂) (hkdf : Hkdf)
    (aead : Aead) (ha : aead.Correct) {ι ω ω' : Type} [Input ι] [Output ω] [Output ω'] (i : ι)
    (s : Bytes) (hi : Fills i s) (handles : List (PrivateHandle K₁ K₂))
    (minProfile : Option PyStr) (newBundle : PublicBundle)
    (newHandles : List (PrivateHandle K₁ K₂))
    (hm : (builtinEnv x o hkdf aead).HandlesFor newBundle newHandles) (rt : Runtime)
    (new : StreamKey) (hnew : new.DerivedFrom (builtinEnv x o hkdf aead) newBundle rt)
    (hsize : new.headerBytes.length ≤ maxHeaderSize) (hO : Reliable ω) (hO' : Reliable ω')
    (sink : ω) (sink' : ω') :
    (∃ r w w',
      (migrateStream (builtinEnv x o hkdf aead) handles newBundle minProfile).run
        (World.start rt i sink) = (r, w) ∧
      (decryptStream (builtinEnv x o hkdf aead) handles minProfile).run
        (World.start rt i sink') = (r, w') ∧
      (r = .ok () →
        (∀ rt', ∃ w'', (decryptStream (builtinEnv x o hkdf aead) newHandles none).run
          (World.start rt' (MemoryStream.mk w.out) sink') = (.ok (), w'') ∧ w''.out = w'.out) ∧
        ∃ sizes, FrameSizes s sizes ∧ FrameSizes w.out sizes)) ∧
    ∀ (old new : StreamKey) (v : MigrateVars) (w w' : World ι ω),
      (migrateLoop (builtinEnv x o hkdf aead) old.aesgcm old.headerBytes old.baseNonce new.aesgcm
        new.headerBytes new.baseNonce).Reaches {} w v w' →
      v.sequenceNumber = v.newSequenceNumber :=
  ⟨migrateStream_decryptStream (profileRegistry_wellFormed x o) ha hi handles minProfile hm hnew
      hsize hO hO' sink sink',
    fun old new _ _ _ h => migrateLoop_counters _ old new h⟩

theorem migrateStream_simulates_zero : ∃ (w₀ : World Drip BytesSink)
    (w w' : World MemoryStream BytesSink) (sizes : List Nat),
    (encryptStream (xorEnv zeroTagAead) zeroBundle 2).run
      (World.start zeroRuntime (Drip.mk [1, 2, 3]) BytesSink.mk) = (.ok (), w₀) ∧
    (migrateStream (xorEnv zeroTagAead) zeroHandles zeroBundle none).run
      (World.start zeroRuntime (MemoryStream.mk w₀.out) BytesSink.mk) = (.ok (), w) ∧
    (decryptStream (xorEnv zeroTagAead) zeroHandles none).run
      (World.start zeroRuntime (MemoryStream.mk w.out) BytesSink.mk) = (.ok (), w') ∧
    w'.out = [1, 2, 3] ∧ FrameSizes w₀.out sizes ∧ FrameSizes w.out sizes := by
  obtain ⟨w₀, hencrypt, hdecrypt⟩ := decryptStream_zero zeroTagAead_correct
    (drip_delivers [1, 2, 3]) (by decide)
  obtain ⟨w₁, hrun₁, hout₁⟩ := hdecrypt zeroRuntime
  obtain ⟨⟨r, w, w₁', hmigrate, hold, hok⟩, -⟩ := migrateStream_simulates xorX25519 xorOqs
    xorHkdf zeroTagAead zeroTagAead_correct (MemoryStream.mk w₀.out) w₀.out (memoryStream_fills _)
    zeroHandles none zeroBundle zeroHandles (zeroHandles_for zeroTagAead) zeroRuntime zeroKey
    (zeroKey_derivedFrom zeroTagAead) (by decide) bytesSink_reliable bytesSink_reliable
    BytesSink.mk BytesSink.mk
  have henv : builtinEnv xorX25519 xorOqs xorHkdf zeroTagAead = xorEnv zeroTagAead := rfl
  rw [henv] at hmigrate hold hok
  have hsame := hrun₁.symm.trans hold
  cases hsame
  obtain ⟨hnew, sizes, hsizes, hsizes'⟩ := hok rfl
  obtain ⟨w', hrun, hout⟩ := hnew zeroRuntime
  exact ⟨w₀, w, w', sizes, hencrypt, hmigrate, hrun, hout.trans hout₁, hsizes, hsizes'⟩

end CryptoFlex
