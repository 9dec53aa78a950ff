import CryptoFlex.Api.Blob
import CryptoFlex.Streaming.Transcript

namespace CryptoFlex

open Lib World

variable {H ι ω : Type}

/-! ### Writing frames to a stream that may fail -/

/-- `x` writes `b`: all of it if it returns, and a first part if it raises. -/
def Appends (b : Bytes) (x : Eff Exc (World ι ω) Unit) : Prop :=
  ∀ w, ∃ r w' written, x.run w = (r, w') ∧ w'.rt = w.rt ∧ w'.reader = w.reader ∧
    w'.out = w.out ++ written ∧ written <+: b ∧ (r = .ok () → written = b)

theorem Appends.bind {b b' : Bytes} {x : Eff Exc (World ι ω) Unit}
    {f : Unit → Eff Exc (World ι ω) Unit} (hx : Appends b x) (hf : Appends b' (f ())) :
    Appends (b ++ b') (x >>= f) := by
  intro w
  obtain ⟨r, w1, written, hrun, hrt, hreader, hout, hpre, hall⟩ := hx w
  cases r with
  | error e =>
    refine ⟨_, w1, written, Eff.bind_error hrun f, hrt, hreader, hout,
      hpre.trans (List.prefix_append b b'), ?_⟩
    intro h
    cases h
  | ok u =>
    obtain ⟨r', w2, written', hrun', hrt', hreader', hout', hpre', hall'⟩ := hf w1
    have hw := hall rfl
    subst hw
    refine ⟨r', w2, written ++ written', ?_, hrt'.trans hrt, hreader'.trans hreader, ?_,
      (List.prefix_append_right_inj written).mpr hpre', ?_⟩
    · rw [Eff.bind_ok hrun]
      exact hrun'
    · rw [hout', hout, List.append_assoc]
    · intro h
      rw [hall' h]

theorem Appends.pack {n : Nat} {v : Int} {b : Bytes} {f : Bytes → Eff Exc (World ι ω) Unit}
    (hf : ∀ p, CryptoFlex.pack n v = .ok p → Appends b (f p)) :
    Appends b (Eff.lift (CryptoFlex.pack n v) >>= f) := by
  cases hp : CryptoFlex.pack n v with
  | error e =>
    intro w
    refine ⟨.error e, w, [], rfl, rfl, rfl, (List.append_nil _).symm, List.nil_prefix, ?_⟩
    intro h
    cases h
  | ok p => exact hf p hp

section Write

variable [Output ω]

theorem Appends.write (b : Bytes) : Appends b (World.write b : Eff Exc (World ι ω) Unit) := by
  intro w
  rcases hs : Output.write b w.sink with ⟨_ | ⟨n, e⟩, sink⟩
  · exact ⟨_, _, b, write_ok hs, rfl, rfl, rfl, List.prefix_rfl, fun _ => rfl⟩
  · refine ⟨_, _, b.take n, write_error hs, rfl, rfl, rfl, List.take_prefix n b, ?_⟩
    intro h
    cases h

theorem writeFrame_appends (frameType : Nat) (ct : Bytes) :
    Appends (frameBytes frameType ct) (writeFrame frameType ct : Eff Exc (World ι ω) Unit) := by
  apply Appends.pack
  intro typeByte htype
  obtain ⟨-, rfl⟩ := pack_eq_ok htype
  apply (Appends.write _).bind
  apply Appends.pack
  intro length hlength
  obtain ⟨-, rfl⟩ := pack_eq_ok hlength
  exact (Appends.write _).bind (Appends.write ct)

theorem writeFrame_reliable (hO : Reliable ω) {frameType : Nat} (ht : frameType < 256) {ct : Bytes}
    (hc : ct.length < 256 ^ 4) (w : World ι ω) :
    ∃ w', (writeFrame frameType ct).run w = (.ok (), w') ∧ w'.rt = w.rt ∧ w'.reader = w.reader ∧
      w'.out = w.out ++ frameBytes frameType ct := by
  obtain ⟨r, w', written, hrun, hrt, hreader, hout, -, hall⟩ :=
    writeFrame_appends frameType ct w
  have hr : r = .ok () := by
    unfold writeFrame at hrun
    obtain ⟨s1, h1⟩ := write_reliable hO (beEncode 1 frameType) w
    obtain ⟨s2, h2⟩ := write_reliable hO (beEncode 4 ct.length) { w with
      sink := s1, out := w.out ++ beEncode 1 frameType }
    obtain ⟨s3, h3⟩ := write_reliable hO ct { w with
      sink := s2, out := w.out ++ beEncode 1 frameType ++ beEncode 4 ct.length }
    rw [pack_nat (by simpa using ht), Eff.run_lift_ok_bind, Eff.bind_ok h1, pack_nat hc,
      Eff.run_lift_ok_bind, Eff.bind_ok h2, h3] at hrun
    exact (Prod.mk.inj hrun).1.symm
  subst hr
  exact ⟨w', hrun, hrt, hreader, by rw [hout, hall rfl]⟩

/-- A frame that failed to be written is not there in full. -/
theorem writeFrame_cut (hF : FailsEarly ω) {frameType : Nat} {ct : Bytes} (hct : ct ≠ [])
    {w w' : World ι ω} {e : Exc} (h : (writeFrame frameType ct).run w = (.error e, w')) :
    w'.out.length < w.out.length + (frameBytes frameType ct).length := by
  have hpos := List.length_pos_iff.mpr hct
  have hframe : (frameBytes frameType ct).length = 1 + (4 + ct.length) := by
    simp [frameBytes, beEncode_length]
  unfold writeFrame at h
  cases htype : pack 1 frameType with
  | error e =>
    rw [htype] at h
    cases h
    omega
  | ok typeByte =>
  obtain ⟨-, rfl⟩ := pack_eq_ok htype
  rw [htype, Eff.run_lift_ok_bind] at h
  rcases h1 : Output.write (beEncode 1 frameType) w.sink with ⟨_ | ⟨k, e⟩, s1⟩
  swap
  · rw [Eff.bind_error (write_error h1)] at h
    cases h
    simp only [List.length_append, List.length_take, beEncode_length]
    omega
  rw [Eff.bind_ok (write_ok h1)] at h
  cases hlength : pack 4 ct.length with
  | error e =>
    rw [hlength] at h
    cases h
    simp only [List.length_append, beEncode_length]
    omega
  | ok length =>
  obtain ⟨-, rfl⟩ := pack_eq_ok hlength
  rw [hlength, Eff.run_lift_ok_bind] at h
  rcases h2 : Output.write (beEncode 4 ct.length) s1 with ⟨_ | ⟨k, e⟩, s2⟩
  swap
  · rw [Eff.bind_error (write_error h2)] at h
    cases h
    simp only [List.length_append, List.length_take, beEncode_length]
    omega
  rw [Eff.bind_ok (write_ok h2)] at h
  rcases h3 : Output.write ct s2 with ⟨_ | ⟨k, e⟩, s3⟩
  · rw [write_ok h3] at h
    cases h
  · have hk := hF _ _ _ _ _ h3 hct
    rw [write_error h3] at h
    cases h
    simp only [List.length_append, List.length_take, beEncode_length]
    omega

/-! ### Sealing and writing one frame -/

/-- The part of a loop pass that seals a plaintext and writes its frame. -/
def emitFrame (env : Env H) (k : StreamKey) (seq : Nat) (tag : Bytes) (frameType : Nat)
    (pt : Bytes) : Eff Exc (World ι ω) Unit := do
  let nonce ← Eff.lift (deriveChunkNonce k.baseNonce seq)
  let aad ← Eff.lift (deriveChunkAad k.headerBytes seq tag)
  let ctWithTag ← onRuntime (aesgcmEncrypt env k.aesgcm nonce pt aad)
  writeFrame frameType ctWithTag

/-- All that it can do. -/
inductive Emission (aead : Aead) (k : StreamKey) (seq : Nat) (tag : Bytes) (frameType : Nat)
    (pt : Bytes) (w : World ι ω) : Except Exc Unit → World ι ω → Prop
  | unsealed {e : Exc} {w' : World ι ω} (failed : k.sealPt aead seq tag pt = .error e)
    (seals : w'.rt.seals = w.rt.seals) (out : w'.out = w.out) :
    Emission aead k seq tag frameType pt w (.error e) w'
  | unwritten {ct written : Bytes} {e : Exc} {w' : World ι ω}
    (sealed : k.sealPt aead seq tag pt = .ok ct)
    (failed : ∃ w₀ : World ι ω, (writeFrame frameType ct).run w₀ = (.error e, w') ∧ w₀.out = w.out)
    (seals : w'.rt.seals = w.rt.seals ++ [k.sealOf seq tag pt ct])
    (out : w'.out = w.out ++ written) (part : written <+: frameBytes frameType ct) :
    Emission aead k seq tag frameType pt w (.error e) w'
  | written {ct : Bytes} {w' : World ι ω} (sealed : k.sealPt aead seq tag pt = .ok ct)
    (seals : w'.rt.seals = w.rt.seals ++ [k.sealOf seq tag pt ct])
    (out : w'.out = w.out ++ frameBytes frameType ct) :
    Emission aead k seq tag frameType pt w (.ok ()) w'

theorem emitFrame_emission (env : Env H) (k : StreamKey) (seq : Nat) (tag : Bytes)
    (frameType : Nat) (pt : Bytes) (w : World ι ω) :
    ∃ r w', (emitFrame env k seq tag frameType pt).run w = (r, w') ∧ w'.reader = w.reader ∧
      w'.rt.heap = w.rt.heap ∧ Emission env.aead k seq tag frameType pt w r w' := by
  unfold emitFrame
  cases hn : deriveChunkNonce k.baseNonce seq with
  | error e =>
    exact ⟨_, w, rfl, rfl, rfl, Emission.unsealed (by rw [StreamKey.sealPt, hn]; rfl) rfl rfl⟩
  | ok nonce =>
    cases ha : deriveChunkAad k.headerBytes seq tag with
    | error e =>
      exact ⟨_, w, rfl, rfl, rfl,
        Emission.unsealed (by rw [StreamKey.sealPt, hn, ok_bind, ha]; rfl) rfl rfl⟩
    | ok aad =>
      have hseal : k.sealPt env.aead seq tag pt = env.aead.encrypt k.aesgcm nonce pt aad := by
        rw [StreamKey.sealPt, hn, ok_bind, ha, ok_bind]
      rw [Eff.run_lift_ok_bind, Eff.run_lift_ok_bind]
      cases he : env.aead.encrypt k.aesgcm nonce pt aad with
      | error e =>
        rw [he] at hseal
        have hrun : (onRuntime (aesgcmEncrypt env k.aesgcm nonce pt aad)).run w = (.error e,
            { w with rt := { w.rt with trace := w.rt.trace ++
              [.aeadEncrypt k.aesgcm nonce aad pt (.error e)] } }) := by
          rw [onRuntime, Eff.run_zoom, aesgcmEncrypt_run, he]
        refine ⟨_, _, Eff.bind_error hrun _, rfl, rfl, Emission.unsealed hseal ?_ rfl⟩
        simp [Runtime.seals, Event.seal?]
      | ok ct =>
        rw [he] at hseal
        have hrun : (onRuntime (aesgcmEncrypt env k.aesgcm nonce pt aad)).run w = (.ok ct,
            { w with rt := { w.rt with trace := w.rt.trace ++
              [.aeadEncrypt k.aesgcm nonce aad pt (.ok ct)] } }) := by
          rw [onRuntime, Eff.run_zoom, aesgcmEncrypt_run, he]
        have hsealOf : k.sealOf seq tag pt ct = ⟨k.aesgcm, nonce, aad, pt, ct⟩ := by
          rw [StreamKey.sealOf, StreamKey.nonceAt, StreamKey.aadAt, (deriveChunkNonce_eq_ok hn).2,
            (deriveChunkAad_eq_ok ha).2]
        obtain ⟨r, w', written, hwrite, hrt, hreader, hout, hpre, hall⟩ :=
          writeFrame_appends (ι := ι) (ω := ω) frameType ct _
        refine ⟨r, w', (Eff.bind_ok hrun _).trans hwrite, hreader, congrArg (·.heap) hrt, ?_⟩
        have hseals : w'.rt.seals = w.rt.seals ++ [k.sealOf seq tag pt ct] := by
          rw [hrt, hsealOf]
          simp [Runtime.seals, Event.seal?]
        cases r with
        | error e => exact Emission.unwritten hseal ⟨_, hwrite, rfl⟩ hseals hout hpre
        | ok u => exact Emission.written hseal hseals (by rw [hout, hall rfl])

/-- A reliable output stream takes every frame that was sealed. -/
theorem emitFrame_written (hO : Reliable ω) {env : Env H} {k : StreamKey} {seq : Nat} {tag : Bytes}
    {frameType : Nat} (htype : frameType < 256) {pt ct : Bytes}
    (hseal : k.sealPt env.aead seq tag pt = .ok ct) (hlen : ct.length < 256 ^ 4) (w : World ι ω) :
    ∃ w', (emitFrame env k seq tag frameType pt).run w = (.ok (), w') := by
  obtain ⟨r, w', hrun, -, -, hemit⟩ := emitFrame_emission env k seq tag frameType pt w
  cases hemit with
  | unsealed failed _ _ =>
    rw [hseal] at failed
    cases failed
  | unwritten sealed failed _ _ _ =>
    rw [hseal] at sealed
    cases sealed
    obtain ⟨w₀, hfail, -⟩ := failed
    obtain ⟨w₁, hok, -⟩ := writeFrame_reliable hO htype hlen w₀
    rw [hfail] at hok
    cases hok
  | written _ _ _ => exact ⟨w', hrun⟩

/-- Sealing or writing a frame for `new` has failed. -/
def EmitFails (ι ω : Type) [Output ω] (env : Env H) (new : StreamKey) (seq : Nat) (tag : Bytes)
    (frameType : Nat) (pt : Bytes) : Prop :=
  ∃ (w w' : World ι ω) (e : Exc), (emitFrame env new seq tag frameType pt).run w = (.error e, w')

/-- Every chunk and end mark within the limits can be sealed for `new` and written. -/
def EmitWorks (ι ω : Type) [Output ω] (env : Env H) (new : StreamKey) : Prop :=
  ∀ seq tag frameType pt, seq ≤ maxStreamDataFrames → pt.length ≤ maxChunkPlaintextSize →
    tag.length ≤ 5 → frameType < 256 → ¬EmitFails ι ω env new seq tag frameType pt

theorem emitWorks_of_reliable (hO : Reliable ω) {env : Env H} (ha : env.aead.Correct)
    {new : StreamKey} (hkey : new.aesgcm.length = rootKeyLen)
    (hnonce : new.baseNonce.length = nonceLen) (hheader : new.headerBytes.length < 2 ^ 25) :
    EmitWorks ι ω env new := by
  intro seq tag frameType pt hseq hpt htag htype hfails
  obtain ⟨w, w', e, hrun⟩ := hfails
  have hpt' : pt.length ≤ 9437184 := hpt
  obtain ⟨ct, hct⟩ := ha.encrypt_ok new.aesgcm (new.nonceAt seq) pt (new.aadAt seq tag) hkey
    (by
      rw [StreamKey.nonceAt, List.length_append, List.length_take, beEncode_length, hnonce]
      rfl)
    (by omega)
    (by
      rw [StreamKey.aadAt, List.length_append, List.length_append, beEncode_length]
      omega)
  have hseal : new.sealPt env.aead seq tag pt = .ok ct := by
    rw [StreamKey.sealPt, deriveChunkNonce_eq hnonce hseq, ok_bind, deriveChunkAad_eq _ _ hseq,
      ok_bind]
    exact hct
  have hlen := (ha.decrypt_encrypt _ _ _ _ _ hct).1
  obtain ⟨w₁, hok⟩ := emitFrame_written hO htype hseal (by omega) w
  rw [hrun] at hok
  cases hok

end Write

/-! ### What a writer has emitted -/

/-- From `w` to `w'` a writer has sealed `chunks` from place `seq` on, and the end mark `final`,
and has written their frames: all of them if `whole`. -/
structure Emitted (k : StreamKey) (seq : Nat) (chunks : List (Bytes × Bytes))
    (final : Option Bytes) (whole : Prop) (w w' : World ι ω) : Prop where
  seals : w'.rt.seals = w.rt.seals ++ (chunkSeals k seq chunks ++
    final.toList.map fun ct => k.sealOf (seq + chunks.length) aadTagFinal [] ct)
  out : ∃ written, w'.out = w.out ++ written ∧
    written <+: dataFrames chunks ++ finalFrame final ∧
    (whole → written = dataFrames chunks ++ finalFrame final)

theorem chunkSeals_append (k : StreamKey) (seq : Nat) (a b : List (Bytes × Bytes)) :
    chunkSeals k seq (a ++ b) = chunkSeals k seq a ++ chunkSeals k (seq + a.length) b := by
  induction a generalizing seq with
  | nil => rfl
  | cons c a ih =>
    have hseq : seq + 1 + a.length = seq + (a.length + 1) := by omega
    rw [List.cons_append, chunkSeals, chunkSeals, ih, List.cons_append, List.length_cons, hseq]

section Emitted

variable {aead : Aead} {k : StreamKey} {seq : Nat} {w w₁ w' : World ι ω}

theorem Emitted.nothing {whole : Prop} (seals : w'.rt.seals = w.rt.seals)
    (out : w'.out = w.out) : Emitted k seq [] none whole w w' where
  seals := by simp [seals, chunkSeals]
  out := ⟨[], by simp [out], List.nil_prefix, fun _ => rfl⟩

theorem Emitted.weaken {chunks : List (Bytes × Bytes)} {final : Option Bytes} {whole whole' : Prop}
    (h : Emitted k seq chunks final whole w w') (himp : whole' → whole) :
    Emitted k seq chunks final whole' w w' where
  seals := h.seals
  out := by
    obtain ⟨written, hout, hpre, hall⟩ := h.out
    exact ⟨written, hout, hpre, fun hw => hall (himp hw)⟩

/-- Who has sealed nothing has written nothing. -/
theorem Emitted.whole_of_nothing {whole : Prop} (h : Emitted k seq [] none whole w w') :
    Emitted k seq [] none True w w' where
  seals := h.seals
  out := by
    obtain ⟨written, hout, hpre, -⟩ := h.out
    exact ⟨written, hout, hpre, fun _ => List.prefix_nil.mp hpre⟩

theorem Emitted.append {chunks chunks' : List (Bytes × Bytes)} {final : Option Bytes}
    {whole whole' : Prop} (h : Emitted k seq chunks none whole w w₁) (hw : whole)
    (h' : Emitted k (seq + chunks.length) chunks' final whole' w₁ w') :
    Emitted k seq (chunks ++ chunks') final whole' w w' where
  seals := by
    rw [h'.seals, h.seals, chunkSeals_append, List.length_append, Nat.add_assoc]
    simp
  out := by
    obtain ⟨written, hout, -, hall⟩ := h.out
    obtain ⟨written', hout', hpre', hall'⟩ := h'.out
    have hwritten : written = dataFrames chunks := by
      rw [hall hw]
      simp [finalFrame]
    subst hwritten
    have hsplit : dataFrames (chunks ++ chunks') ++ finalFrame final =
        dataFrames chunks ++ (dataFrames chunks' ++ finalFrame final) := by
      simp [dataFrames]
    refine ⟨dataFrames chunks ++ written', by rw [hout', hout, List.append_assoc], ?_, ?_⟩
    · rw [hsplit]
      exact (List.prefix_append_right_inj _).mpr hpre'
    · intro hw'
      rw [hsplit, hall' hw']

variable [Output ω] {pt : Bytes} {r : Except Exc Unit}

theorem Emission.data (h : Emission aead k seq aadTagData frameTypeData pt w r w') :
    ∃ chunks, SealedFrom aead k seq chunks ∧ Emitted k seq chunks none (r = .ok ()) w w' ∧
      (chunks = [] ∨ ∃ ct, chunks = [(pt, ct)]) ∧ (r = .ok () → chunks ≠ []) := by
  cases h with
  | unsealed failed seals out =>
    exact ⟨[], SealedFrom.nil, Emitted.nothing seals out, Or.inl rfl, nofun⟩
  | @unwritten ct written e _ sealed failed seals out part =>
    refine ⟨[(pt, ct)], SealedFrom.cons sealed SealedFrom.nil, ⟨?_, written, out, ?_, nofun⟩,
      Or.inr ⟨ct, rfl⟩, nofun⟩
    · simp [seals, chunkSeals]
    · simpa [dataFrames, finalFrame] using part
  | @written ct _ sealed seals out =>
    have hframe : dataFrames [(pt, ct)] ++ finalFrame none = frameBytes frameTypeData ct := by
      simp [dataFrames, finalFrame]
    refine ⟨[(pt, ct)], SealedFrom.cons sealed SealedFrom.nil,
      ⟨?_, frameBytes frameTypeData ct, out, ?_, ?_⟩, Or.inr ⟨ct, rfl⟩, fun _ => by simp⟩
    · simp [seals, chunkSeals]
    · exact hframe ▸ List.prefix_rfl
    · intro _
      rw [hframe]

/-- A sealed end mark is not there in full. -/
def FinalCut (chunks : List (Bytes × Bytes)) (final : Option Bytes) (w w' : World ι ω) : Prop :=
  FailsEarly ω → ∀ ct, final = some ct → ct ≠ [] →
    w'.out.length < w.out.length + (dataFrames chunks ++ finalFrame final).length

theorem Emission.final (h : Emission aead k seq aadTagFinal frameTypeFinal [] w r w') :
    ∃ final, (∀ ct, final = some ct → k.sealPt aead seq aadTagFinal [] = .ok ct) ∧
      Emitted k seq [] final (r = .ok ()) w w' ∧ (r = .ok () → final.isSome) ∧
      (r ≠ .ok () → FinalCut [] final w w') := by
  cases h with
  | unsealed failed seals out => exact ⟨none, nofun, Emitted.nothing seals out, nofun, nofun⟩
  | @unwritten ct written e _ sealed failed seals out part =>
    refine ⟨some ct, ?_, ⟨?_, written, out, ?_, nofun⟩, nofun, ?_⟩
    · intro ct' hct
      cases hct
      exact sealed
    · simp [seals, chunkSeals]
    · simpa [dataFrames, finalFrame] using part
    · intro _ hF ct' hct hne
      cases hct
      obtain ⟨w₀, hfail, hw₀⟩ := failed
      have hframe : dataFrames [] ++ finalFrame (some ct) = frameBytes frameTypeFinal ct := by
        simp [dataFrames, finalFrame]
      rw [← hw₀, hframe]
      exact writeFrame_cut hF hne hfail
  | @written ct _ sealed seals out =>
    have hframe : dataFrames [] ++ finalFrame (some ct) = frameBytes frameTypeFinal ct := by
      simp [dataFrames, finalFrame]
    refine ⟨some ct, ?_, ⟨?_, frameBytes frameTypeFinal ct, out, ?_, ?_⟩, fun _ => rfl,
      fun h => absurd rfl h⟩
    · intro ct' hct
      cases hct
      exact sealed
    · simp [seals, chunkSeals]
    · exact hframe ▸ List.prefix_rfl
    · intro _
      rw [hframe]

end Emitted

/-! ### The frame loop of `encrypt_stream` -/

section Loop

variable [Input ι] [Output ω]

/-- All that one pass can do. -/
inductive EncryptPass (aead : Aead) (k : StreamKey) (chunkSize : Nat) (v : EncryptVars)
    (w : World ι ω) : Except Exc (EncryptVars ⊕ EncryptVars) → World ι ω → Prop
  | raised {chunks : List (Bytes × Bytes)} {e : Exc} {w' : World ι ω}
    (sealed : SealedFrom aead k v.sequenceNumber chunks)
    (emitted : Emitted k v.sequenceNumber chunks none False w w') :
    EncryptPass aead k chunkSize v w (.error e) w'
  | chunk {chunk ct : Bytes} {i' : ι} {w' : World ι ω}
    (read : Input.read chunkSize w.reader.stream = (.ok chunk, i')) (nonempty : chunk ≠ [])
    (count : v.sequenceNumber < maxStreamDataFrames)
    (fits : v.totalPlaintextBytes + chunk.length ≤ maxStreamPlaintextSize)
    (sealed : SealedFrom aead k v.sequenceNumber [(chunk, ct)])
    (emitted : Emitted k v.sequenceNumber [(chunk, ct)] none True w w')
    (stream : w'.reader.stream = i') :
    EncryptPass aead k chunkSize v w (.ok (.inl {
      sequenceNumber := v.sequenceNumber + 1
      totalPlaintextBytes := v.totalPlaintextBytes + chunk.length })) w'
  | finished {i' : ι} {w' : World ι ω}
    (read : Input.read chunkSize w.reader.stream = (.ok [], i'))
    (emitted : Emitted k v.sequenceNumber [] none True w w') :
    EncryptPass aead k chunkSize v w (.ok (.inr v)) w'

theorem encryptStep_eq (env : Env H) (k : StreamKey) (chunkSize : Nat) (v : EncryptVars) :
    (encryptStep env k.aesgcm k.headerBytes k.baseNonce chunkSize v :
        Eff Exc (World ι ω) (EncryptVars ⊕ EncryptVars)) = (do
      let chunk ← readInput chunkSize
      if chunk = [] then return .inr v else
      if maxStreamDataFrames ≤ v.sequenceNumber then
        Eff.raise (.valueError ("stream DATA frame limit exceeded: maximum " ++
          s!"{maxStreamDataFrames} frames allowed per stream")) else
      if maxStreamPlaintextSize < v.totalPlaintextBytes + chunk.length then
        Eff.raise (.valueError ("stream plaintext size limit exceeded: maximum " ++
          s!"{maxStreamPlaintextSize} bytes allowed per stream")) else
      emitFrame env k v.sequenceNumber aadTagData frameTypeData chunk
      return .inl {
        sequenceNumber := v.sequenceNumber + 1
        totalPlaintextBytes := v.totalPlaintextBytes + chunk.length }) := by
  unfold encryptStep emitFrame
  simp only [Eff.bind_assoc]

theorem encryptStep_pass (env : Env H) (k : StreamKey) (chunkSize : Nat) (v : EncryptVars)
    (w : World ι ω) : ∃ r w',
      (encryptStep env k.aesgcm k.headerBytes k.baseNonce chunkSize v).run w = (r, w') ∧
      EncryptPass env.aead k chunkSize v w r w' := by
  have hraised : ∀ (e : Exc) (w' : World ι ω), w'.rt = w.rt → w'.out = w.out →
      EncryptPass env.aead k chunkSize v w (.error e) w' := by
    intro e w' hrt hout
    exact EncryptPass.raised SealedFrom.nil (Emitted.nothing (by rw [hrt]) hout)
  rw [encryptStep_eq]
  rcases hread : Input.read chunkSize w.reader.stream with ⟨r, i'⟩
  have hinput : (readInput chunkSize : Eff Exc (World ι ω) Bytes).run w =
      (r, { w with reader := { w.reader with stream := i' } }) := by
    simp only [readInput, onReader, Eff.run_zoom, StreamReader.readStream, hread]
  cases r with
  | error e => exact ⟨_, _, Eff.bind_error hinput _, hraised e _ rfl rfl⟩
  | ok chunk =>
    rw [Eff.bind_ok hinput]
    by_cases hc : chunk = []
    · rw [if_pos hc, Eff.run_pure]
      rw [hc] at hread
      exact ⟨_, _, rfl, EncryptPass.finished hread (Emitted.nothing rfl rfl)⟩
    rw [if_neg hc]
    by_cases hmax : maxStreamDataFrames ≤ v.sequenceNumber
    · rw [if_pos hmax, Eff.run_raise]
      exact ⟨_, _, rfl, hraised _ _ rfl rfl⟩
    rw [if_neg hmax]
    by_cases htotal : maxStreamPlaintextSize < v.totalPlaintextBytes + chunk.length
    · rw [if_pos htotal, Eff.run_raise]
      exact ⟨_, _, rfl, hraised _ _ rfl rfl⟩
    rw [if_neg htotal]
    let w₁ : World ι ω := { w with reader := { w.reader with stream := i' } }
    obtain ⟨r, w', hrun, hreader, -, hemit⟩ :=
      emitFrame_emission env k v.sequenceNumber aadTagData frameTypeData chunk w₁
    obtain ⟨chunks, hsealed, hemitted, hone, hsome⟩ := hemit.data
    have hfrom : Emitted k v.sequenceNumber chunks none (r = .ok ()) w w' :=
      ⟨hemitted.seals, hemitted.out⟩
    cases r with
    | error e =>
      exact ⟨_, w', Eff.bind_error hrun _, EncryptPass.raised hsealed (hfrom.weaken False.elim)⟩
    | ok u =>
      obtain ⟨ct, rfl⟩ := hone.resolve_left (hsome rfl)
      rw [Eff.bind_ok hrun, Eff.run_pure]
      exact ⟨_, w', rfl, EncryptPass.chunk hread hc (by omega) (by omega) hsealed
        (hfrom.weaken fun _ => rfl) (congrArg (·.stream) hreader)⟩

theorem SealedFrom.append {aead : Aead} {k : StreamKey} {seq : Nat}
    {a b : List (Bytes × Bytes)} (ha : SealedFrom aead k seq a)
    (hb : SealedFrom aead k (seq + a.length) b) : SealedFrom aead k seq (a ++ b) := by
  induction ha with
  | nil => exact hb
  | @cons seq pt ct a sealed more ih =>
    apply SealedFrom.cons sealed
    apply ih
    rw [List.length_cons] at hb
    rw [Nat.add_assoc, Nat.add_comm 1]
    exact hb

/-- The loop seals chunk after chunk. Where the input behaves, a loop that ends has sealed all of
it, within the limits. -/
theorem encryptLoop_emitted (env : Env H) (k : StreamKey) (chunkSize : Nat) (v : EncryptVars)
    (w : World ι ω) : ∃ r w' chunks,
      ((encryptLoop env k.aesgcm k.headerBytes k.baseNonce chunkSize).toEff v).run w = (r, w') ∧
      SealedFrom env.aead k v.sequenceNumber chunks ∧
      Emitted k v.sequenceNumber chunks none (∃ v', r = .ok v') w w' ∧
      ∀ v', r = .ok v' → v'.sequenceNumber = v.sequenceNumber + chunks.length ∧
        ∀ p, 0 < chunkSize → chunkSize ≤ maxChunkPlaintextSize → Delivers w.reader.stream p →
          (chunks.map Prod.fst).flatten = p ∧
          Limits v.sequenceNumber v.totalPlaintextBytes (chunks.map Prod.fst) := by
  induction v, w using (encryptLoop env k.aesgcm k.headerBytes k.baseNonce chunkSize :
    Loop Exc (World ι ω) EncryptVars EncryptVars).induction with
  | h v w ih =>
    obtain ⟨r, w₁, hrun, hpass⟩ := encryptStep_pass env k chunkSize v w
    have hstep : ((encryptLoop env k.aesgcm k.headerBytes k.baseNonce chunkSize).step v).run w =
      (r, w₁) := hrun
    cases hpass with
    | raised sealed emitted =>
      exact ⟨_, w₁, _, Loop.run_raise _ hstep, sealed, emitted.weaken nofun, nofun⟩
    | finished read emitted =>
      refine ⟨_, w₁, [], Loop.run_break _ hstep, SealedFrom.nil,
        emitted.weaken fun _ => trivial, ?_⟩
      intro v' hv'
      cases hv'
      refine ⟨rfl, ?_⟩
      intro p hpos hmax hp
      obtain ⟨chunk, rest, i'', hread, -, -, hnil, -⟩ := hp.read hpos
      rw [read] at hread
      cases hread
      rw [hnil rfl]
      exact ⟨rfl, Limits.nil⟩
    | @chunk chunk ct i' _ read nonempty count fits sealed emitted stream =>
      obtain ⟨r', w', chunks, hloop, hsealed, hemitted, hdone⟩ := ih _ w₁ hstep
      refine ⟨r', w', [(chunk, ct)] ++ chunks, ?_, sealed.append hsealed,
        emitted.append trivial hemitted, ?_⟩
      · rw [Loop.run_continue _ hstep]
        exact hloop
      · intro v' hv'
        obtain ⟨hseq, hall⟩ := hdone v' hv'
        refine ⟨?_, ?_⟩
        · rw [hseq, List.length_append, List.length_singleton, Nat.add_assoc]
        · intro p hpos hmax hp
          obtain ⟨chunk', rest, i'', hread, rfl, hlen, -, hrest⟩ := hp.read hpos
          rw [read] at hread
          cases hread
          rw [← stream] at hrest
          obtain ⟨hflat, hlimits⟩ := hall rest hpos hmax hrest
          refine ⟨?_, Limits.cons count nonempty (hlen.trans hmax) fits hlimits⟩
          rw [List.map_append, List.flatten_append, hflat]
          simp

end Loop

/-! ### Whole runs of `encrypt_stream` -/

/-- The key, header and nonce are the ones that `derive_root_key` gives for the bundle. -/
def StreamKey.DerivedFrom (env : Env H) (bundle : PublicBundle) (rt : Runtime) (k : StreamKey) :
    Prop :=
  ∃ d rt', (deriveRootKey env bundle).run rt = (.ok d, rt') ∧
    d.header.toBytes = .ok k.headerBytes ∧ d.header.nonce = some k.baseNonce ∧
    k.aesgcm = d.rootKey

theorem StreamKey.DerivedFrom.lengths {env : Env H} {bundle : PublicBundle} {rt : Runtime}
    {k : StreamKey} (h : k.DerivedFrom env bundle rt) :
    k.aesgcm.length = rootKeyLen ∧ k.baseNonce.length = nonceLen := by
  obtain ⟨d, rt', hderive, -, hnonce, hkey⟩ := h
  obtain ⟨profile, encs, nonce, hd⟩ := deriveRootKey_eq_ok hderive
  rw [hd.header] at hnonce
  rw [hkey, ← Option.some.inj hnonce]
  exact ⟨hd.rootKey_length, hd.nonceLength⟩

theorem StreamKey.DerivedFrom.header_length {env : Env H} {bundle : PublicBundle} {rt : Runtime}
    {k : StreamKey} (h : k.DerivedFrom env bundle rt) : k.headerBytes.length < 2 ^ 25 := by
  obtain ⟨d, rt', -, hbytes, -, -⟩ := h
  exact CryptoflexHeader.toBytes_length_lt hbytes

/-- The key is a function of the process's random pool. -/
theorem StreamKey.DerivedFrom.unique {env : Env H} {bundle : PublicBundle} {rt rt' : Runtime}
    (hpool : rt.entropy = rt'.entropy) {k k' : StreamKey} (h : k.DerivedFrom env bundle rt)
    (h' : k'.DerivedFrom env bundle rt') : k = k' := by
  obtain ⟨d, rt₁, hderive, hbytes, hnonce, hkey⟩ := h
  obtain ⟨d', rt₁', hderive', hbytes', hnonce', hkey'⟩ := h'
  have hsame := (deriveRootKey_through env bundle rt rt' hpool).1
  rw [hderive, hderive'] at hsame
  cases hsame
  rw [hbytes] at hbytes'
  rw [hnonce] at hnonce'
  cases k
  cases k'
  simp_all

theorem StreamKey.DerivedFrom.of_entropy {env : Env H} {bundle : PublicBundle} {rt rt' : Runtime}
    (hpool : rt.entropy = rt'.entropy) {k : StreamKey} (h : k.DerivedFrom env bundle rt) :
    k.DerivedFrom env bundle rt' := by
  obtain ⟨d, rt₁, hderive, hrest⟩ := h
  have hsame := (deriveRootKey_through env bundle rt rt' hpool).1
  rw [hderive] at hsame
  rcases hderive' : (deriveRootKey env bundle).run rt' with ⟨r, rt₁'⟩
  rw [hderive'] at hsame
  dsimp only at hsame
  subst hsame
  exact ⟨d, rt₁', hderive', hrest⟩

theorem StreamKey.DerivedFrom.reads {env : Env H} (hw : env.profiles.WellFormed)
    {bundle : PublicBundle} {rt : Runtime} {k : StreamKey} (h : k.DerivedFrom env bundle rt) :
    ∃ header, CryptoflexHeader.scanHeader.Reads k.headerBytes header := by
  obtain ⟨d, rt', hderive, hbytes, -, -⟩ := h
  obtain ⟨profile, encs, nonce, hd⟩ := deriveRootKey_eq_ok hderive
  exact ⟨d.header, hd.reads hw hbytes⟩

/-- The key, header and base nonce of a new stream: how `encrypt_stream` and `migrate_stream` both
begin to write. -/
def newStream (env : Env H) (bundle : PublicBundle) (noNonce : Exc) :
    Eff Exc (World ι ω) StreamKey := do
  let derived ← onRuntime (deriveRootKey env bundle)
  let headerBytes ← Eff.lift derived.header.toBytes
  match derived.header.nonce with
  | none => Eff.raise noNonce
  | some baseNonce => return ⟨derived.rootKey, headerBytes, baseNonce⟩

/-- It gives the key that is derived for the bundle, or there is none and it raises. -/
theorem newStream_run (env : Env H) (bundle : PublicBundle) (noNonce : Exc) (w : World ι ω) :
    ∃ r rt', (deriveRootKey env bundle).run w.rt = (r, rt') ∧
      ((∃ e, (newStream env bundle noNonce).run w = (.error e, { w with rt := rt' }) ∧
          ¬∃ k : StreamKey, k.DerivedFrom env bundle w.rt) ∨
        ∃ k : StreamKey, k.DerivedFrom env bundle w.rt ∧
          (newStream env bundle noNonce).run w = (.ok k, { w with rt := rt' })) := by
  rcases hderive : (deriveRootKey env bundle).run w.rt with ⟨r, rt'⟩
  refine ⟨r, rt', rfl, ?_⟩
  unfold newStream
  cases r with
  | error e =>
    refine Or.inl ⟨e, Eff.bind_error (onRuntime_error hderive _ rfl) _, ?_⟩
    rintro ⟨k, d, rt₁, hderive', -⟩
    rw [hderive] at hderive'
    cases hderive'
  | ok d =>
  rw [Eff.bind_ok (onRuntime_ok hderive _ rfl)]
  cases hheader : d.header.toBytes with
  | error e =>
    refine Or.inl ⟨e, rfl, ?_⟩
    rintro ⟨k, d', rt₁, hderive', hbytes, -⟩
    rw [hderive] at hderive'
    cases hderive'
    rw [hheader] at hbytes
    cases hbytes
  | ok headerBytes =>
    obtain ⟨profile, encs, nonce, hd⟩ := deriveRootKey_eq_ok hderive
    have hnonce : d.header.nonce = some nonce := by rw [hd.header]
    rw [Eff.run_lift_ok_bind, hnonce]
    exact Or.inr ⟨⟨d.rootKey, headerBytes, nonce⟩, ⟨d, rt', hderive, hheader, hnonce, rfl⟩, rfl⟩

theorem newStream_derived {env : Env H} {bundle : PublicBundle} (noNonce : Exc) {k : StreamKey}
    {w : World ι ω} (hk : k.DerivedFrom env bundle w.rt) :
    ∃ rt', (newStream env bundle noNonce).run w = (.ok k, { w with rt := rt' }) := by
  obtain ⟨r, rt', -, ⟨e, -, hnone⟩ | ⟨k', hk', hkey⟩⟩ := newStream_run env bundle noNonce w
  · exact absurd ⟨k, hk⟩ hnone
  · rw [hk'.unique rfl hk] at hkey
    exact ⟨rt', hkey⟩

structure Transcript.From (env : Env H) (bundle : PublicBundle) (rt : Runtime) (t : Transcript) :
    Prop where
  derived : t.key.DerivedFrom env bundle rt
  valid : t.Valid env.aead

/-- A call that ended with `r` has written `out`: all of the transcript's stream if it returned,
and a first part of it if it raised. -/
structure Transcript.Written (t : Transcript) (r : Except Exc Unit) (out : Bytes) : Prop where
  part : out <+: t.wire
  whole : r = .ok () → t.final.isSome ∧ out = t.wire

section Run

variable [Input ι] [Output ω]

/-- The part of `encrypt_stream` behind the header. -/
theorem encryptBody_emitted (env : Env H) (k : StreamKey) (chunkSize : Nat) {buf : Nat}
    (w : World ι ω) (hbuf : w.rt.heap.getD buf [] = k.aesgcm) :
    ∃ r w' chunks final, ((do
        let key ← onRuntime (Runtime.readBuffer buf)
        let aesgcm ← Eff.lift (AESGCM env.aead key)
        let v ← (encryptLoop env aesgcm k.headerBytes k.baseNonce chunkSize).toEff {}
        let finalNonce ← Eff.lift (deriveChunkNonce k.baseNonce v.sequenceNumber)
        let finalAad ← Eff.lift (deriveChunkAad k.headerBytes v.sequenceNumber aadTagFinal)
        let finalCt ← onRuntime (aesgcmEncrypt env aesgcm finalNonce [] finalAad)
        writeFrame frameTypeFinal finalCt) : Eff Exc (World ι ω) Unit).run w = (r, w') ∧
      Transcript.Valid env.aead ⟨k, chunks, final⟩ ∧
      Emitted k 0 chunks final (r = .ok ()) w w' ∧
      (r = .ok () → final.isSome) ∧
      (final.isSome → ∀ p, 0 < chunkSize → chunkSize ≤ maxChunkPlaintextSize →
        Delivers w.reader.stream p →
        (chunks.map Prod.fst).flatten = p ∧ Limits 0 0 (chunks.map Prod.fst)) := by
  obtain ⟨r, w₁, chunks, hloop, hsealed, hemitted, hdone⟩ :=
    encryptLoop_emitted env k chunkSize {} w
  rw [Eff.bind_ok (readBuffer_run hbuf w rfl)]
  cases hinit : env.aead.init k.aesgcm with
  | error e =>
    rw [AESGCM_of_error hinit, Eff.run_lift_error_bind]
    exact ⟨_, w, [], none, rfl, ⟨SealedFrom.nil, nofun⟩, Emitted.nothing rfl rfl, nofun,
      nofun⟩
  | ok u =>
  rw [AESGCM_of_init hinit, Eff.run_lift_ok_bind]
  cases r with
  | error e =>
    exact ⟨_, w₁, chunks, none, Eff.bind_error hloop _, ⟨hsealed, nofun⟩,
      hemitted.weaken nofun, nofun, nofun⟩
  | ok v =>
    obtain ⟨hseq, hall⟩ := hdone v rfl
    obtain ⟨r', w₂, hrun, -, -, hemit⟩ :=
      emitFrame_emission env k v.sequenceNumber aadTagFinal frameTypeFinal [] w₁
    obtain ⟨final, hfinal, hlast, hsome, -⟩ := hemit.final
    rw [hseq] at hfinal hlast
    refine ⟨r', w₂, chunks ++ [], final, (Eff.bind_ok hloop _).trans hrun, ?_,
      hemitted.append ⟨v, rfl⟩ hlast, hsome, ?_⟩
    · rw [List.append_nil]
      refine ⟨hsealed, ?_⟩
      intro ct hct
      have hseal := hfinal ct hct
      rw [Nat.zero_add] at hseal
      exact hseal
    · intro _
      rw [List.append_nil]
      exact hall

def noNonceToEncrypt : Exc :=
  .valueError "derive_root_key() produced a v1 header with no nonce — cannot stream-encrypt"

/-- `encrypt_stream` behind the derivation of its key. -/
def encryptUnder (env : Env H) (chunkSize : Int) (k : StreamKey) : Eff Exc (World ι ω) Unit :=
  if chunkSize ≤ 0 ∨ (maxChunkPlaintextSize : Int) < chunkSize then
    Eff.raise (.valueError
      s!"chunk_size {chunkSize} must be between 1 and {maxChunkPlaintextSize}") else do
  write k.headerBytes
  let rootKeyBuf ← onRuntime (Runtime.newBuffer k.aesgcm)
  Eff.tryFinally (do
    let key ← onRuntime (Runtime.readBuffer rootKeyBuf)
    let aesgcm ← Eff.lift (AESGCM env.aead key)
    let v ← (encryptLoop env aesgcm k.headerBytes k.baseNonce chunkSize.toNat).toEff {}
    let finalNonce ← Eff.lift (deriveChunkNonce k.baseNonce v.sequenceNumber)
    let finalAad ← Eff.lift (deriveChunkAad k.headerBytes v.sequenceNumber aadTagFinal)
    let finalCt ← onRuntime (aesgcmEncrypt env aesgcm finalNonce [] finalAad)
    writeFrame frameTypeFinal finalCt)
    (onRuntime (Runtime.zeroize rootKeyBuf))

theorem encryptStream_eq (env : Env H) (bundle : PublicBundle) (chunkSize : Int) :
    (encryptStream env bundle chunkSize : Eff Exc (World ι ω) Unit) =
      newStream env bundle noNonceToEncrypt >>= encryptUnder env chunkSize := by
  unfold encryptStream newStream
  rw [Eff.bind_assoc]
  congr 1
  funext derived
  rw [Eff.bind_assoc]
  congr 1
  funext headerBytes
  cases derived.header.nonce <;> rfl

/-- Under a key, a run seals nothing and raises, or it seals the transcript of one stream and
writes that stream as far as it gets. -/
theorem encryptUnder_run (env : Env H) (chunkSize : Int) (k : StreamKey) (w : World ι ω)
    (hout : w.out = []) :
    ∃ r w', (encryptUnder env chunkSize k).run w = (r, w') ∧
      (((∃ e, r = .error e) ∧ w'.rt.seals = w.rt.seals) ∨
        ∃ t : Transcript, t.key = k ∧ t.Valid env.aead ∧ w'.rt.seals = w.rt.seals ++ t.seals ∧
          t.Written r w'.out ∧ (t.final.isSome → ∀ p, Delivers w.reader.stream p →
            t.plaintexts.flatten = p ∧ Limits 0 0 t.plaintexts)) := by
  unfold encryptUnder
  by_cases hsize : chunkSize ≤ 0 ∨ (maxChunkPlaintextSize : Int) < chunkSize
  · rw [if_pos hsize, Eff.run_raise]
    exact ⟨_, _, rfl, Or.inl ⟨⟨_, rfl⟩, rfl⟩⟩
  rw [if_neg hsize]
  obtain ⟨r, w₁, written, hwrite, hrt, hreader, hstart, hpre, hall⟩ := Appends.write k.headerBytes w
  have hseals : w₁.rt.seals = w.rt.seals := by rw [hrt]
  cases r with
  | error e => exact ⟨_, w₁, Eff.bind_error hwrite _, Or.inl ⟨⟨e, rfl⟩, hseals⟩⟩
  | ok u =>
  rw [Eff.bind_ok hwrite, Eff.bind_ok (newBuffer_run _ _)]
  obtain ⟨r, w', chunks, final, hbody, hvalid, hemitted, hsome, hdone⟩ :=
    encryptBody_emitted env k chunkSize.toNat
      ({ w₁ with rt := { w₁.rt with heap := w₁.rt.heap ++ [k.aesgcm] } } : World ι ω)
      (heap_getD_append _ _)
  have hzero : (onRuntime (Runtime.zeroize w₁.rt.heap.length)).run w' =
    (.ok (), { w' with rt := ((Runtime.zeroize w₁.rt.heap.length).run w'.rt).2 }) := rfl
  refine ⟨r, _, Eff.tryFinally_run hbody hzero, Or.inr ⟨⟨k, chunks, final⟩, rfl, hvalid, ?_, ?_, ?_⟩⟩
  · have hsealed := hemitted.seals
    rw [Nat.zero_add] at hsealed
    rw [← hseals]
    exact hsealed
  · obtain ⟨frames, hframes, hpart, hwhole⟩ := hemitted.out
    have hheader : w₁.out = k.headerBytes := by
      rw [hstart, hall rfl, hout]
      rfl
    rw [hheader] at hframes
    refine ⟨?_, ?_⟩
    · rw [hframes]
      exact (List.prefix_append_right_inj k.headerBytes).mpr hpart
    · intro hr
      rw [hframes, hwhole hr]
      exact ⟨hsome hr, rfl⟩
  · intro hfinal p hp
    rw [← hreader] at hp
    exact hdone hfinal p (by omega) (by omega) hp

theorem encryptStream_run (env : Env H) (bundle : PublicBundle) (chunkSize : Int) (rt : Runtime)
    (i : ι) (sink : ω) : ∃ r w',
      (encryptStream env bundle chunkSize).run (World.start rt i sink) = (r, w') ∧
      (((∃ e, r = .error e) ∧ w'.rt.seals = rt.seals) ∨
        ∃ t : Transcript, t.From env bundle rt ∧ w'.rt.seals = rt.seals ++ t.seals ∧
          t.Written r w'.out ∧ (t.final.isSome → ∀ p, Delivers i p →
            t.plaintexts.flatten = p ∧ Limits 0 0 t.plaintexts)) := by
  rw [encryptStream_eq]
  obtain ⟨r, rt₁, hderive, hnew⟩ :=
    newStream_run env bundle noNonceToEncrypt (World.start rt i sink)
  have hseals : rt₁.seals = rt.seals := (SealsNothing.stable.deriveRootKey env bundle).of_eq hderive
  rcases hnew with ⟨e, hraise, -⟩ | ⟨k, hk, hkey⟩
  · exact ⟨_, _, Eff.bind_error hraise _, Or.inl ⟨⟨e, rfl⟩, hseals⟩⟩
  rw [Eff.bind_ok hkey, ← hseals]
  obtain ⟨r, w', hrun, hend⟩ := encryptUnder_run env chunkSize k
    ({ World.start rt i sink with rt := rt₁ } : World ι ω) rfl
  refine ⟨r, w', hrun, ?_⟩
  rcases hend with hquiet | ⟨t, hkey', hvalid, hrest⟩
  · exact Or.inl hquiet
  · refine Or.inr ⟨t, ⟨?_, hvalid⟩, hrest⟩
    rw [hkey']
    exact hk

end Run

end CryptoFlex
