import CryptoFlex.Streaming.MigrateRun
import Mathlib.Data.List.Nodup

namespace CryptoFlex

open Lib World

variable {H ι ω : Type}

/-! ### The calls of a stream writer -/

def StreamKey.callAt (k : StreamKey) (seq : Nat) (tag pt : Bytes) : EncryptCall :=
  { key := k.aesgcm, nonce := k.nonceAt seq, aad := k.aadAt seq tag, plaintext := pt }

/-- The calls that seal `pts` as DATA frames from place `seq` on. -/
def dataCalls (k : StreamKey) : Nat → List Bytes → List EncryptCall
  | _, [] => []
  | seq, pt :: pts => k.callAt seq aadTagData pt :: dataCalls k (seq + 1) pts

/-- The calls of a whole stream; `ended` if it came to the end mark. -/
def streamCalls (k : StreamKey) (pts : List Bytes) (ended : Bool) : List EncryptCall :=
  dataCalls k 0 pts ++ if ended then [k.callAt pts.length aadTagFinal []] else []

theorem dataCalls_append (k : StreamKey) (seq : Nat) (a b : List Bytes) :
    dataCalls k seq (a ++ b) = dataCalls k seq a ++ dataCalls k (seq + a.length) b := by
  induction a generalizing seq with
  | nil => rfl
  | cons pt a ih =>
    have hseq : seq + 1 + a.length = seq + (a.length + 1) := by omega
    rw [List.cons_append, dataCalls, dataCalls, ih, List.cons_append, List.length_cons, hseq]

theorem dataCalls_nonces (k : StreamKey) (seq : Nat) (pts : List Bytes) :
    (dataCalls k seq pts).map (·.nonce) = (List.range' seq pts.length).map k.nonceAt := by
  induction pts generalizing seq with
  | nil => rfl
  | cons pt pts ih =>
    rw [dataCalls, List.map_cons, ih, List.length_cons, List.range'_succ, List.map_cons]
    rfl

/-- The nonces of a stream are those of its places, in order. -/
theorem streamCalls_nonces (k : StreamKey) (pts : List Bytes) (ended : Bool) :
    (streamCalls k pts ended).map (·.nonce) =
      (List.range (pts.length + if ended then 1 else 0)).map k.nonceAt := by
  rw [streamCalls, List.map_append, dataCalls_nonces, List.range_eq_range']
  cases ended with
  | false => simp
  | true =>
    rw [if_pos rfl, if_pos rfl, List.range'_1_concat]
    simp [StreamKey.callAt]

theorem StreamKey.nonceAt_inj {k : StreamKey} {i j : Nat} (hi : i < 256 ^ 4) (hj : j < 256 ^ 4)
    (h : k.nonceAt i = k.nonceAt j) : i = j :=
  beEncode_injective hi hj (List.append_cancel_left h)

/-- Within the frame limit no nonce is used twice. -/
theorem streamCalls_nodup (k : StreamKey) {pts : List Bytes} (ended : Bool)
    (hcount : pts.length ≤ maxStreamDataFrames) :
    ((streamCalls k pts ended).map (·.nonce)).Nodup := by
  have hmax : pts.length ≤ 1000000 := hcount
  rw [streamCalls_nonces]
  apply List.Nodup.map_on _ List.nodup_range
  intro i hi j hj hij
  rw [List.mem_range] at hi hj
  have hbound : pts.length + (if ended then 1 else 0) ≤ 1000001 := by split <;> omega
  exact StreamKey.nonceAt_inj (by omega) (by omega) hij

/-! ### What holds of a writer at any point -/

/-- Nothing is written and `AESGCM.encrypt` is not called. -/
def Quiet (w w' : World ι ω) : Prop := SameCalls w.rt w'.rt ∧ w'.out = w.out

namespace Quiet

theorem refl (w : World ι ω) : Quiet w w := ⟨rfl, rfl⟩

theorem trans (w w' w'' : World ι ω) (h : Quiet w w') (h' : Quiet w' w'') : Quiet w w'' :=
  ⟨Eq.trans h'.1 h.1, h'.2.trans h.2⟩

theorem of_onlyReads {w w' : World ι ω} (h : OnlyReads w w') : Quiet w w' :=
  ⟨by rw [h.1]; rfl, h.2⟩

theorem onReader {α : Type} (x : Eff Exc (StreamReader ι) α) :
    Eff.Keeps Quiet (onReader x : Eff Exc (World ι ω) α) := fun _ => ⟨rfl, rfl⟩

theorem onRuntime {α : Type} {x : Eff Exc Runtime α} (hx : Eff.Keeps SameCalls x) :
    Eff.Keeps Quiet (onRuntime x : Eff Exc (World ι ω) α) := fun w => ⟨hx w.rt, rfl⟩

theorem zeroize (buf : Nat) :
    Eff.Keeps Quiet (World.onRuntime (Runtime.zeroize buf) : Eff Exc (World ι ω) Unit) :=
  fun _ => ⟨rfl, rfl⟩

theorem openFrame (env : Env H) (k : StreamKey) (seq : Nat) (f : Frame) :
    Eff.Keeps Quiet (openFrame env k seq f : Eff Exc (World ι ω) Bytes) := by
  apply Eff.Keeps.bind trans (Eff.Keeps.lift refl _)
  intro nonce
  apply Eff.Keeps.bind trans (Eff.Keeps.lift refl _)
  intro aad
  exact onRuntime (SameCalls.aesgcmDecrypt env k.aesgcm nonce f.ct aad)

end Quiet

/-- The plaintexts of chunks that a frame can carry. -/
def ChunkSizes (chunks : List (Bytes × Bytes)) : Prop :=
  ∀ c ∈ chunks, c.1 ≠ [] ∧ c.1.length ≤ maxChunkPlaintextSize

/-- Between two frames a writer has sealed `chunks`, one call each from place 0 on, and has written
the header and their frames. The sizes depend on `sized`. -/
structure AtRest (aead : Aead) (sized : Prop) (k : StreamKey) (base : List EncryptCall)
    (chunks : List (Bytes × Bytes)) (w : World ι ω) : Prop where
  sealed : SealedFrom aead k 0 chunks
  sizes : sized → ChunkSizes chunks
  calls : w.rt.encryptCalls = base ++ dataCalls k 0 (chunks.map Prod.fst)
  out : w.out = k.headerBytes ++ dataFrames chunks
  count : chunks.length ≤ maxStreamDataFrames
  total : (chunks.map Prod.fst).flatten.length ≤ maxStreamPlaintextSize

/-- What has come of the calls for `pts`, and for the end mark if `ended`: the transcript `t`, of
which `out` is written. -/
structure Disciplined (aead : Aead) (sized : Prop) (t : Transcript) (pts : List Bytes)
    (ended : Bool) (out : Bytes) : Prop where
  valid : t.Valid aead
  sizes : sized → ChunkSizes t.chunks
  chunks : t.plaintexts <+: pts
  final : t.final.isSome → ended = true
  last : ended = true → t.plaintexts = pts
  out : out <+: t.wire
  count : pts.length ≤ maxStreamDataFrames
  total : pts.flatten.length ≤ maxStreamPlaintextSize

/-- A writer that has stopped, behind the calls `base` of others. -/
def Stopped (aead : Aead) (sized : Prop) (k : StreamKey) (base : List EncryptCall)
    (w : World ι ω) : Prop :=
  ∃ chunks final pts ended, w.rt.encryptCalls = base ++ streamCalls k pts ended ∧
    Disciplined aead sized ⟨k, chunks, final⟩ pts ended w.out

section Writer

variable {aead : Aead} {sized : Prop} {k : StreamKey} {base : List EncryptCall}
  {chunks : List (Bytes × Bytes)} {w w' : World ι ω}

theorem AtRest.quiet (h : AtRest aead sized k base chunks w) (hq : Quiet w w') :
    AtRest aead sized k base chunks w' where
  sealed := h.sealed
  sizes := h.sizes
  calls := by rw [hq.1, h.calls]
  out := by rw [hq.2, h.out]
  count := h.count
  total := h.total

theorem AtRest.stopped (h : AtRest aead sized k base chunks w) : Stopped aead sized k base w := by
  refine ⟨chunks, none, chunks.map Prod.fst, false, ?_, ⟨h.sealed, nofun⟩, h.sizes,
    List.prefix_rfl, nofun, nofun, ?_, ?_, h.total⟩
  · simp [h.calls, streamCalls]
  · simp [h.out, Transcript.wire, Transcript.frames, finalFrame]
  · simpa using h.count

theorem Stopped.quiet (h : Stopped aead sized k base w) (hq : Quiet w w') :
    Stopped aead sized k base w' := by
  obtain ⟨chunks, final, pts, ended, hcalls, hd⟩ := h
  exact ⟨chunks, final, pts, ended, by rw [hq.1, hcalls], by rw [hq.2]; exact hd⟩

variable [Output ω] {env : Env H} {pt : Bytes}

/-- Within the limits the nonce and the associated data are derived, and one call is made. -/
theorem emitFrame_calls (env : Env H) (hk : k.baseNonce.length = nonceLen) {seq : Nat}
    (hs : seq ≤ maxStreamDataFrames) (tag : Bytes) (frameType : Nat) (pt : Bytes)
    (w : World ι ω) :
    ((emitFrame env k seq tag frameType pt).run w).2.rt.encryptCalls =
      w.rt.encryptCalls ++ [k.callAt seq tag pt] := by
  have hrecord : ((onRuntime (aesgcmEncrypt env k.aesgcm (k.nonceAt seq) pt (k.aadAt seq tag)) :
      Eff Exc (World ι ω) Bytes).run w).2.rt.encryptCalls =
      w.rt.encryptCalls ++ [k.callAt seq tag pt] := by
    rw [onRuntime, Eff.run_zoom, aesgcmEncrypt_run]
    simp [Runtime.encryptCalls, Event.encryptCall?, StreamKey.callAt]
  unfold emitFrame
  rw [deriveChunkNonce_eq hk hs, deriveChunkAad_eq _ _ hs, Eff.run_lift_ok_bind,
    Eff.run_lift_ok_bind, Eff.run_bind]
  rcases hrun : (onRuntime (aesgcmEncrypt env k.aesgcm (k.nonceAt seq) pt (k.aadAt seq tag)) :
    Eff Exc (World ι ω) Bytes).run w with ⟨r, w₁⟩
  rw [hrun] at hrecord
  have hrun' : (onRuntime (aesgcmEncrypt env k.aesgcm (k.baseNonce.take 8 ++ beEncode 4 seq) pt
    (k.headerBytes ++ beEncode 4 seq ++ tag)) : Eff Exc (World ι ω) Bytes).run w = (r, w₁) := hrun
  rw [hrun']
  cases r with
  | error e => exact hrecord
  | ok ct =>
    obtain ⟨r, w₂, written, hwrite, hrt, -⟩ :=
      writeFrame_appends (ι := ι) (ω := ω) frameType ct w₁
    dsimp only
    rw [hwrite, hrt]
    exact hrecord

theorem ChunkSizes.append {a b : List (Bytes × Bytes)} (ha : ChunkSizes a) (hb : ChunkSizes b) :
    ChunkSizes (a ++ b) := by
  intro c hc
  rcases List.mem_append.mp hc with h | h
  · exact ha c h
  · exact hb c h

/-- Sealing one more chunk within the limits. -/
theorem AtRest.emit (h : AtRest env.aead sized k base chunks w) (hk : k.baseNonce.length = nonceLen)
    (hcount : chunks.length < maxStreamDataFrames)
    (hsize : sized → pt ≠ [] ∧ pt.length ≤ maxChunkPlaintextSize)
    (htotal : (chunks.map Prod.fst).flatten.length + pt.length ≤ maxStreamPlaintextSize) :
    Eff.Post (emitFrame env k chunks.length aadTagData frameTypeData pt) w fun r w' =>
      match r with
      | .ok _ => ∃ ct, AtRest env.aead sized k base (chunks ++ [(pt, ct)]) w'
      | .error _ => Stopped env.aead sized k base w' := by
  obtain ⟨r, w', hrun, -, -, hemit⟩ :=
    emitFrame_emission env k chunks.length aadTagData frameTypeData pt w
  have hcall := emitFrame_calls env hk hcount.le aadTagData frameTypeData pt w
  rw [hrun] at hcall
  have hcalls : w'.rt.encryptCalls = base ++ dataCalls k 0 (chunks.map Prod.fst ++ [pt]) := by
    rw [hcall, h.calls, dataCalls_append, List.append_assoc]
    simp [dataCalls]
  have hpts : (chunks.map Prod.fst ++ [pt]).length ≤ maxStreamDataFrames := by
    rw [List.length_append, List.length_map]
    exact hcount
  have hflat : (chunks.map Prod.fst ++ [pt]).flatten.length ≤ maxStreamPlaintextSize := by
    simpa using htotal
  have hsizes : ∀ ct : Bytes, sized → ChunkSizes (chunks ++ [(pt, ct)]) := by
    intro ct hs
    apply (h.sizes hs).append
    intro c hc
    rw [List.mem_singleton.mp hc]
    exact hsize hs
  have hstopped : w'.rt.encryptCalls =
      base ++ streamCalls k (chunks.map Prod.fst ++ [pt]) false := by
    rw [hcalls]
    simp [streamCalls]
  apply Eff.Post.of_eq hrun
  cases hemit with
  | unsealed failed seals out =>
    refine ⟨chunks, none, _, false, hstopped, ⟨h.sealed, by simp⟩, h.sizes,
      List.prefix_append _ _, by simp, by simp, ?_, hpts, hflat⟩
    rw [out, h.out]
    simp [Transcript.wire, Transcript.frames, finalFrame]
  | @unwritten ct written e _ sealed failed seals out part =>
    have hsealed : SealedFrom env.aead k 0 (chunks ++ [(pt, ct)]) := by
      apply h.sealed.append
      rw [Nat.zero_add]
      exact SealedFrom.cons sealed SealedFrom.nil
    refine ⟨chunks ++ [(pt, ct)], none, _, false, hstopped, ⟨hsealed, by simp⟩, hsizes ct, ?_,
      by simp, by simp, ?_, hpts, hflat⟩
    · simp [Transcript.plaintexts]
    · have hwire : Transcript.wire ⟨k, chunks ++ [(pt, ct)], none⟩ =
          k.headerBytes ++ dataFrames chunks ++ frameBytes frameTypeData ct := by
        simp [Transcript.wire, Transcript.frames, dataFrames, finalFrame]
      rw [out, h.out, hwire]
      exact (List.prefix_append_right_inj _).mpr part
  | @written ct _ sealed seals out =>
    refine ⟨ct, ?_, hsizes ct, ?_, ?_, ?_, ?_⟩
    · apply h.sealed.append
      rw [Nat.zero_add]
      exact SealedFrom.cons sealed SealedFrom.nil
    · rw [hcalls, List.map_append]
      rfl
    · rw [out, h.out]
      simp [dataFrames]
    · rw [List.length_append]
      exact hcount
    · simpa using htotal

/-- Sealing the end mark, after which a writer stops. -/
theorem AtRest.finish (env : Env H) (h : AtRest env.aead sized k base chunks w)
    (hk : k.baseNonce.length = nonceLen) :
    Stopped env.aead sized k base
      ((emitFrame env k chunks.length aadTagFinal frameTypeFinal []).run w).2 := by
  obtain ⟨r, w', hrun, -, -, hemit⟩ :=
    emitFrame_emission env k chunks.length aadTagFinal frameTypeFinal [] w
  have hcall := emitFrame_calls env hk h.count aadTagFinal frameTypeFinal [] w
  rw [hrun] at hcall ⊢
  have hcalls : w'.rt.encryptCalls = base ++ streamCalls k (chunks.map Prod.fst) true := by
    rw [hcall, h.calls, streamCalls, List.append_assoc, List.length_map]
    rfl
  have hpts : (chunks.map Prod.fst).length ≤ maxStreamDataFrames := by simpa using h.count
  have hsealed : ∀ {ct : Bytes}, k.sealPt env.aead chunks.length aadTagFinal [] = .ok ct →
      ∀ ct', some ct = some ct' → k.sealPt env.aead chunks.length aadTagFinal [] = .ok ct' := by
    intro ct hct ct' heq
    cases heq
    exact hct
  cases hemit with
  | unsealed failed seals out =>
    refine ⟨chunks, none, _, true, hcalls, ⟨h.sealed, nofun⟩, h.sizes, List.prefix_rfl, nofun,
      fun _ => rfl, ?_, hpts, h.total⟩
    rw [out, h.out]
    simp [Transcript.wire, Transcript.frames, finalFrame]
  | @unwritten ct written e _ sealed failed seals out part =>
    refine ⟨chunks, some ct, _, true, hcalls, ⟨h.sealed, hsealed sealed⟩, h.sizes,
      List.prefix_rfl, fun _ => rfl, fun _ => rfl, ?_, hpts, h.total⟩
    rw [out, h.out, Transcript.wire, Transcript.frames, ← List.append_assoc]
    exact (List.prefix_append_right_inj _).mpr (by simpa [finalFrame] using part)
  | @written ct _ sealed seals out =>
    refine ⟨chunks, some ct, _, true, hcalls, ⟨h.sealed, hsealed sealed⟩, h.sizes,
      List.prefix_rfl, fun _ => rfl, fun _ => rfl, ?_, hpts, h.total⟩
    rw [out, h.out]
    simp [Transcript.wire, Transcript.frames, finalFrame]

end Writer

/-! ### The loops -/

/-- The loop variables count what the writer has sealed. -/
def Counted (aead : Aead) (sized : Prop) (k : StreamKey) (base : List EncryptCall)
    (seq total : Nat) (w : World ι ω) : Prop :=
  ∃ chunks, AtRest aead sized k base chunks w ∧ seq = chunks.length ∧
    total = (chunks.map Prod.fst).flatten.length

/-- The input never gives more than was asked for. -/
def Sized (ι : Type) [Input ι] : Prop :=
  ∀ n (i i' : ι) b, Input.read n i = (.ok b, i') → b.length ≤ n

section Loops

variable [Input ι] [Output ω] {k : StreamKey} {base : List EncryptCall}

omit [Output ω] in
theorem readInput_sized (hi : Sized ι) {n : Nat} {w w' : World ι ω} {b : Bytes}
    (h : (readInput n).run w = (.ok b, w')) : b.length ≤ n := by
  rcases hread : Input.read n w.reader.stream with ⟨r, i'⟩
  have hinput : (readInput n : Eff Exc (World ι ω) Bytes).run w =
      (r, { w with reader := { w.reader with stream := i' } }) := by
    simp only [readInput, onReader, Eff.run_zoom, StreamReader.readStream, hread]
  rw [hinput] at h
  cases h
  exact hi n _ _ b hread

theorem encryptStep_counted (env : Env H) (hk : k.baseNonce.length = nonceLen) {chunkSize : Nat}
    (hmax : chunkSize ≤ maxChunkPlaintextSize) (v : EncryptVars) (w : World ι ω)
    (h : Counted env.aead (Sized ι) k base v.sequenceNumber v.totalPlaintextBytes w) :
    Eff.Post (encryptStep env k.aesgcm k.headerBytes k.baseNonce chunkSize v) w fun r w' =>
      match r with
      | .ok (.inl v') =>
        Counted env.aead (Sized ι) k base v'.sequenceNumber v'.totalPlaintextBytes w'
      | .ok (.inr v') =>
        Counted env.aead (Sized ι) k base v'.sequenceNumber v'.totalPlaintextBytes w'
      | .error _ => Stopped env.aead (Sized ι) k base w' := by
  obtain ⟨chunks, hrest, hseq, htotal⟩ := h
  rw [encryptStep_eq]
  apply Eff.Post.bind_keeps (Quiet.onReader _)
  · intro chunk w₁ hq hread
    have hrest' := hrest.quiet hq
    by_cases hc : chunk = []
    · rw [if_pos hc]
      exact ⟨chunks, hrest', hseq, htotal⟩
    rw [if_neg hc]
    by_cases hcount : maxStreamDataFrames ≤ v.sequenceNumber
    · rw [if_pos hcount]
      exact hrest'.stopped
    rw [if_neg hcount]
    by_cases hfits : maxStreamPlaintextSize < v.totalPlaintextBytes + chunk.length
    · rw [if_pos hfits]
      exact hrest'.stopped
    rw [if_neg hfits]
    have hsize : Sized ι → chunk ≠ [] ∧ chunk.length ≤ maxChunkPlaintextSize :=
      fun hi => ⟨hc, (readInput_sized hi hread).trans hmax⟩
    rw [hseq]
    apply Eff.Post.bind
    apply (hrest'.emit hk (by omega) hsize (by omega)).mono
    intro r w₂ hemit
    cases r with
    | error e => exact hemit
    | ok u =>
      obtain ⟨ct, hnext⟩ := hemit
      refine ⟨chunks ++ [(chunk, ct)], hnext, ?_, ?_⟩
      · simp
      · simp [htotal]
  · intro e w₁ hq
    exact (hrest.quiet hq).stopped

omit [Output ω] in
/-- A DATA frame that was read is within the limits. -/
theorem readFrame_limits {seq total : Nat} {ct : Bytes} {w w' : World ι ω}
    (h : (readFrame seq total).run w = (.ok (.data ct), w')) : DataLimits seq total ct := by
  unfold readFrame at h
  obtain ⟨frameType, w₁, -, h⟩ := Eff.bind_eq_ok.mp h
  split at h
  · obtain ⟨⟨ptLen, ct'⟩, w₂, hframe, h⟩ := Eff.bind_eq_ok.mp h
    cases h
    have hcount := readDataFrame_limit hframe
    unfold readDataFrame at hframe
    rw [if_neg (by omega)] at hframe
    obtain ⟨lengthBytes, w₃, -, hframe⟩ := Eff.bind_eq_ok.mp hframe
    obtain ⟨ctLen, w₄, -, hframe⟩ := Eff.bind_eq_ok.mp hframe
    split at hframe
    · cases hframe
    next hsize =>
    dsimp only at hframe
    split at hframe
    · cases hframe
    next htotal =>
    obtain ⟨ct₁, w₅, hread, hret⟩ := Eff.bind_eq_ok.mp hframe
    cases hret
    rw [onReader, Eff.run_zoom] at hread
    have hlen : ct.length = ctLen := StreamReader.readExact_length (Prod.ext (Prod.mk.inj hread).1 rfl)
    exact ⟨hcount, by omega, by omega, by omega⟩
  · split at h
    · obtain ⟨ct', w₂, -, h⟩ := Eff.bind_eq_ok.mp h
      cases h
    · cases h

omit [Input ι] [Output ω] in
theorem openFrame_length {env : Env H} (hd : env.aead.Documented) {old : StreamKey} {seq : Nat}
    {f : Frame} {pt : Bytes} {w w' : World ι ω}
    (h : (openFrame env old seq f).run w = (.ok pt, w')) : f.ct.length = pt.length + 16 := by
  obtain ⟨rt', -, hrun⟩ := openFrame_run env old seq f w
  rw [hrun] at h
  exact StreamKey.openCt_length hd (Prod.mk.inj h).1

/-- The state of the frame loop of `migrate_stream`. -/
structure MigrateVars.Counts (v : MigrateVars) (aead : Aead) (k : StreamKey)
    (base : List EncryptCall) (w : World ι ω) : Prop where
  counted : Counted aead True k base v.newSequenceNumber v.totalPlaintextBytes w
  receivedFinal : v.receivedFinal = false
  agree : v.newSequenceNumber = v.sequenceNumber

theorem migrateFrame_counted {env : Env H} (hd : env.aead.Documented)
    (hk : k.baseNonce.length = nonceLen) (old : StreamKey) {v : MigrateVars} {w : World ι ω}
    (h : v.Counts env.aead k base w) {f : Frame}
    (hf : ∀ ct, f = .data ct → DataLimits v.sequenceNumber v.totalPlaintextBytes ct) :
    Eff.Post (migrateFrame env old k v f) w fun r w' => match r with
      | .ok (.inl v') => v'.Counts env.aead k base w'
      | .ok (.inr _) => Stopped env.aead True k base w'
      | .error _ => Stopped env.aead True k base w' := by
  obtain ⟨⟨chunks, hrest, hseq, htotal⟩, hfinal, hagree⟩ := h
  unfold migrateFrame
  apply Eff.Post.bind_keeps (Quiet.openFrame env old _ f)
  swap
  · intro e w₁ hq
    exact (hrest.quiet hq).stopped
  intro pt w₁ hq hopen
  have hlen := openFrame_length hd hopen
  replace hrest := hrest.quiet hq
  cases f with
  | data ct =>
    have hlimits := hf ct rfl
    have hcount := hlimits.count
    have hsmall := hlimits.nonempty
    have hlarge := hlimits.size
    have hfits := hlimits.total
    unfold maxChunkCiphertextSize at hlarge
    change ct.length = pt.length + 16 at hlen
    have hsize : True → pt ≠ [] ∧ pt.length ≤ maxChunkPlaintextSize := by
      intro _
      refine ⟨?_, by omega⟩
      rintro rfl
      rw [List.length_nil] at hlen
      omega
    dsimp only
    apply Eff.Post.bind
    apply Eff.Post.of_eq (newBuffer_run pt w₁)
    let w₂ : World ι ω := { w₁ with rt := { w₁.rt with heap := w₁.rt.heap ++ [pt] } }
    have hquiet : Quiet w₁ w₂ := ⟨rfl, rfl⟩
    have hemit := (hrest.quiet hquiet).emit hk (by omega) hsize (by omega)
    rw [hseq]
    rcases hrun : (emitFrame env k chunks.length aadTagData frameTypeData pt).run w₂ with ⟨r, w₃⟩
    have hend := hemit.elim hrun
    have hquiet' : Quiet w₃ { w₃ with rt := ((Runtime.zeroize w₁.rt.heap.length).run w₃.rt).2 } :=
      (Quiet.zeroize w₁.rt.heap.length).of_eq rfl
    apply Eff.Post.bind
    apply Eff.Post.of_eq (resealFresh_run env k chunks.length hrun)
    cases r with
    | error e => exact hend.quiet hquiet'
    | ok u =>
      obtain ⟨ct', hnext⟩ := hend
      have hcounted : Counted env.aead True k base (chunks.length + 1)
          (v.totalPlaintextBytes + (ct.length - 16))
          { w₃ with rt := ((Runtime.zeroize w₁.rt.heap.length).run w₃.rt).2 } := by
        refine ⟨chunks ++ [(pt, ct')], hnext.quiet hquiet', by simp, ?_⟩
        rw [htotal, hlen]
        simp
      exact ⟨hcounted, hfinal, by rw [← hagree, hseq]⟩
  | final ct =>
    dsimp only
    rw [hseq]
    have hstop := hrest.finish env hk
    rcases hrun : (emitFrame env k chunks.length aadTagFinal frameTypeFinal []).run w₁ with ⟨r, w₂⟩
    rw [hrun] at hstop
    apply Eff.Post.bind
    apply Eff.Post.of_eq hrun
    cases r with
    | error e => exact hstop
    | ok u =>
      apply Eff.Post.bind_keeps (Quiet.onReader _)
      · intro trailing w₃ hq' _
        have hstop' := hstop.quiet hq'
        cases trailing with
        | true => exact hstop'
        | false => exact hstop'
      · intro e w₃ hq'
        exact hstop.quiet hq'

theorem migrateStep_counted {env : Env H} (hd : env.aead.Documented)
    (hk : k.baseNonce.length = nonceLen) (old : StreamKey) (v : MigrateVars) (w : World ι ω)
    (h : v.Counts env.aead k base w) :
    Eff.Post (migrateStep env old.aesgcm old.headerBytes old.baseNonce k.aesgcm k.headerBytes
        k.baseNonce v) w fun r w' => match r with
      | .ok (.inl v') => v'.Counts env.aead k base w'
      | .ok (.inr _) => Stopped env.aead True k base w'
      | .error _ => Stopped env.aead True k base w' := by
  have hpass : Eff.Post (readFrame v.sequenceNumber v.totalPlaintextBytes >>=
      migrateFrame env old k v) w fun r w' => match r with
      | .ok (.inl v') => v'.Counts env.aead k base w'
      | .ok (.inr _) => Stopped env.aead True k base w'
      | .error _ => Stopped env.aead True k base w' := by
    obtain ⟨chunks, hrest, hseq, htotal⟩ := h.counted
    apply Eff.Post.bind_keeps (OnlyReads.readFrame _ _)
    · intro f w₁ hq hread
      have hcounts : v.Counts env.aead k base w₁ :=
        ⟨⟨chunks, hrest.quiet (Quiet.of_onlyReads hq), hseq, htotal⟩, h.receivedFinal, h.agree⟩
      apply migrateFrame_counted hd hk old hcounts
      rintro ct rfl
      exact readFrame_limits hread
    · intro e w₁ hq
      exact (hrest.quiet (Quiet.of_onlyReads hq)).stopped
  unfold Eff.Post at hpass ⊢
  rw [migrateStep_run env old k h.receivedFinal h.agree]
  exact hpass

end Loops

/-! ### Whole runs -/

/-- A run that raises before it calls `AESGCM.encrypt` or writes, or keeps the discipline under the
key that is derived for the bundle. -/
def Obeys (env : Env H) (sized : Prop) (bundle : PublicBundle) (rt : Runtime)
    (r : Except Exc Unit) (w : World ι ω) : Prop :=
  ((∃ e, r = .error e) ∧ SameCalls rt w.rt ∧ w.out = []) ∨
    ∃ k : StreamKey, k.DerivedFrom env bundle rt ∧ Stopped env.aead sized k rt.encryptCalls w

section Runs

variable [Input ι] [Output ω] {k : StreamKey} {base : List EncryptCall}

omit [Input ι] [Output ω] in
theorem AtRest.start {aead : Aead} {sized : Prop} {w : World ι ω} (hcalls : w.rt.encryptCalls = base)
    (hout : w.out = k.headerBytes) : AtRest aead sized k base [] w where
  sealed := SealedFrom.nil
  sizes _ := by simp [ChunkSizes]
  calls := by simp [hcalls, dataCalls]
  out := by simp [hout, dataFrames]
  count := Nat.zero_le _
  total := Nat.zero_le _

omit [Input ι] in
/-- The header is written at once, or a first part of it is all there is. -/
theorem write_header (aead : Aead) (sized : Prop) (k : StreamKey) {w : World ι ω}
    (hcalls : w.rt.encryptCalls = base) (hout : w.out = []) :
    Eff.Post (write k.headerBytes) w fun r w' => w'.rt = w.rt ∧ match r with
      | .ok _ => AtRest aead sized k base [] w'
      | .error _ => Stopped aead sized k base w' := by
  obtain ⟨r, w', written, hrun, hrt, -, hwritten, hpart, hall⟩ := Appends.write k.headerBytes w
  rw [hout, List.nil_append] at hwritten
  apply Eff.Post.of_eq hrun
  refine ⟨hrt, ?_⟩
  cases r with
  | ok u => exact AtRest.start (by rw [hrt, hcalls]) (by rw [hwritten, hall rfl])
  | error e =>
    refine ⟨[], none, [], false, ?_, ⟨SealedFrom.nil, nofun⟩, fun _ => by simp [ChunkSizes],
      List.prefix_rfl, nofun, fun _ => rfl, ?_, Nat.zero_le _, Nat.zero_le _⟩
    · simp [hrt, hcalls, streamCalls, dataCalls]
    · rw [hwritten]
      simpa [Transcript.wire, Transcript.frames, dataFrames, finalFrame] using hpart

theorem encryptLoop_finish (env : Env H) (hk : k.baseNonce.length = nonceLen) {chunkSize : Nat}
    (hmax : chunkSize ≤ maxChunkPlaintextSize) {w : World ι ω}
    (h : AtRest env.aead (Sized ι) k base [] w) :
    Eff.Post ((encryptLoop env k.aesgcm k.headerBytes k.baseNonce chunkSize).toEff {} >>= fun v =>
      emitFrame env k v.sequenceNumber aadTagFinal frameTypeFinal []) w fun _ w' =>
        Stopped env.aead (Sized ι) k base w' := by
  have hloop : Eff.Post ((encryptLoop env k.aesgcm k.headerBytes k.baseNonce chunkSize).toEff {}) w
      fun r w' => match r with
        | .ok v => Counted env.aead (Sized ι) k base v.sequenceNumber v.totalPlaintextBytes w'
        | .error _ => Stopped env.aead (Sized ι) k base w' := by
    apply Loop.run_post _ (I := fun v w =>
      Counted env.aead (Sized ι) k base v.sequenceNumber v.totalPlaintextBytes w) _ _ _ ⟨[], h, rfl, rfl⟩
    intro v w hv
    apply (encryptStep_counted env hk hmax v w hv).mono
    intro r w' hr
    rcases r with e | (v' | v') <;> exact hr
  apply Eff.Post.bind
  apply hloop.mono
  intro r w' hr
  cases r with
  | error e => exact hr
  | ok v =>
    obtain ⟨chunks, hrest, hseq, -⟩ := hr
    have hstop := hrest.finish env hk
    rw [← hseq] at hstop
    exact hstop

theorem encryptUnder_stopped (env : Env H) (chunkSize : Int) (hk : k.baseNonce.length = nonceLen)
    {w : World ι ω} (hcalls : w.rt.encryptCalls = base) (hout : w.out = []) :
    Eff.Post (encryptUnder env chunkSize k) w fun r w' =>
      ((∃ e, r = .error e) ∧ w'.rt.encryptCalls = base ∧ w'.out = []) ∨
        Stopped env.aead (Sized ι) k base w' := by
  unfold encryptUnder
  by_cases hsize : chunkSize ≤ 0 ∨ (maxChunkPlaintextSize : Int) < chunkSize
  · rw [if_pos hsize]
    exact Or.inl ⟨⟨_, rfl⟩, hcalls, hout⟩
  rw [if_neg hsize]
  apply Eff.Post.bind
  apply (write_header env.aead (Sized ι) k hcalls hout).mono
  rintro (e | u) w₁ ⟨-, hstart⟩
  · exact Or.inr hstart
  apply Eff.Post.bind
  apply Eff.Post.of_eq (newBuffer_run k.aesgcm w₁)
  let w₂ : World ι ω := { w₁ with rt := { w₁.rt with heap := w₁.rt.heap ++ [k.aesgcm] } }
  have hbuf : w₂.rt.heap.getD w₁.rt.heap.length [] = k.aesgcm := heap_getD_append _ _
  have hquiet : Quiet w₁ w₂ := ⟨rfl, rfl⟩
  apply Eff.Post.tryFinally
  apply Eff.Post.bind
  apply Eff.Post.of_eq (readBuffer_run hbuf w₂ rfl)
  dsimp only
  cases hinit : env.aead.init k.aesgcm with
  | error e =>
    rw [AESGCM_of_error hinit]
    have hstop := (hstart.quiet hquiet).stopped
    exact Or.inr (hstop.quiet ((Quiet.zeroize _).of_eq rfl))
  | ok _ =>
  rw [AESGCM_of_init hinit]
  apply Eff.Post.lift_ok
  apply (encryptLoop_finish env hk (by omega) (hstart.quiet hquiet)).mono
  intro r w₃ hstop
  apply Eff.Post.of_eq rfl
  exact Or.inr (hstop.quiet ((Quiet.zeroize _).of_eq rfl))

theorem encryptStream_obeys (env : Env H) (bundle : PublicBundle) (chunkSize : Int) (rt : Runtime)
    (i : ι) (sink : ω) :
    Eff.Post (encryptStream env bundle chunkSize) (World.start rt i sink) fun r w' =>
      Obeys env (Sized ι) bundle rt r w' := by
  rw [encryptStream_eq]
  obtain ⟨r, rt₁, hderive, hnew⟩ :=
    newStream_run env bundle noNonceToEncrypt (World.start rt i sink)
  have hcalls : SameCalls rt rt₁ := (SameCalls.stable.deriveRootKey env bundle).of_eq hderive
  apply Eff.Post.bind
  rcases hnew with ⟨e, hraise, -⟩ | ⟨k, hk, hkey⟩
  · exact Eff.Post.of_eq hraise (Or.inl ⟨⟨e, rfl⟩, hcalls, rfl⟩)
  apply Eff.Post.of_eq hkey
  have hbase : ({ World.start rt i sink with rt := rt₁ } : World ι ω).rt.encryptCalls =
    rt.encryptCalls := hcalls
  apply (encryptUnder_stopped env chunkSize hk.lengths.2 hbase rfl).mono
  rintro r w' (hquiet | hstop)
  · exact Or.inl hquiet
  · exact Or.inr ⟨k, hk, hstop⟩

theorem migrateLoop_stopped {env : Env H} (hd : env.aead.Documented)
    (hk : k.baseNonce.length = nonceLen) (old : StreamKey) {w : World ι ω}
    (h : AtRest env.aead True k base [] w) :
    Eff.Post ((migrateLoop env old.aesgcm old.headerBytes old.baseNonce k.aesgcm k.headerBytes
      k.baseNonce).toEff {}) w fun _ w' => Stopped env.aead True k base w' := by
  apply Loop.run_post _ (I := fun v w => v.Counts env.aead k base w) _ _ _
    ⟨⟨[], h, rfl, rfl⟩, rfl, rfl⟩
  intro v w hv
  apply (migrateStep_counted hd hk old v w hv).mono
  intro r w' hr
  rcases r with e | (v' | b) <;> exact hr

theorem migrateUnder_stopped {env : Env H} (hd : env.aead.Documented) (p : Prologue) (oldBuf : Nat)
    (hk : k.baseNonce.length = nonceLen) {w : World ι ω} (hcalls : w.rt.encryptCalls = base)
    (hout : w.out = []) :
    Eff.Post (migrateUnder env p oldBuf k) w fun _ w' => Stopped env.aead True k base w' := by
  unfold migrateUnder
  apply Eff.Post.bind
  apply Eff.Post.of_eq (newBuffer_run k.aesgcm w)
  have hbuf : (w.rt.heap ++ [k.aesgcm]).getD w.rt.heap.length [] = k.aesgcm :=
    heap_getD_append _ _
  let w₁ : World ι ω := { w with rt := { w.rt with heap := w.rt.heap ++ [k.aesgcm] } }
  have hwrite := write_header env.aead True k (w := w₁) hcalls hout
  apply Eff.Post.bind
  apply hwrite.mono
  rintro (e | u) w₂ ⟨hrt, hstart⟩
  · exact hstart
  have hstop : ∀ (x : Eff Exc (World ι ω) Unit),
      Eff.Post x w₂ (fun _ w' => Stopped env.aead True k base w') →
      Eff.Post (Eff.tryFinally (Eff.tryCatch x fun e => Eff.raise e.collapse) (do
        onRuntime (Runtime.zeroize oldBuf)
        onRuntime (Runtime.zeroize w.rt.heap.length))) w₂ fun _ w' =>
          Stopped env.aead True k base w' := by
    intro x hx
    apply Eff.Post.tryFinally
    apply Eff.Post.tryCatch
    apply hx.mono
    intro r w₃ h₃
    have hquiet : Quiet w₃ { w₃ with rt := ((Runtime.zeroize w.rt.heap.length).run
        ((Runtime.zeroize oldBuf).run w₃.rt).2).2 } := ⟨rfl, rfl⟩
    cases r with
    | ok u => exact Eff.Post.of_eq rfl (h₃.quiet hquiet)
    | error e => exact Eff.Post.of_eq rfl (h₃.quiet hquiet)
  apply hstop
  apply Eff.Post.bind
  apply Eff.Post.of_eq (readBuffer_run rfl w₂ rfl)
  dsimp only
  cases AESGCM env.aead (w₂.rt.heap.getD oldBuf []) with
  | error e => exact hstart.stopped
  | ok oldAesgcm =>
  apply Eff.Post.lift_ok
  apply Eff.Post.bind
  have hnew : w₂.rt.heap.getD w.rt.heap.length [] = k.aesgcm := by
    rw [hrt]
    exact hbuf
  apply Eff.Post.of_eq (readBuffer_run hnew w₂ rfl)
  dsimp only
  cases hinit : env.aead.init k.aesgcm with
  | error e =>
    rw [AESGCM_of_error hinit]
    exact hstart.stopped
  | ok _ =>
  rw [AESGCM_of_init hinit]
  apply Eff.Post.lift_ok
  apply Eff.Post.bind
  have hreader : (newReader p.unconsumedInitial : Eff Exc (World ι ω) Unit).run w₂ =
    (.ok (), { w₂ with reader := { w₂.reader with buf := p.unconsumedInitial } }) := rfl
  apply Eff.Post.of_eq hreader
  have hquiet : Quiet w₂ { w₂ with reader := { w₂.reader with buf := p.unconsumedInitial } } :=
    ⟨rfl, rfl⟩
  apply Eff.Post.bind
  apply (migrateLoop_stopped hd hk ⟨oldAesgcm, p.headerBytes, p.baseNonce⟩
    (hstart.quiet hquiet)).mono
  intro r w₃ h₃
  rcases r with e | (_ | _) <;> exact h₃

theorem migrateFrom_obeys {env : Env H} (hd : env.aead.Documented) (bundle : PublicBundle)
    (p : Prologue) {w : World ι ω} (hout : w.out = []) :
    Eff.Post (migrateFrom env bundle p) w fun r w' => Obeys env True bundle w.rt r w' := by
  obtain ⟨r, rt₁, hderive, hnew⟩ := migrateFrom_run env bundle p w
  have hsame : SameCalls (p.before w.rt) rt₁ :=
    (SameCalls.stable.deriveRootKey env bundle).of_eq hderive
  have hcalls : SameCalls w.rt rt₁ := hsame
  rcases hnew with ⟨e, hraise, -⟩ | ⟨k, hk, hunder⟩
  · exact Eff.Post.of_eq hraise (Or.inl ⟨⟨e, rfl⟩, hcalls, hout⟩)
  have hpool : (p.before w.rt).entropy = w.rt.entropy := rfl
  have hbase : ({ w with rt := rt₁ } : World ι ω).rt.encryptCalls = w.rt.encryptCalls := hcalls
  have hstop := migrateUnder_stopped hd p w.rt.heap.length hk.lengths.2 hbase hout
  unfold Eff.Post at hstop ⊢
  rw [hunder]
  exact Or.inr ⟨k, hk.of_entropy hpool, hstop⟩

theorem migrateStream_obeys {env : Env H} (hd : env.aead.Documented) (handles : List H)
    (bundle : PublicBundle) (minProfile : Option PyStr) (rt : Runtime) (i : ι) (sink : ω) :
    Eff.Post (migrateStream env handles bundle minProfile) (World.start rt i sink) fun r w' =>
      Obeys env True bundle rt r w' := by
  rw [migrateStream_eq]
  have hquiet : Eff.Keeps Quiet (readPrologue env handles minProfile :
      Eff Exc (World ι ω) Prologue) := by
    apply Eff.Keeps.bind Quiet.trans (Quiet.onReader _)
    intro initial
    exact Quiet.onRuntime (SameCalls.stable.toRecording.parsePrologue env handles minProfile initial)
  have hpool : Eff.Keeps (fun w w' : World ι ω => SamePool w.rt w'.rt)
      (readPrologue env handles minProfile) := by
    have hread : Eff.Keeps (fun w w' : World ι ω => SamePool w.rt w'.rt)
        (readInput maxHeaderSize) := fun _ => rfl
    have htrans : ∀ w₁ w₂ w₃ : World ι ω, SamePool w₁.rt w₂.rt → SamePool w₂.rt w₃.rt →
        SamePool w₁.rt w₃.rt := fun _ _ _ h h' => Eq.trans h' h
    refine Eff.Keeps.bind htrans hread ?_
    intro initial w
    exact SamePool.recording.parsePrologue env handles minProfile initial w.rt
  apply Eff.Post.bind_keeps hquiet
  · intro p w₁ hq hread
    have hsame : w₁.rt.entropy = rt.entropy := hpool.of_eq hread
    have hcalls : w₁.rt.encryptCalls = rt.encryptCalls := hq.1
    apply (migrateFrom_obeys hd bundle p hq.2).mono
    rintro r w₂ (⟨hraised, hcalls', hout⟩ | ⟨k, hk, hstop⟩)
    · exact Or.inl ⟨hraised, Eq.trans hcalls' hcalls, hout⟩
    · rw [hcalls] at hstop
      exact Or.inr ⟨k, hk.of_entropy hsame, hstop⟩
  · intro e w₁ hq
    exact Or.inl ⟨⟨e, rfl⟩, hq⟩

end Runs

/-! ### The discipline -/

/-- The length field and the payload of a written DATA frame agree, within the chunk limits. -/
def DeclaresItsLength (frame : Bytes) : Prop :=
  ∃ n, unpack 4 (slice frame 1 5) = .ok n ∧ (frame.drop 5).length = n ∧ 17 ≤ n ∧
    n ≤ maxChunkCiphertextSize

theorem declaresItsLength {ct : Bytes} (hmin : 17 ≤ ct.length)
    (hmax : ct.length ≤ maxChunkCiphertextSize) :
    DeclaresItsLength (frameBytes frameTypeData ct) := by
  have hslice : slice (frameBytes frameTypeData ct) 1 5 = beEncode 4 ct.length := by
    simp [slice, frameBytes, beEncode]
  have hpayload : (frameBytes frameTypeData ct).drop 5 = ct := by
    simp [frameBytes, beEncode]
  refine ⟨ct.length, ?_, congrArg List.length hpayload, hmin, hmax⟩
  rw [hslice]
  exact unpack_length hmax

/-- What the discipline says of a run that started in `rt` and ended with `r` in `w`: it raised
before it called `AESGCM.encrypt` or wrote; or its calls are those of one stream under the key
derived for the bundle, one nonce each, and it wrote a first part of what they sealed. -/
def SequenceDiscipline (env : Env H) (sized : Prop) (bundle : PublicBundle) (rt : Runtime)
    (r : Except Exc Unit) (w : World ι ω) : Prop :=
  ((∃ e, r = .error e) ∧ SameCalls rt w.rt ∧ w.out = []) ∨
    ∃ t pts ended, t.key.DerivedFrom env bundle rt ∧
      w.rt.encryptCalls = rt.encryptCalls ++ streamCalls t.key pts ended ∧
      ((streamCalls t.key pts ended).map (·.nonce)).Nodup ∧
      (∀ seq, seq ≤ pts.length → deriveChunkNonce t.key.baseNonce seq = .ok (t.key.nonceAt seq) ∧
        ∀ tag, deriveChunkAad t.key.headerBytes seq tag = .ok (t.key.aadAt seq tag)) ∧
      Disciplined env.aead sized t pts ended w.out ∧
      (sized → ∀ c ∈ t.chunks, DeclaresItsLength (frameBytes frameTypeData c.2))

theorem SealedFrom.sealed_mem {aead : Aead} {k : StreamKey} {seq : Nat}
    {chunks : List (Bytes × Bytes)} (h : SealedFrom aead k seq chunks) {c : Bytes × Bytes}
    (hc : c ∈ chunks) : ∃ i, k.sealPt aead i aadTagData c.1 = .ok c.2 := by
  induction h with
  | nil => cases hc
  | @cons seq pt ct chunks sealed more ih =>
    rcases List.mem_cons.mp hc with rfl | hmore
    · exact ⟨seq, sealed⟩
    · exact ih hmore

theorem Obeys.discipline {env : Env H} (ha : env.aead.Correct) {sized : Prop}
    {bundle : PublicBundle} {rt : Runtime} {r : Except Exc Unit} {w : World ι ω}
    (h : Obeys env sized bundle rt r w) : SequenceDiscipline env sized bundle rt r w := by
  rcases h with hquiet | ⟨k, hk, chunks, final, pts, ended, hcalls, hd⟩
  · exact Or.inl hquiet
  have hcount := hd.count
  refine Or.inr ⟨⟨k, chunks, final⟩, pts, ended, hk, hcalls, streamCalls_nodup k ended hcount,
    ?_, hd, ?_⟩
  · intro seq hseq
    have hmax : seq ≤ maxStreamDataFrames := hseq.trans hcount
    exact ⟨deriveChunkNonce_eq hk.lengths.2 hmax, fun tag => deriveChunkAad_eq _ tag hmax⟩
  · intro hs c hc
    obtain ⟨hne, hsize⟩ := hd.sizes hs c hc
    obtain ⟨i, hseal⟩ := hd.valid.chunks.sealed_mem hc
    have hlen := (StreamKey.openCt_of_sealPt ha hseal).1
    have hpos := List.length_pos_iff.mpr hne
    apply declaresItsLength
    · omega
    · rw [hlen, maxChunkCiphertextSize]
      omega

section Discipline

variable [Input ι] [Output ω]

/-- Both stream writers keep the discipline in every run, however it ends, and in every state of
their loops the variables count the frames written so far, within both limits. -/
theorem streamWriters_disciplined (env : Env H) (ha : env.aead.Correct)
    (bundle : PublicBundle) (chunkSize : Int) (handles : List H) (minProfile : Option PyStr)
    (rt : Runtime) (i : ι) (sink : ω) :
    (∀ r w', (encryptStream env bundle chunkSize).run (World.start rt i sink) = (r, w') →
      SequenceDiscipline env (Sized ι) bundle rt r w') ∧
    (∀ r w', (migrateStream env handles bundle minProfile).run (World.start rt i sink) = (r, w') →
      SequenceDiscipline env True bundle rt r w') ∧
    ∀ (k old : StreamKey) (base : List EncryptCall) (w : World ι ω),
      k.DerivedFrom env bundle rt → w.rt.encryptCalls = base → w.out = k.headerBytes →
      (∀ v w', (encryptLoop env k.aesgcm k.headerBytes k.baseNonce chunkSize.toNat).Reaches {} w v w' →
        chunkSize ≤ maxChunkPlaintextSize →
        Counted env.aead (Sized ι) k base v.sequenceNumber v.totalPlaintextBytes w') ∧
      ∀ v w', (migrateLoop env old.aesgcm old.headerBytes old.baseNonce k.aesgcm k.headerBytes
        k.baseNonce).Reaches {} w v w' →
        Counted env.aead True k base v.newSequenceNumber v.totalPlaintextBytes w' := by
  refine ⟨?_, ?_, ?_⟩
  · intro r w' hrun
    exact ((encryptStream_obeys env bundle chunkSize rt i sink).elim hrun).discipline ha
  · intro r w' hrun
    exact ((migrateStream_obeys ha.toDocumented handles bundle minProfile rt i sink).elim
      hrun).discipline ha
  · intro k old base w hk hcalls hout
    have hlen := hk.lengths.2
    refine ⟨?_, ?_⟩
    · intro v w' hreach hmax
      apply Loop.Reaches.post _ (I := fun v w' =>
        Counted env.aead (Sized ι) k base v.sequenceNumber v.totalPlaintextBytes w') _ hreach
        ⟨[], AtRest.start hcalls hout, rfl, rfl⟩
      intro v w v' w' hv hstep
      exact (encryptStep_counted env hlen (by omega) v w hv).elim hstep
    · intro v w' hreach
      have hcounts : v.Counts env.aead k base w' := by
        apply Loop.Reaches.post _ (I := fun v w' => v.Counts env.aead k base w') _ hreach
          ⟨⟨[], AtRest.start hcalls hout, rfl, rfl⟩, rfl, rfl⟩
        intro v w v' w' hv hstep
        exact (migrateStep_counted ha.toDocumented hlen old v w hv).elim hstep
      exact hcounts.counted

end Discipline

theorem streamWriters_disciplined_zero :
    SequenceDiscipline (xorEnv zeroTagAead) (Sized MemoryStream) zeroBundle zeroRuntime
      ((encryptStream (xorEnv zeroTagAead) zeroBundle 1).run
        (World.start zeroRuntime (MemoryStream.mk [0]) BytesSink.mk)).1
      ((encryptStream (xorEnv zeroTagAead) zeroBundle 1).run
        (World.start zeroRuntime (MemoryStream.mk [0]) BytesSink.mk)).2 :=
  (streamWriters_disciplined (xorEnv zeroTagAead) zeroTagAead_correct zeroBundle 1 [] none
    zeroRuntime (MemoryStream.mk [0]) BytesSink.mk).1 _ _ rfl

end CryptoFlex
