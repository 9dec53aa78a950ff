import CryptoFlex.Streaming.Decoding
import CryptoFlex.Streaming.Stream
import CryptoFlex.Api.KeyRecovery

namespace CryptoFlex

open Lib World

/-- The key, header bytes and base nonce of one stream. -/
structure StreamKey where
  aesgcm : Bytes
  headerBytes : Bytes
  baseNonce : Bytes

namespace StreamKey

/-- Open the frame body `ct` at place `seq`. -/
def openCt (aead : Aead) (k : StreamKey) (seq : Nat) (tag ct : Bytes) : Except Exc Bytes := do
  let nonce ← deriveChunkNonce k.baseNonce seq
  let aad ← deriveChunkAad k.headerBytes seq tag
  aead.decrypt k.aesgcm nonce ct aad

theorem openCt_length {aead : Aead} (ha : aead.Documented) {k : StreamKey} {seq : Nat}
    {tag ct pt : Bytes} (h : k.openCt aead seq tag ct = .ok pt) : ct.length = pt.length + 16 := by
  obtain ⟨nonce, -, h⟩ := bind_eq_ok.mp h
  obtain ⟨aad, -, h⟩ := bind_eq_ok.mp h
  exact ha.decrypt_length _ _ _ _ _ h

end StreamKey

def Frame.ct : Frame → Bytes
  | data ct => ct
  | final ct => ct

def Frame.tag : Frame → Bytes
  | data _ => aadTagData
  | final _ => aadTagFinal

def trailingData : Exc :=
  .decryptionError "decryption failed: trailing data after FINAL frame"

/-- The bytes after a stream's header, from place `seq` on: the chunks they authenticate, and how
the decoding ends, either with a failure or behind an authentic end mark with the rest. -/
inductive Decodes (aead : Aead) (k : StreamKey) :
    Nat → Nat → Bytes → List Bytes → Except Exc Bytes → Prop
  | malformed {seq total : Nat} {bs : Bytes} {e : Exc}
    (frame : (nextFrame seq total).run bs = .error e) :
    Decodes aead k seq total bs [] (.error e)
  | rejected {seq total : Nat} {bs rest : Bytes} {f : Frame} {e : Exc}
    (frame : (nextFrame seq total).run bs = .ok (f, rest))
    (opened : k.openCt aead seq f.tag f.ct = .error e) :
    Decodes aead k seq total bs [] (.error e)
  | data {seq total : Nat} {bs rest ct pt : Bytes} {chunks : List Bytes}
    {ending : Except Exc Bytes}
    (frame : (nextFrame seq total).run bs = .ok (.data ct, rest))
    (opened : k.openCt aead seq aadTagData ct = .ok pt)
    (more : Decodes aead k (seq + 1) (total + pt.length) rest chunks ending) :
    Decodes aead k seq total bs (pt :: chunks) ending
  | final {seq total : Nat} {bs rest ct pt : Bytes}
    (frame : (nextFrame seq total).run bs = .ok (.final ct, rest))
    (opened : k.openCt aead seq aadTagFinal ct = .ok pt) :
    Decodes aead k seq total bs [] (.ok rest)

/-- Nothing may follow the end mark. -/
def noTrailing (rest : Bytes) : Except Exc Unit :=
  if rest = [] then .ok () else .error trailingData

/-- Bytes decode in one way only. -/
theorem Decodes.unique {aead : Aead} {k : StreamKey} {seq total : Nat} {bs : Bytes}
    {chunks chunks' : List Bytes} {ending ending' : Except Exc Bytes}
    (h : Decodes aead k seq total bs chunks ending)
    (h' : Decodes aead k seq total bs chunks' ending') :
    chunks = chunks' ∧ ending = ending' := by
  induction h generalizing chunks' with
  | malformed frame =>
    cases h' with
    | malformed frame' => simp_all
    | rejected frame' _ => simp_all
    | data frame' _ _ => simp_all
    | final frame' _ => simp_all
  | rejected frame opened =>
    cases h' with
    | malformed frame' => simp_all
    | rejected frame' opened' =>
      rw [frame] at frame'
      cases frame'
      simp_all
    | data frame' opened' _ =>
      rw [frame] at frame'
      cases frame'
      simp_all [Frame.tag, Frame.ct]
    | final frame' opened' =>
      rw [frame] at frame'
      cases frame'
      simp_all [Frame.tag, Frame.ct]
  | data frame opened more ih =>
    cases h' with
    | malformed frame' => simp_all
    | rejected frame' opened' =>
      rw [frame] at frame'
      cases frame'
      simp_all [Frame.tag, Frame.ct]
    | data frame' opened' more' =>
      rw [frame] at frame'
      cases frame'
      rw [opened] at opened'
      cases opened'
      obtain ⟨rfl, rfl⟩ := ih more'
      exact ⟨rfl, rfl⟩
    | final frame' _ => simp_all
  | final frame opened =>
    cases h' with
    | malformed frame' => simp_all
    | rejected frame' opened' =>
      rw [frame] at frame'
      cases frame'
      simp_all [Frame.tag, Frame.ct]
    | data frame' _ _ => simp_all
    | final frame' opened' =>
      rw [frame] at frame'
      cases frame'
      exact ⟨rfl, rfl⟩

/-- All bytes decode in some way. -/
theorem decodes_exists (aead : Aead) (k : StreamKey) (seq total : Nat) (bs : Bytes) :
    ∃ chunks ending, Decodes aead k seq total bs chunks ending := by
  induction hd : maxStreamDataFrames - seq using Nat.strongRecOn generalizing seq total bs with
  | ind d ih =>
    cases hf : (nextFrame seq total).run bs with
    | error e => exact ⟨[], .error e, Decodes.malformed hf⟩
    | ok fr =>
      obtain ⟨f, rest⟩ := fr
      cases ho : k.openCt aead seq f.tag f.ct with
      | error e => exact ⟨[], .error e, Decodes.rejected hf ho⟩
      | ok pt =>
        cases f with
        | final ct => exact ⟨[], _, Decodes.final hf ho⟩
        | data ct =>
          have hvalid : DataLimits seq total ct := (nextFrame_eq_ok hf).2
          have hlt := hvalid.count
          obtain ⟨chunks, ending, hmore⟩ :=
            ih (maxStreamDataFrames - (seq + 1)) (by omega) (seq + 1) (total + pt.length) rest rfl
          exact ⟨pt :: chunks, ending, Decodes.data hf ho hmore⟩

section Loop

variable {H ι ω : Type}

section Read

variable [Input ι]

/-- The part of a loop pass that takes the next frame off the input. -/
def readFrame (sequenceNumber totalPlaintextBytes : Nat) : Eff Exc (World ι ω) Frame := do
  let frameType ← readFrameType false
  if frameType = frameTypeData then
    let (_, ct) ← readDataFrame sequenceNumber totalPlaintextBytes
    return .data ct
  else if frameType = frameTypeFinal then
    let ct ← readFinalFrame
    return .final ct
  else Eff.raise (invalidFrameType frameType)

theorem readFrame_follows (seq total : Nat) :
    Follows (readFrame seq total : Eff Exc (World ι ω) Frame) (nextFrame seq total) := by
  apply Follows.readFrameType.bind
  intro frameType
  apply Follows.ite
  · apply (Follows.readDataFrame seq total).bind
    intro f
    exact Follows.pure _
  · apply Follows.ite
    · apply Follows.readFinalFrame.bind
      intro ct
      exact Follows.pure _
    · exact Follows.raise _

end Read

/-- Opening a frame inside a loop pass. -/
def openFrame (env : Env H) (k : StreamKey) (seq : Nat) (f : Frame) :
    Eff Exc (World ι ω) Bytes := do
  let nonce ← Eff.lift (deriveChunkNonce k.baseNonce seq)
  let aad ← Eff.lift (deriveChunkAad k.headerBytes seq f.tag)
  onRuntime (aesgcmDecrypt env k.aesgcm nonce f.ct aad)

/-- It is the pure opening, and nothing but the call is recorded. -/
theorem openFrame_run (env : Env H) (k : StreamKey) (seq : Nat) (f : Frame) (w : World ι ω) :
    ∃ rt', rt'.seals = w.rt.seals ∧ (openFrame env k seq f).run w =
      (k.openCt env.aead seq f.tag f.ct, { w with rt := rt' }) := by
  unfold openFrame StreamKey.openCt
  cases deriveChunkNonce k.baseNonce seq with
  | error e => exact ⟨w.rt, rfl, rfl⟩
  | ok nonce =>
    cases deriveChunkAad k.headerBytes seq f.tag with
    | error e => exact ⟨w.rt, rfl, rfl⟩
    | ok aad =>
      have hseals := SealsNothing.aesgcmDecrypt env k.aesgcm nonce f.ct aad w.rt
      exact ⟨_, hseals, rfl⟩

theorem onHasRemaining_run [Input ι] {w : World ι ω} {bs : Bytes} (h : w.reader.Holds bs) :
    ∃ r', (onReader StreamReader.hasRemaining).run w =
      (.ok (decide (bs ≠ [])), { w with reader := r' }) ∧ r'.Holds bs := by
  obtain ⟨r', hrun, hr'⟩ := StreamReader.hasRemaining_holds h
  refine ⟨r', ?_, hr'⟩
  rw [onReader, Eff.run_zoom, hrun]

section Write

variable [Output ω]

/-- Write byte strings one after the other until a write fails: the outcome and what was written. -/
def writeAll : List Bytes → ω → Except Exc Unit × Bytes
  | [], _ => (.ok (), [])
  | b :: bs, sink =>
    match Output.write b sink with
    | (none, sink') => ((writeAll bs sink').1, b ++ (writeAll bs sink').2)
    | (some (k, e), _) => (.error e, b.take k)

theorem writeAll_reliable (hO : Reliable ω) (bs : List Bytes) (sink : ω) :
    writeAll bs sink = (.ok (), bs.flatten) := by
  induction bs generalizing sink with
  | nil => rfl
  | cons b bs ih =>
    have hnone := hO b sink
    rcases hw : Output.write b sink with ⟨r, sink'⟩
    rw [hw] at hnone
    dsimp only at hnone
    subst hnone
    simp only [writeAll, hw, ih, List.flatten_cons]

theorem writeAll_flatten {bs : List Bytes} {sink : ω} (h : (writeAll bs sink).1 = .ok ()) :
    (writeAll bs sink).2 = bs.flatten := by
  induction bs generalizing sink with
  | nil => rfl
  | cons b bs ih =>
    rcases hw : Output.write b sink with ⟨_ | ⟨k, e⟩, sink'⟩
    · simp only [writeAll, hw] at h ⊢
      rw [ih h, List.flatten_cons]
    · simp only [writeAll, hw] at h
      cases h

/-- Some of the byte strings are written whole, and of the next one what a failing write leaves. -/
theorem writeAll_out (bs : List Bytes) (sink : ω) :
    ∃ k b, k ≤ bs.length ∧ (writeAll bs sink).2 = (bs.take k).flatten ++ b ∧
      b <+: bs.getD k [] ∧ (AllOrNothing ω → b = []) := by
  induction bs generalizing sink with
  | nil => exact ⟨0, [], Nat.le_refl 0, rfl, List.nil_prefix, fun _ => rfl⟩
  | cons b bs ih =>
    rcases hw : Output.write b sink with ⟨_ | ⟨n, e⟩, sink'⟩
    · obtain ⟨k, b', hk, hout, hpart, hatomic⟩ := ih sink'
      refine ⟨k + 1, b', Nat.succ_le_succ hk, ?_, hpart, hatomic⟩
      simp only [writeAll, hw, hout, List.take_succ_cons, List.flatten_cons, List.append_assoc]
    · refine ⟨0, b.take n, Nat.zero_le _, ?_, List.take_prefix n b, ?_⟩
      · simp only [writeAll, hw, List.take_zero, List.flatten_nil, List.nil_append]
      · intro hO
        rw [hO b sink sink' n e hw, List.take_zero]

theorem write_ok {b : Bytes} {w : World ι ω} {sink : ω}
    (h : Output.write b w.sink = (none, sink)) :
    (write b).run w = (.ok (), { w with sink, out := w.out ++ b }) := by
  simp only [write, h]

theorem write_error {b : Bytes} {w : World ι ω} {sink : ω} {n : Nat} {e : Exc}
    (h : Output.write b w.sink = (some (n, e), sink)) :
    (write b).run w = (.error e, { w with sink, out := w.out ++ b.take n }) := by
  simp only [write, h]

theorem write_reliable (hO : Reliable ω) (b : Bytes) (w : World ι ω) :
    ∃ sink, (write b).run w = (.ok (), { w with sink, out := w.out ++ b }) := by
  have hnone := hO b w.sink
  rcases hs : Output.write b w.sink with ⟨r, sink⟩
  rw [hs] at hnone
  dsimp only at hnone
  subst hnone
  exact ⟨sink, write_ok hs⟩

end Write

variable [Input ι] [Output ω]

/-- The rest of a pass of `decrypt_stream`, once the frame is read. -/
def decryptFrame (env : Env H) (k : StreamKey) (v : DecryptVars) (f : Frame) :
    Eff Exc (World ι ω) (DecryptVars ⊕ Bool) := do
  let plaintext ← openFrame env k v.sequenceNumber f
  match f with
  | .data _ =>
    write plaintext
    return .inl { v with
      sequenceNumber := v.sequenceNumber + 1
      totalPlaintextBytes := v.totalPlaintextBytes + plaintext.length }
  | .final _ =>
    let trailing ← onReader StreamReader.hasRemaining
    if trailing then Eff.raise trailingData else return .inr true

theorem decryptStep_eq (env : Env H) (k : StreamKey) {v : DecryptVars}
    (hv : v.receivedFinal = false) :
    (decryptStep env k.aesgcm k.headerBytes k.baseNonce v :
        Eff Exc (World ι ω) (DecryptVars ⊕ Bool)) =
      readFrame v.sequenceNumber v.totalPlaintextBytes >>= decryptFrame env k v := by
  obtain ⟨seq, total, receivedFinal⟩ := v
  cases hv
  unfold decryptStep readFrame
  rw [Eff.bind_assoc]
  congr 1
  funext frameType
  rw [if_neg (by simp), Eff.ite_bind]
  by_cases hd : frameType = frameTypeData
  · rw [if_pos hd, if_pos hd, Eff.bind_assoc]
    apply congrArg
    funext f
    rw [Eff.pure_bind]
    simp only [decryptFrame, openFrame, Eff.bind_assoc]
    rfl
  · rw [if_neg hd, if_neg hd, Eff.ite_bind]
    by_cases hf : frameType = frameTypeFinal
    · rw [if_pos hf, if_pos hf, Eff.bind_assoc]
      apply congrArg
      funext ct
      rw [Eff.pure_bind]
      simp only [decryptFrame, openFrame, Eff.bind_assoc]
      rfl
    · rw [if_neg hf, if_neg hf, Eff.raise_bind]

theorem decryptFrame_rejected {env : Env H} {k : StreamKey} {v : DecryptVars} {f : Frame}
    {e : Exc} (ho : k.openCt env.aead v.sequenceNumber f.tag f.ct = .error e) (w : World ι ω) :
    ∃ w', (decryptFrame env k v f).run w = (.error e, w') ∧ w'.out = w.out := by
  obtain ⟨rt', -, hopen⟩ := openFrame_run env k v.sequenceNumber f w
  rw [ho] at hopen
  exact ⟨{ w with rt := rt' }, Eff.bind_error hopen _, rfl⟩

theorem decryptFrame_data {env : Env H} {k : StreamKey} {v : DecryptVars} {ct pt : Bytes}
    (ho : k.openCt env.aead v.sequenceNumber aadTagData ct = .ok pt) {w : World ι ω} {sink : ω}
    (hs : Output.write pt w.sink = (none, sink)) :
    ∃ w', (decryptFrame env k v (.data ct)).run w = (.ok (.inl { v with
        sequenceNumber := v.sequenceNumber + 1
        totalPlaintextBytes := v.totalPlaintextBytes + pt.length }), w') ∧
      w'.out = w.out ++ pt ∧ w'.sink = sink ∧ w'.reader = w.reader := by
  obtain ⟨rt', -, hopen⟩ := openFrame_run env k v.sequenceNumber (.data ct) w
  have ho' : k.openCt env.aead v.sequenceNumber (Frame.data ct).tag (Frame.data ct).ct = .ok pt :=
    ho
  rw [ho'] at hopen
  have hs' : Output.write pt ({ w with rt := rt' } : World ι ω).sink = (none, sink) := hs
  refine ⟨{ w with rt := rt', sink, out := w.out ++ pt }, ?_, rfl, rfl, rfl⟩
  unfold decryptFrame
  rw [Eff.bind_ok hopen]
  dsimp only
  rw [Eff.bind_ok (write_ok hs'), Eff.run_pure]

theorem decryptFrame_unwritten {env : Env H} {k : StreamKey} {v : DecryptVars} {ct pt : Bytes}
    (ho : k.openCt env.aead v.sequenceNumber aadTagData ct = .ok pt) {w : World ι ω} {sink : ω}
    {n : Nat} {e : Exc} (hs : Output.write pt w.sink = (some (n, e), sink)) :
    ∃ w', (decryptFrame env k v (.data ct)).run w = (.error e, w') ∧
      w'.out = w.out ++ pt.take n := by
  obtain ⟨rt', -, hopen⟩ := openFrame_run env k v.sequenceNumber (.data ct) w
  have ho' : k.openCt env.aead v.sequenceNumber (Frame.data ct).tag (Frame.data ct).ct = .ok pt :=
    ho
  rw [ho'] at hopen
  have hs' : Output.write pt ({ w with rt := rt' } : World ι ω).sink = (some (n, e), sink) := hs
  refine ⟨{ w with rt := rt', sink, out := w.out ++ pt.take n }, ?_, rfl⟩
  unfold decryptFrame
  rw [Eff.bind_ok hopen]
  dsimp only
  rw [Eff.bind_error (write_error hs')]

theorem decryptFrame_final {env : Env H} {k : StreamKey} {v : DecryptVars} {ct pt : Bytes}
    (ho : k.openCt env.aead v.sequenceNumber aadTagFinal ct = .ok pt) {w : World ι ω}
    {rest : Bytes} (h : w.reader.Holds rest) :
    ∃ w', (decryptFrame env k v (.final ct)).run w =
        (if rest = [] then .ok (.inr true) else .error trailingData, w') ∧ w'.out = w.out := by
  obtain ⟨rt', -, hopen⟩ := openFrame_run env k v.sequenceNumber (.final ct) w
  have ho' : k.openCt env.aead v.sequenceNumber (Frame.final ct).tag (Frame.final ct).ct =
      .ok pt := ho
  rw [ho'] at hopen
  have h' : ({ w with rt := rt' } : World ι ω).reader.Holds rest := h
  obtain ⟨r', htrail, -⟩ := onHasRemaining_run h'
  refine ⟨{ w with rt := rt', reader := r' }, ?_, rfl⟩
  unfold decryptFrame
  rw [Eff.bind_ok hopen]
  dsimp only
  rw [Eff.bind_ok htrail]
  by_cases hr : rest = []
  · simp [hr]
  · simp [hr]

/-- All that one pass over a stream holding `bs` can do. -/
inductive DecryptPass (env : Env H) (k : StreamKey) (v : DecryptVars) (bs : Bytes)
    (w : World ι ω) : Except Exc (DecryptVars ⊕ Bool) → World ι ω → Prop
  | malformed {e : Exc} {w' : World ι ω}
    (frame : (nextFrame v.sequenceNumber v.totalPlaintextBytes).run bs = .error e)
    (out : w'.out = w.out) : DecryptPass env k v bs w (.error e) w'
  | rejected {f : Frame} {rest : Bytes} {e : Exc} {w' : World ι ω}
    (frame : (nextFrame v.sequenceNumber v.totalPlaintextBytes).run bs = .ok (f, rest))
    (opened : k.openCt env.aead v.sequenceNumber f.tag f.ct = .error e)
    (out : w'.out = w.out) : DecryptPass env k v bs w (.error e) w'
  | data {ct rest pt : Bytes} {w' : World ι ω}
    (frame : (nextFrame v.sequenceNumber v.totalPlaintextBytes).run bs = .ok (.data ct, rest))
    (opened : k.openCt env.aead v.sequenceNumber aadTagData ct = .ok pt)
    (written : Output.write pt w.sink = (none, w'.sink)) (out : w'.out = w.out ++ pt)
    (holds : w'.reader.Holds rest) :
    DecryptPass env k v bs w (.ok (.inl { v with
      sequenceNumber := v.sequenceNumber + 1
      totalPlaintextBytes := v.totalPlaintextBytes + pt.length })) w'
  | unwritten {ct rest pt : Bytes} {n : Nat} {e : Exc} {sink : ω} {w' : World ι ω}
    (frame : (nextFrame v.sequenceNumber v.totalPlaintextBytes).run bs = .ok (.data ct, rest))
    (opened : k.openCt env.aead v.sequenceNumber aadTagData ct = .ok pt)
    (failed : Output.write pt w.sink = (some (n, e), sink)) (out : w'.out = w.out ++ pt.take n) :
    DecryptPass env k v bs w (.error e) w'
  | final {ct rest pt : Bytes} {w' : World ι ω}
    (frame : (nextFrame v.sequenceNumber v.totalPlaintextBytes).run bs = .ok (.final ct, rest))
    (opened : k.openCt env.aead v.sequenceNumber aadTagFinal ct = .ok pt)
    (out : w'.out = w.out) :
    DecryptPass env k v bs w
      (if rest = [] then .ok (.inr true) else .error trailingData) w'

theorem decryptStep_pass (env : Env H) (k : StreamKey) {v : DecryptVars}
    (hv : v.receivedFinal = false) {w : World ι ω} {bs : Bytes} (h : w.reader.Holds bs) :
    ∃ r w', (decryptStep env k.aesgcm k.headerBytes k.baseNonce v).run w = (r, w') ∧
      DecryptPass env k v bs w r w' := by
  rw [decryptStep_eq env k hv]
  obtain ⟨r1, hread, hholds⟩ :=
    readFrame_follows (ω := ω) v.sequenceNumber v.totalPlaintextBytes w bs h
  cases hf : (nextFrame v.sequenceNumber v.totalPlaintextBytes).run bs with
  | error e =>
    rw [hf] at hread
    exact ⟨_, _, Eff.bind_error hread _, DecryptPass.malformed hf rfl⟩
  | ok fr =>
    obtain ⟨f, rest⟩ := fr
    rw [hf] at hread
    change (readFrame _ _).run w = (.ok f, { w with reader := r1 }) at hread
    have hrest := hholds f rest hf
    rw [Eff.bind_ok hread]
    cases ho : k.openCt env.aead v.sequenceNumber f.tag f.ct with
    | error e =>
      obtain ⟨w', hrun, hout⟩ := decryptFrame_rejected ho { w with reader := r1 }
      exact ⟨_, w', hrun, DecryptPass.rejected hf ho hout⟩
    | ok pt =>
      cases f with
      | data ct =>
        have ho' : k.openCt env.aead v.sequenceNumber aadTagData ct = .ok pt := ho
        rcases hs : Output.write pt w.sink with ⟨_ | ⟨n, e⟩, sink⟩
        · obtain ⟨w', hrun, hout, hsink, hreader⟩ :=
            decryptFrame_data (w := { w with reader := r1 }) ho' hs
          refine ⟨_, w', hrun, DecryptPass.data hf ho' ?_ hout ?_⟩
          · rw [hs, hsink]
          · rw [hreader]
            exact hrest
        · obtain ⟨w', hrun, hout⟩ :=
            decryptFrame_unwritten (w := { w with reader := r1 }) ho' hs
          exact ⟨_, w', hrun, DecryptPass.unwritten hf ho' hs hout⟩
      | final ct =>
        have hrest' : ({ w with reader := r1 } : World ι ω).reader.Holds rest := hrest
        have ho' : k.openCt env.aead v.sequenceNumber aadTagFinal ct = .ok pt := ho
        obtain ⟨w', hrun, hout⟩ := decryptFrame_final ho' hrest'
        exact ⟨_, w', hrun, DecryptPass.final hf ho' hout⟩

/-- The loop of `decrypt_stream` decodes the bytes it is given, and writes the chunks until a
write fails. -/
theorem decryptLoop_decodes (env : Env H) (k : StreamKey) {v : DecryptVars}
    (hv : v.receivedFinal = false) {w : World ι ω} {bs : Bytes} (h : w.reader.Holds bs) :
    ∃ chunks ending w',
      Decodes env.aead k v.sequenceNumber v.totalPlaintextBytes bs chunks ending ∧
      ((decryptLoop env k.aesgcm k.headerBytes k.baseNonce).toEff v).run w =
        ((writeAll chunks w.sink).1 >>= fun _ => (ending >>= noTrailing).map fun _ => true, w') ∧
      w'.out = w.out ++ (writeAll chunks w.sink).2 := by
  induction v, w using (decryptLoop env k.aesgcm k.headerBytes k.baseNonce :
    Loop Exc (World ι ω) DecryptVars Bool).induction generalizing bs with
  | h v w ih =>
    obtain ⟨r, w1, hrun, hpass⟩ := decryptStep_pass env k hv h
    have hstep : ((decryptLoop env k.aesgcm k.headerBytes k.baseNonce).step v).run w = (r, w1) :=
      hrun
    cases hpass with
    | malformed frame out =>
      refine ⟨[], _, w1, Decodes.malformed frame, ?_, by simp [out, writeAll]⟩
      rw [Loop.run_raise _ hstep]
      rfl
    | rejected frame opened out =>
      refine ⟨[], _, w1, Decodes.rejected frame opened, ?_, by simp [out, writeAll]⟩
      rw [Loop.run_raise _ hstep]
      rfl
    | @data ct rest pt _ frame opened written out holds =>
      obtain ⟨chunks, ending, w', hdec, hloop, hout⟩ := ih _ w1 hstep hv holds
      refine ⟨pt :: chunks, ending, w', Decodes.data frame opened hdec, ?_, ?_⟩
      · rw [Loop.run_continue _ hstep, hloop, writeAll, written]
      · rw [hout, out, writeAll, written, List.append_assoc]
    | @unwritten ct rest pt n e sink _ frame opened failed out =>
      obtain ⟨chunks, ending, hdec⟩ := decodes_exists env.aead k (v.sequenceNumber + 1)
        (v.totalPlaintextBytes + pt.length) rest
      refine ⟨pt :: chunks, ending, w1, Decodes.data frame opened hdec, ?_, ?_⟩
      · rw [Loop.run_raise _ hstep, writeAll, failed]
        rfl
      · rw [out, writeAll, failed]
    | @final ct rest pt _ frame opened out =>
      refine ⟨[], _, w1, Decodes.final frame opened, ?_, by simp [out, writeAll]⟩
      rw [ok_bind, noTrailing]
      by_cases hr : rest = []
      · rw [if_pos hr] at hstep ⊢
        exact Loop.run_break _ hstep
      · rw [if_neg hr] at hstep ⊢
        exact Loop.run_raise _ hstep

end Loop

end CryptoFlex
