import CryptoFlex.Streaming.Intake
import CryptoFlex.Streaming.RoundTrip
import CryptoFlex.Streaming.Sequence

namespace CryptoFlex

open Lib World

/-! ### What one pass opens -/

/-- The call that opens the frame body `ct` at place `seq`. -/
def StreamKey.openingAt (k : StreamKey) (seq : Nat) (tag ct : Bytes) : DecryptCall :=
  { key := k.aesgcm, nonce := k.nonceAt seq, aad := k.aadAt seq tag, data := ct }

section Passes

variable {H ι ω : Type}

/-- `AESGCM.decrypt` is not called and the reader is not used. -/
def Onward (w w' : World ι ω) : Prop := SameOpenings w.rt w'.rt ∧ w'.reader = w.reader

namespace Onward

theorem refl (w : World ι ω) : Onward w w := ⟨rfl, rfl⟩

theorem trans (w w' w'' : World ι ω) (h : Onward w w') (h' : Onward w' w'') : Onward w w'' :=
  ⟨Eq.trans h'.1 h.1, h'.2.trans h.2⟩

theorem onRuntime {α : Type} {x : Eff Exc Runtime α} (hx : Eff.Keeps SameOpenings x) :
    Eff.Keeps Onward (onRuntime x : Eff Exc (World ι ω) α) := fun w => ⟨hx w.rt, rfl⟩

theorem newBuffer (b : Bytes) :
    Eff.Keeps Onward (World.onRuntime (Runtime.newBuffer b) : Eff Exc (World ι ω) Nat) :=
  fun _ => ⟨rfl, rfl⟩

theorem readBuffer (buf : Nat) :
    Eff.Keeps Onward (World.onRuntime (Runtime.readBuffer buf) : Eff Exc (World ι ω) Bytes) :=
  fun _ => ⟨rfl, rfl⟩

theorem zeroize (buf : Nat) :
    Eff.Keeps Onward (World.onRuntime (Runtime.zeroize buf) : Eff Exc (World ι ω) Unit) :=
  fun _ => ⟨rfl, rfl⟩

variable [Output ω]

theorem write (b : Bytes) : Eff.Keeps Onward (write b : Eff Exc (World ι ω) Unit) := by
  intro w
  rcases hs : Output.write b w.sink with ⟨_ | ⟨n, e⟩, sink⟩
  · rw [write_ok hs]
    exact ⟨rfl, rfl⟩
  · rw [write_error hs]
    exact ⟨rfl, rfl⟩

theorem writeFrame (frameType : Nat) (ct : Bytes) :
    Eff.Keeps Onward (writeFrame frameType ct : Eff Exc (World ι ω) Unit) := by
  apply Eff.Keeps.bind trans (Eff.Keeps.lift refl _)
  intro typeByte
  apply Eff.Keeps.bind trans (write _)
  intro _
  apply Eff.Keeps.bind trans (Eff.Keeps.lift refl _)
  intro length
  apply Eff.Keeps.bind trans (write _)
  intro _
  exact write ct

theorem emitFrame (env : Env H) (k : StreamKey) (seq : Nat) (tag : Bytes) (frameType : Nat)
    (pt : Bytes) :
    Eff.Keeps Onward (emitFrame env k seq tag frameType pt : Eff Exc (World ι ω) Unit) := by
  apply Eff.Keeps.bind trans (Eff.Keeps.lift refl _)
  intro nonce
  apply Eff.Keeps.bind trans (Eff.Keeps.lift refl _)
  intro aad
  apply Eff.Keeps.bind trans (onRuntime (SameOpenings.aesgcmEncrypt env _ _ _ _))
  intro ct
  exact writeFrame frameType ct

theorem resealBuffer (env : Env H) (k : StreamKey) (seq buf : Nat) :
    Eff.Keeps Onward (resealBuffer env k seq buf : Eff Exc (World ι ω) Unit) := by
  apply Eff.Keeps.bind trans (Eff.Keeps.lift refl _)
  intro nonce
  apply Eff.Keeps.bind trans (Eff.Keeps.lift refl _)
  intro aad
  apply Eff.Keeps.bind trans (readBuffer buf)
  intro pt
  apply Eff.Keeps.bind trans (onRuntime (SameOpenings.aesgcmEncrypt env _ _ _ _))
  intro ct
  exact writeFrame _ ct

end Onward

/-- Opening a frame is one call, or none where the nonce cannot be derived. -/
theorem openFrame_openings (env : Env H) (k : StreamKey) {seq : Nat}
    (hs : seq ≤ maxStreamDataFrames) (f : Frame) (w : World ι ω) :
    Eff.Post (openFrame env k seq f) w fun r w' => w'.reader = w.reader ∧ w'.out = w.out ∧
      (w'.rt.decryptCalls = w.rt.decryptCalls ++ [k.openingAt seq f.tag f.ct] ∨
        (∃ e, r = .error e) ∧ w'.rt.decryptCalls = w.rt.decryptCalls) := by
  unfold openFrame
  by_cases hb : k.baseNonce.length = nonceLen
  · rw [deriveChunkNonce_eq hb hs, deriveChunkAad_eq _ _ hs]
    apply Eff.Post.lift_ok
    apply Eff.Post.lift_ok
    refine ⟨rfl, rfl, Or.inl ?_⟩
    rw [onRuntime, Eff.run_zoom, aesgcmDecrypt_run]
    simp [Runtime.decryptCalls, Event.decryptCall?, StreamKey.openingAt, StreamKey.nonceAt,
      StreamKey.aadAt]
  · have hnonce : ∃ e, deriveChunkNonce k.baseNonce seq = .error e :=
      ⟨_, if_pos hb⟩
    obtain ⟨e, he⟩ := hnonce
    rw [he]
    exact ⟨rfl, rfl, Or.inr ⟨⟨e, rfl⟩, rfl⟩⟩

/-- All that one pass over a frame can do to its input: the frame is taken and opened, or the pass
raises on the way. -/
inductive FramePass [Input ι] (k : StreamKey) (v : DecryptVars) (w : World ι ω) :
    Except Exc (DecryptVars ⊕ Bool) → World ι ω → Prop
  | continued {ct taken : Bytes} {w' : World ι ω}
    (limits : DataLimits v.sequenceNumber v.totalPlaintextBytes ct)
    (takes : Takes w.reader taken w'.reader) (length : taken.length = 5 + ct.length)
    (calls : w'.rt.decryptCalls =
      w.rt.decryptCalls ++ [k.openingAt v.sequenceNumber aadTagData ct]) :
    FramePass k v w (.ok (.inl { v with
      sequenceNumber := v.sequenceNumber + 1
      totalPlaintextBytes := v.totalPlaintextBytes + (ct.length - 16) })) w'
  | ended {ct taken : Bytes} {w' : World ι ω} (takes : Takes w.reader taken w'.reader)
    (calls : w'.rt.decryptCalls =
      w.rt.decryptCalls ++ [k.openingAt v.sequenceNumber aadTagFinal ct]) :
    FramePass k v w (.ok (.inr true)) w'
  | stopped {f : Frame} {taken : Bytes} {e : Exc} {w' : World ι ω}
    (limits : ∀ ct, f = .data ct → DataLimits v.sequenceNumber v.totalPlaintextBytes ct)
    (takes : Takes w.reader taken w'.reader)
    (calls : w'.rt.decryptCalls =
      w.rt.decryptCalls ++ [k.openingAt v.sequenceNumber f.tag f.ct]) :
    FramePass k v w (.error e) w'
  | unopened {taken : Bytes} {e : Exc} {w' : World ι ω} (takes : Takes w.reader taken w'.reader)
    (calls : w'.rt.decryptCalls = w.rt.decryptCalls) : FramePass k v w (.error e) w'

variable [Input ι]

/-- A frame that is passed holds its type, its length, a tag and a byte at least. -/
theorem FramePass.consumes {k : StreamKey} {v v' : DecryptVars} {w w' : World ι ω}
    {r : Except Exc (DecryptVars ⊕ Bool)} (h : FramePass k v w r w') (hr : r = .ok (.inl v')) :
    ∃ taken, Takes w.reader taken w'.reader ∧
      Conserves maxChunkCiphertextSize w.reader taken w'.reader ∧ 22 ≤ taken.length := by
  cases h with
  | @continued ct taken _ limits takes length calls =>
    have hsize := limits.nonempty
    exact ⟨taken, takes, takes.conserves, by omega⟩
  | ended takes calls => cases hr
  | stopped limits takes calls => cases hr
  | unopened takes calls => cases hr

/-- A pass that reads a frame, opens it and goes on to `rest` without opening anything else. -/
theorem FramePass.of_rest {V : Type} (view : V → DecryptVars) (env : Env H) (k : StreamKey)
    {v : V} (hs : (view v).sequenceNumber ≤ maxStreamDataFrames)
    (rest : Frame → Bytes → Eff Exc (World ι ω) (V ⊕ Bool))
    (data : ∀ ct pt (w₁ w₂ : World ι ω),
      (openFrame env k (view v).sequenceNumber (.data ct)).run w₁ = (.ok pt, w₂) →
      Eff.Post (rest (.data ct) pt) w₂ fun r w' => Onward w₂ w' ∧
        ∀ s, r = .ok s → s.map view id = .inl { view v with
          sequenceNumber := (view v).sequenceNumber + 1
          totalPlaintextBytes := (view v).totalPlaintextBytes + (ct.length - 16) })
    (final : ∀ ct pt (w₂ : World ι ω), Eff.Post (rest (.final ct) pt) w₂ fun r w' =>
      SameOpenings w₂.rt w'.rt ∧ Takes w₂.reader [] w'.reader ∧
        ∀ s, r = .ok s → s.map view id = .inr true) (w : World ι ω) :
    Eff.Post (readFrame (view v).sequenceNumber (view v).totalPlaintextBytes >>= fun f =>
        openFrame env k (view v).sequenceNumber f >>= rest f) w fun r w' =>
      FramePass k (view v) w (r.map fun s => s.map view id) w' := by
  have htaken := TakesTo.readFrame (ω := ω) (view v).sequenceNumber
    (view v).totalPlaintextBytes w
  have honly := OnlyReads.readFrame (ω := ω) (view v).sequenceNumber
    (view v).totalPlaintextBytes w
  apply Eff.Post.bind
  rcases hread : (readFrame (view v).sequenceNumber (view v).totalPlaintextBytes).run w with
    ⟨e | f, w₁⟩
  · obtain ⟨taken, htakes, -⟩ := htaken.elim hread
    rw [hread] at honly
    apply Eff.Post.of_eq hread
    exact FramePass.unopened htakes (congrArg Runtime.decryptCalls honly.1)
  obtain ⟨taken, htakes, hcount⟩ := htaken.elim hread
  have hlen : taken.length = 5 + f.ct.length := (Nat.zero_add _).symm.trans (hcount f rfl)
  rw [hread] at honly
  have hrt : w₁.rt.decryptCalls = w.rt.decryptCalls := congrArg Runtime.decryptCalls honly.1
  have hlimits : ∀ ct, f = .data ct →
      DataLimits (view v).sequenceNumber (view v).totalPlaintextBytes ct := by
    rintro ct rfl
    exact readFrame_limits hread
  apply Eff.Post.of_eq hread
  apply Eff.Post.bind
  have hopenings := openFrame_openings env k hs f w₁
  rcases hopen : (openFrame env k (view v).sequenceNumber f).run w₁ with ⟨e | pt, w₂⟩
  · obtain ⟨hreader, -, hcall⟩ := hopenings.elim hopen
    rw [← hreader] at htakes
    apply Eff.Post.of_eq hopen
    rcases hcall with hone | ⟨-, hnone⟩
    · exact FramePass.stopped hlimits htakes (by rw [hone, hrt])
    · exact FramePass.unopened htakes (by rw [hnone, hrt])
  obtain ⟨hreader, -, hcall⟩ := hopenings.elim hopen
  have hone : w₂.rt.decryptCalls =
      w.rt.decryptCalls ++ [k.openingAt (view v).sequenceNumber f.tag f.ct] := by
    rcases hcall with hone | ⟨⟨e, herr⟩, -⟩
    · rw [hone, hrt]
    · cases herr
  rw [← hreader] at htakes
  apply Eff.Post.of_eq hopen
  cases f with
  | data ct =>
    apply (data ct pt w₁ w₂ hopen).mono
    rintro r w' ⟨honward, hnext⟩
    have hcalls : w'.rt.decryptCalls = w.rt.decryptCalls ++ _ := Eq.trans honward.1 hone
    rw [← honward.2] at htakes
    cases r with
    | error e => exact FramePass.stopped hlimits htakes hcalls
    | ok s =>
      have hpass := FramePass.continued (k := k) (hlimits ct rfl) htakes hlen hcalls
      rw [← hnext s rfl] at hpass
      exact hpass
  | final ct =>
    apply (final ct pt w₂).mono
    rintro r w' ⟨hsame, hrest, hnext⟩
    have hcalls : w'.rt.decryptCalls = w.rt.decryptCalls ++ _ := Eq.trans hsame hone
    have hboth := htakes.trans hrest
    cases r with
    | error e => exact FramePass.stopped hlimits hboth hcalls
    | ok s =>
      have hpass := FramePass.ended (k := k) (v := view v) hboth hcalls
      rw [← hnext s rfl] at hpass
      exact hpass

theorem refuseTrailing_post {V : Type} (w : World ι ω) :
    Eff.Post (do
      let trailing ← onReader StreamReader.hasRemaining
      if trailing then Eff.raise trailingData else return .inr true :
        Eff Exc (World ι ω) (V ⊕ Bool)) w fun r w' =>
      SameOpenings w.rt w'.rt ∧ Takes w.reader [] w'.reader ∧ ∀ s, r = .ok s → s = .inr true := by
  rcases hrun : StreamReader.hasRemaining.run w.reader with ⟨r, r'⟩
  have htakes := Takes.hasRemaining w.reader
  rw [hrun] at htakes
  have hw : (onReader StreamReader.hasRemaining).run w = (r, { w with reader := r' }) := by
    rw [onReader, Eff.run_zoom, hrun]
  apply Eff.Post.bind
  apply Eff.Post.of_eq hw
  have hraised : ∀ (e : Exc) (s : V ⊕ Bool), (.error e : Except Exc (V ⊕ Bool)) = .ok s →
      s = .inr true := by
    intro e s hs
    cases hs
  rcases r with e | (_ | _)
  · exact ⟨rfl, htakes, hraised e⟩
  · refine ⟨rfl, htakes, ?_⟩
    intro s hs
    cases hs
    rfl
  · exact ⟨rfl, htakes, hraised trailingData⟩

variable [Output ω]

/-- What `decrypt_stream` does with an opened frame. -/
def decryptRest (v : DecryptVars) (f : Frame) (pt : Bytes) :
    Eff Exc (World ι ω) (DecryptVars ⊕ Bool) :=
  match f with
  | .data _ => do
    write pt
    return .inl { v with
      sequenceNumber := v.sequenceNumber + 1
      totalPlaintextBytes := v.totalPlaintextBytes + pt.length }
  | .final _ => do
    let trailing ← onReader StreamReader.hasRemaining
    if trailing then Eff.raise trailingData else return .inr true

theorem decryptFrame_eq (env : Env H) (k : StreamKey) (v : DecryptVars) (f : Frame) :
    (decryptFrame env k v f : Eff Exc (World ι ω) (DecryptVars ⊕ Bool)) =
      openFrame env k v.sequenceNumber f >>= decryptRest v f := by
  cases f <;> rfl

theorem decryptStep_framePass {env : Env H} (hd : env.aead.Documented) (k : StreamKey)
    {v : DecryptVars} (hv : v.receivedFinal = false) (hs : v.sequenceNumber ≤ maxStreamDataFrames)
    (w : World ι ω) :
    Eff.Post (decryptStep env k.aesgcm k.headerBytes k.baseNonce v) w (FramePass k v w) := by
  have hframe : (decryptFrame env k v : Frame → Eff Exc (World ι ω) (DecryptVars ⊕ Bool)) =
      fun f => openFrame env k v.sequenceNumber f >>= decryptRest v f :=
    funext (decryptFrame_eq env k v)
  have hpass := FramePass.of_rest id env k (v := v) hs (decryptRest v) ?_ ?_ w
  · rw [decryptStep_eq env k hv, hframe]
    apply hpass.mono
    rintro (e | s | b) w' h
    · exact h
    · exact h
    · exact h
  · intro ct pt w₁ w₂ hopen
    have hlen : ct.length = pt.length + 16 := openFrame_length hd hopen
    apply Eff.Post.bind_keeps (Onward.write pt)
    · intro _ w' honward _
      refine ⟨honward, ?_⟩
      intro s hs
      cases hs
      have hpt : ct.length - 16 = pt.length := by omega
      rw [hpt]
      rfl
    · intro e w' honward
      exact ⟨honward, by simp⟩
  · intro ct pt w₂
    apply (refuseTrailing_post w₂).mono
    rintro r w' ⟨hsame, htakes, hend⟩
    refine ⟨hsame, htakes, ?_⟩
    intro s hs
    rw [hend s hs]
    rfl

/-- What the variables of `migrate_stream` say of the old stream. -/
def MigrateVars.reading (v : MigrateVars) : DecryptVars where
  sequenceNumber := v.sequenceNumber
  totalPlaintextBytes := v.totalPlaintextBytes
  receivedFinal := v.receivedFinal

/-- What `migrate_stream` does with an opened frame. -/
def migrateRest (env : Env H) (new : StreamKey) (v : MigrateVars) (f : Frame) (pt : Bytes) :
    Eff Exc (World ι ω) (MigrateVars ⊕ Bool) :=
  match f with
  | .data ct => do
    let buf ← onRuntime (Runtime.newBuffer pt)
    Eff.tryFinally (resealBuffer env new v.newSequenceNumber buf)
      (onRuntime (Runtime.zeroize buf))
    return .inl { v with
      sequenceNumber := v.sequenceNumber + 1
      newSequenceNumber := v.newSequenceNumber + 1
      totalPlaintextBytes := v.totalPlaintextBytes + (ct.length - 16) }
  | .final _ => do
    emitFrame env new v.newSequenceNumber aadTagFinal frameTypeFinal []
    let trailing ← onReader StreamReader.hasRemaining
    if trailing then Eff.raise trailingData else return .inr true

theorem migrateFrame_eq (env : Env H) (old new : StreamKey) (v : MigrateVars) (f : Frame) :
    (migrateFrame env old new v f : Eff Exc (World ι ω) (MigrateVars ⊕ Bool)) =
      openFrame env old v.sequenceNumber f >>= migrateRest env new v f := by
  cases f <;> rfl

theorem migrateStep_framePass (env : Env H) (old new : StreamKey) {v : MigrateVars}
    (hv : v.receivedFinal = false) (hseq : v.newSequenceNumber = v.sequenceNumber)
    (hs : v.sequenceNumber ≤ maxStreamDataFrames) (w : World ι ω) :
    Eff.Post (migrateStep env old.aesgcm old.headerBytes old.baseNonce new.aesgcm new.headerBytes
      new.baseNonce v) w fun r w' =>
        FramePass old v.reading w (r.map fun s => s.map MigrateVars.reading id) w' := by
  have hframe : (migrateFrame env old new v : Frame → Eff Exc (World ι ω) (MigrateVars ⊕ Bool)) =
      fun f => openFrame env old v.sequenceNumber f >>= migrateRest env new v f :=
    funext (migrateFrame_eq env old new v)
  have hpass := FramePass.of_rest MigrateVars.reading env old (v := v) hs
    (migrateRest env new v) ?_ ?_ w
  · have hplace : v.reading.sequenceNumber = v.sequenceNumber := rfl
    have htotal : v.reading.totalPlaintextBytes = v.totalPlaintextBytes := rfl
    rw [hplace, htotal, ← hframe] at hpass
    unfold Eff.Post at hpass ⊢
    rw [migrateStep_run env old new hv hseq]
    exact hpass
  · intro ct pt w₁ w₂ hopen
    apply Eff.Post.bind_keeps (Onward.newBuffer pt)
    · intro buf w₃ honward _
      apply Eff.Post.bind_keeps
        ((Onward.resealBuffer env new v.newSequenceNumber buf).tryFinally Onward.trans
          (Onward.zeroize buf))
      · intro _ w' honward' _
        refine ⟨Onward.trans _ _ _ honward honward', ?_⟩
        intro s hs
        cases hs
        rfl
      · intro e w' honward'
        exact ⟨Onward.trans _ _ _ honward honward', by simp⟩
    · intro e w₃ honward
      exact ⟨honward, by simp⟩
  · intro ct pt w₂
    apply Eff.Post.bind_keeps (Onward.emitFrame env new v.newSequenceNumber aadTagFinal _ [])
    · intro _ w₃ honward _
      apply (refuseTrailing_post w₃).mono
      rintro r w' ⟨hsame, htakes, hend⟩
      rw [honward.2] at htakes
      refine ⟨Eq.trans hsame honward.1, htakes, ?_⟩
      intro s hs
      rw [hend s hs]
      rfl
    · intro e w₃ honward
      rw [honward.2]
      exact ⟨honward.1, Takes.refl _, by simp⟩

end Passes

/-! ### Whole loops -/

/-- The calls that open `cts` as DATA frames from place `seq` on. -/
def dataOpenings (k : StreamKey) : Nat → List Bytes → List DecryptCall
  | _, [] => []
  | seq, ct :: cts => k.openingAt seq aadTagData ct :: dataOpenings k (seq + 1) cts

/-- The calls of a whole stream: its DATA frames, and an end mark if it came to one. -/
def streamOpenings (k : StreamKey) (cts : List Bytes) (final : Option Bytes) : List DecryptCall :=
  dataOpenings k 0 cts ++ (final.map fun ct => k.openingAt cts.length aadTagFinal ct).toList

theorem dataOpenings_append (k : StreamKey) (seq : Nat) (a b : List Bytes) :
    dataOpenings k seq (a ++ b) = dataOpenings k seq a ++ dataOpenings k (seq + a.length) b := by
  induction a generalizing seq with
  | nil => rfl
  | cons ct a ih =>
    have hseq : seq + 1 + a.length = seq + (a.length + 1) := by omega
    rw [List.cons_append, dataOpenings, dataOpenings, ih, List.cons_append, List.length_cons, hseq]

/-- The plaintext that frames with these bodies carry at most. -/
def carried (cts : List Bytes) : Nat := (cts.map fun ct => ct.length - 16).sum

/-- DATA frame bodies within the limits of a stream. -/
structure Admitted (cts : List Bytes) : Prop where
  count : cts.length ≤ maxStreamDataFrames
  sizes : ∀ ct ∈ cts, 16 < ct.length ∧ ct.length ≤ maxChunkCiphertextSize
  total : carried cts ≤ maxStreamPlaintextSize

theorem Admitted.nil : Admitted [] := ⟨Nat.zero_le _, by simp, Nat.zero_le _⟩

theorem carried_concat (cts : List Bytes) (ct : Bytes) :
    carried (cts ++ [ct]) = carried cts + (ct.length - 16) := by
  simp [carried]

theorem Admitted.concat {cts : List Bytes} (h : Admitted cts) {ct : Bytes}
    (limits : DataLimits cts.length (carried cts) ct) : Admitted (cts ++ [ct]) where
  count := by
    rw [List.length_append]
    exact limits.count
  sizes := by
    intro c hc
    rcases List.mem_append.mp hc with h' | h'
    · exact h.sizes c h'
    · rw [List.mem_singleton.mp h']
      exact ⟨limits.nonempty, limits.size⟩
  total := by
    rw [carried_concat]
    exact limits.total

/-- Behind the calls `base` of others, those of one stream within its limits. -/
def Opens (base : List DecryptCall) (k : StreamKey) (calls : List DecryptCall) : Prop :=
  ∃ cts final, Admitted cts ∧ calls = base ++ streamOpenings k cts final

section Loops

variable {H ι ω V : Type} [Input ι]

/-- Between two frames, with the reader called from `r` on. -/
structure Between (base : List DecryptCall) (r : StreamReader ι) (k : StreamKey) (v : DecryptVars)
    (w : World ι ω) : Prop where
  waiting : v.receivedFinal = false
  takes : ∃ taken, Takes r taken w.reader
  opens : ∃ cts, Admitted cts ∧ w.rt.decryptCalls = base ++ dataOpenings k 0 cts ∧
    v.sequenceNumber = cts.length ∧ v.totalPlaintextBytes = carried cts

/-- What is left when the loop ends. -/
structure Ended (base : List DecryptCall) (r : StreamReader ι) (k : StreamKey) (w : World ι ω) :
    Prop where
  takes : ∃ taken, Takes r taken w.reader
  opens : Opens base k w.rt.decryptCalls

theorem Between.start {k : StreamKey} (w : World ι ω) :
    Between w.rt.decryptCalls w.reader k {} w where
  waiting := rfl
  takes := ⟨[], Takes.refl _⟩
  opens := ⟨[], Admitted.nil, by simp [dataOpenings], rfl, rfl⟩

theorem Between.seq_le {base : List DecryptCall} {r : StreamReader ι} {k : StreamKey}
    {v : DecryptVars} {w : World ι ω} (h : Between base r k v w) :
    v.sequenceNumber ≤ maxStreamDataFrames := by
  obtain ⟨cts, hcts, -, hseq, -⟩ := h.opens
  rw [hseq]
  exact hcts.count

/-- One pass keeps to the limits, whether it goes on or not. -/
theorem Between.pass {base : List DecryptCall} {r : StreamReader ι} {k : StreamKey}
    {v : DecryptVars} {w w' : World ι ω} {result : Except Exc (DecryptVars ⊕ Bool)}
    (h : Between base r k v w) (hpass : FramePass k v w result w') :
    match result with
    | .ok (.inl v') => Between base r k v' w'
    | .ok (.inr b) => b = true ∧ Ended base r k w'
    | .error _ => Ended base r k w' := by
  obtain ⟨before, hbefore⟩ := h.takes
  obtain ⟨cts, hcts, hcalls, hseq, htotal⟩ := h.opens
  have hdata : ∀ ct, base ++ dataOpenings k 0 cts ++ [k.openingAt v.sequenceNumber aadTagData ct] =
      base ++ dataOpenings k 0 (cts ++ [ct]) := by
    intro ct
    rw [dataOpenings_append, hseq, Nat.zero_add, List.append_assoc]
    rfl
  cases hpass with
  | @continued ct taken _ limits takes length calls =>
    have hadmit : Admitted (cts ++ [ct]) := hcts.concat (by rw [← hseq, ← htotal]; exact limits)
    refine ⟨h.waiting, ⟨_, hbefore.trans takes⟩, cts ++ [ct], hadmit, ?_, ?_, ?_⟩
    · rw [calls, hcalls, hdata]
    · rw [List.length_append, hseq]
      rfl
    · rw [carried_concat, htotal]
  | @ended ct taken _ takes calls =>
    refine ⟨rfl, ⟨_, hbefore.trans takes⟩, cts, some ct, hcts, ?_⟩
    rw [calls, hcalls, hseq, List.append_assoc]
    rfl
  | @stopped f taken e _ limits takes calls =>
    refine ⟨⟨_, hbefore.trans takes⟩, ?_⟩
    cases f with
    | data ct =>
      have hadmit : Admitted (cts ++ [ct]) :=
        hcts.concat (by rw [← hseq, ← htotal]; exact limits ct rfl)
      refine ⟨cts ++ [ct], none, hadmit, ?_⟩
      have hcall : base ++ dataOpenings k 0 cts ++
          [k.openingAt v.sequenceNumber (Frame.data ct).tag (Frame.data ct).ct] =
          base ++ dataOpenings k 0 (cts ++ [ct]) := hdata ct
      rw [calls, hcalls, hcall]
      simp [streamOpenings]
    | final ct =>
      refine ⟨cts, some ct, hcts, ?_⟩
      rw [calls, hcalls, hseq, List.append_assoc]
      rfl
  | @unopened taken e _ takes calls =>
    refine ⟨⟨_, hbefore.trans takes⟩, cts, none, hcts, ?_⟩
    rw [calls, hcalls]
    simp [streamOpenings]

/-- A loop that goes over the frames of a stream under `k`, as long as `I` holds. -/
structure ReadsFrames (L : Loop Exc (World ι ω) V Bool) (view : V → DecryptVars) (I : V → Prop)
    (k : StreamKey) : Prop where
  rank : ∀ v w, L.rank v w ≤ maxStreamDataFrames
  pass : ∀ v w, I v → (view v).receivedFinal = false →
    (view v).sequenceNumber ≤ maxStreamDataFrames → Eff.Post (L.step v) w fun r w' =>
      FramePass k (view v) w (r.map fun s => s.map view id) w' ∧ ∀ v', r = .ok (.inl v') → I v'

/-- The bounds of a frame loop that starts with `v₀` in `w₀`, whatever its input gives. -/
structure LoopBounds (L : Loop Exc (World ι ω) V Bool) (view : V → DecryptVars) (k : StreamKey)
    (v₀ : V) (w₀ : World ι ω) : Prop where
  terminates : ∃ n, n ≤ maxStreamDataFrames ∧
    L.ExitsIn n v₀ w₀ ((L.toEff v₀).run w₀).1 ((L.toEff v₀).run w₀).2
  consumes : ∀ v w v' w', L.Reaches v₀ w₀ v w → (L.step v).run w = (.ok (.inl v'), w') →
    ∃ taken, Takes w.reader taken w'.reader ∧
      Conserves maxChunkCiphertextSize w.reader taken w'.reader ∧ 22 ≤ taken.length
  waiting : ∀ v w, L.Reaches v₀ w₀ v w → (view v).receivedFinal = false
  received : ∀ b w, (L.toEff v₀).run w₀ = (.ok b, w) → b = true
  ended : Ended w₀.rt.decryptCalls w₀.reader k ((L.toEff v₀).run w₀).2

theorem ReadsFrames.bounds {L : Loop Exc (World ι ω) V Bool} {view : V → DecryptVars}
    {I : V → Prop} {k : StreamKey} (h : ReadsFrames L view I k) {v₀ : V} (hi : I v₀)
    (hv : view v₀ = {}) (w₀ : World ι ω) : LoopBounds L view k v₀ w₀ := by
  let J : V → World ι ω → Prop := fun v w =>
    I v ∧ Between w₀.rt.decryptCalls w₀.reader k (view v) w
  have hstart : J v₀ w₀ := by
    refine ⟨hi, ?_⟩
    rw [hv]
    exact Between.start w₀
  have hpass : ∀ v w, J v w → Eff.Post (L.step v) w fun r w' => match r with
      | .ok (.inl v') => J v' w'
      | .ok (.inr b) => b = true ∧ Ended w₀.rt.decryptCalls w₀.reader k w'
      | .error _ => Ended w₀.rt.decryptCalls w₀.reader k w' := by
    rintro v w ⟨hv, hbetween⟩
    apply (h.pass v w hv hbetween.waiting hbetween.seq_le).mono
    rintro (e | v' | b) w' ⟨hframe, hnext⟩
    · exact hbetween.pass hframe
    · exact ⟨hnext v' rfl, hbetween.pass hframe⟩
    · exact hbetween.pass hframe
  have hreach : ∀ v w, L.Reaches v₀ w₀ v w → J v w := by
    intro v w hreaches
    apply Loop.Reaches.post L _ hreaches hstart
    intro s t s' t' hs hstep
    exact (hpass s t hs).elim hstep
  have hend : Eff.Post (L.toEff v₀) w₀ fun r w' => (∀ b, r = .ok b → b = true) ∧
      Ended w₀.rt.decryptCalls w₀.reader k w' := by
    apply L.run_post (I := J) _ v₀ w₀ hstart
    intro v w hv
    apply (hpass v w hv).mono
    rintro (e | v' | b) w' hr
    · exact ⟨nofun, hr⟩
    · exact hr
    · refine ⟨?_, hr.2⟩
      rintro b' hb
      cases hb
      exact hr.1
  constructor
  · obtain ⟨n, hn, hexit⟩ := L.exitsIn_run v₀ w₀
    exact ⟨n, hn.trans (h.rank v₀ w₀), hexit⟩
  · intro v w v' w' hreaches hstep
    obtain ⟨hv, hbetween⟩ := hreach v w hreaches
    obtain ⟨hframe, -⟩ := (h.pass v w hv hbetween.waiting hbetween.seq_le).elim hstep
    exact hframe.consumes rfl
  · intro v w hreaches
    exact (hreach v w hreaches).2.waiting
  · intro b w hrun
    exact (hend.elim hrun).1 b rfl
  · exact hend.2

variable [Output ω]

theorem decryptLoop_readsFrames {env : Env H} (hd : env.aead.Documented) (k : StreamKey) :
    ReadsFrames (decryptLoop env k.aesgcm k.headerBytes k.baseNonce :
      Loop Exc (World ι ω) DecryptVars Bool) id (fun _ => True) k where
  rank v _ := Nat.sub_le _ _
  pass v w _ hv hs := by
    apply (decryptStep_framePass hd k hv hs w).mono
    rintro (e | v' | b) w' hframe
    · exact ⟨hframe, fun _ _ => trivial⟩
    · exact ⟨hframe, fun _ _ => trivial⟩
    · exact ⟨hframe, fun _ _ => trivial⟩

theorem migrateLoop_readsFrames (env : Env H) (old new : StreamKey) :
    ReadsFrames (migrateLoop env old.aesgcm old.headerBytes old.baseNonce new.aesgcm
        new.headerBytes new.baseNonce : Loop Exc (World ι ω) MigrateVars Bool) MigrateVars.reading
      (fun v => v.newSequenceNumber = v.sequenceNumber) old where
  rank v _ := Nat.sub_le _ _
  pass v w hseq hv hs := by
    have hframe := migrateStep_framePass env old new hv hseq hs w
    rcases hrun : (migrateStep env old.aesgcm old.headerBytes old.baseNonce new.aesgcm
      new.headerBytes new.baseNonce v).run w with ⟨r, w'⟩
    apply Eff.Post.of_eq hrun
    refine ⟨hframe.elim hrun, ?_⟩
    rintro v' rfl
    obtain ⟨-, hnext, hnew⟩ := migrateStep_continue hrun
    rw [hnext, hnew, hseq]

/-! ### Whole runs -/

/-- A call has read the initial bytes of `i`, and frames behind them. -/
inductive ReadsWithin (i : ι) : StreamReader ι → Prop
  | prologue {result : Except Exc Bytes} {i₁ : ι}
    (read : Input.read maxHeaderSize i = (result, i₁)) : ReadsWithin i ⟨[], i₁⟩
  | frames {initial taken : Bytes} {i₁ : ι} {n : Nat} {r : StreamReader ι}
    (read : Input.read maxHeaderSize i = (.ok initial, i₁))
    (takes : Takes ⟨initial.drop n, i₁⟩ taken r) : ReadsWithin i r

omit [Output ω] in
/-- The prologue reads once, opens nothing and writes nothing. -/
theorem readPrologue_within (env : Env H) (handles : List H) (minProfile : Option PyStr)
    (rt : Runtime) (i : ι) (sink : ω) :
    Eff.Post (readPrologue env handles minProfile) (World.start rt i sink) fun r w' =>
      SameOpenings rt w'.rt ∧ w'.out = [] ∧ ReadsWithin i w'.reader ∧ ∀ p, r = .ok p →
        ∃ initial i₁ n, Input.read maxHeaderSize i = (.ok initial, i₁) ∧
          w'.reader = ⟨[], i₁⟩ ∧ p.unconsumedInitial = initial.drop n := by
  rcases hread : Input.read maxHeaderSize i with ⟨e | initial, i₁⟩
  · have hinput : (readInput maxHeaderSize : Eff Exc (World ι ω) Bytes).run
        (World.start rt i sink) =
        (.error e, { World.start rt i sink with reader := ⟨[], i₁⟩ }) := by
      simp only [readInput, onReader, Eff.run_zoom, StreamReader.readStream, World.start, hread]
    apply Eff.Post.of_eq (Eff.bind_error hinput _)
    exact ⟨rfl, rfl, ReadsWithin.prologue hread, by simp⟩
  · apply Eff.Post.of_eq (readPrologue_run (ω := ω) env handles minProfile
      (w := World.start rt i sink) hread)
    refine ⟨SameOpenings.stable.toRecording.parsePrologue env handles minProfile initial rt, rfl,
      ReadsWithin.prologue hread, ?_⟩
    intro p hp
    obtain ⟨header, n, -, -, -, hrest⟩ := parsePrologue_eq_ok (Prod.ext hp rfl)
    exact ⟨initial, i₁, n, rfl, rfl, hrest⟩

/-- What a whole call keeps to: it opens the frames of one stream within the limits, reads the
initial bytes of `i` and then those frames. -/
structure Within (base : List DecryptCall) (i : ι) (w : World ι ω) : Prop where
  opens : ∃ k, Opens base k w.rt.decryptCalls
  reads : ReadsWithin i w.reader

omit [Output ω] in
theorem Within.of_nothing {base : List DecryptCall} {i : ι} {w : World ι ω}
    (hcalls : w.rt.decryptCalls = base) (hreads : ReadsWithin i w.reader) : Within base i w :=
  ⟨⟨⟨[], [], []⟩, [], none, Admitted.nil, by simp [hcalls, streamOpenings, dataOpenings]⟩, hreads⟩

omit [Output ω] in
theorem Within.onward {base : List DecryptCall} {i : ι} {w w' : World ι ω}
    (h : Within base i w) (ho : Onward w w') : Within base i w' :=
  ⟨by rw [ho.1]; exact h.opens, by rw [ho.2]; exact h.reads⟩

omit [Output ω] in
theorem Within.of_loop {L : Loop Exc (World ι ω) V Bool} {view : V → DecryptVars} {k : StreamKey}
    {v₀ : V} {w₀ : World ι ω} (h : LoopBounds L view k v₀ w₀) {base : List DecryptCall} {i i₁ : ι}
    {initial : Bytes} {n : Nat} (hbase : w₀.rt.decryptCalls = base)
    (hread : Input.read maxHeaderSize i = (.ok initial, i₁))
    (hreader : w₀.reader = ⟨initial.drop n, i₁⟩) :
    Within base i ((L.toEff v₀).run w₀).2 := by
  obtain ⟨taken, htakes⟩ := h.ended.takes
  have hopens := h.ended.opens
  rw [hreader] at htakes
  rw [hbase] at hopens
  exact ⟨⟨k, hopens⟩, ReadsWithin.frames hread htakes⟩

/-- One pass of `decrypt_stream` writes no more than it counts, and stops before the size limit. -/
theorem decryptStep_written {env : Env H} (hd : env.aead.Documented) (k : StreamKey)
    {v : DecryptVars} (hv : v.receivedFinal = false) {w : World ι ω}
    (hout : w.out.length ≤ v.totalPlaintextBytes) (htotal : v.totalPlaintextBytes ≤ maxStreamPlaintextSize) :
    Eff.Post (decryptStep env k.aesgcm k.headerBytes k.baseNonce v) w fun r w' => match r with
      | .ok (.inl v') => v'.receivedFinal = false ∧ w'.out.length ≤ v'.totalPlaintextBytes ∧
        v'.totalPlaintextBytes ≤ maxStreamPlaintextSize
      | .ok (.inr _) => w'.out.length ≤ maxStreamPlaintextSize
      | .error _ => w'.out.length ≤ maxStreamPlaintextSize := by
  have hfits := hout.trans htotal
  rw [decryptStep_eq env k hv]
  apply Eff.Post.bind_keeps (OnlyReads.readFrame _ _)
  swap
  · intro e w₁ honly
    rw [honly.2]
    exact hfits
  intro f w₁ honly hread
  unfold decryptFrame
  apply Eff.Post.bind
  have hopenings : Eff.Keeps (fun w w' : World ι ω => w'.out = w.out)
      (openFrame env k v.sequenceNumber f) := by
    intro w
    obtain ⟨rt', -, hrun⟩ := openFrame_run env k v.sequenceNumber f w
    rw [hrun]
  rcases hopen : (openFrame env k v.sequenceNumber f).run w₁ with ⟨e | pt, w₂⟩
  · have hsame : w₂.out = w.out := (hopenings.of_eq hopen).trans honly.2
    apply Eff.Post.of_eq hopen
    dsimp only
    rw [hsame]
    exact hfits
  have hsame : w₂.out = w.out := (hopenings.of_eq hopen).trans honly.2
  apply Eff.Post.of_eq hopen
  cases f with
  | data ct =>
    have hlen : ct.length = pt.length + 16 := openFrame_length hd hopen
    have hlimit := (readFrame_limits hread).total
    dsimp only
    rcases hs : Output.write pt w₂.sink with ⟨_ | ⟨n, e⟩, sink⟩
    · apply Eff.Post.bind
      apply Eff.Post.of_eq (write_ok hs)
      refine ⟨hv, ?_, by dsimp only; omega⟩
      change (w₂.out ++ pt).length ≤ _
      rw [List.length_append, hsame]
      dsimp only
      omega
    · apply Eff.Post.bind
      apply Eff.Post.of_eq (write_error hs)
      dsimp only
      rw [List.length_append, List.length_take, hsame]
      omega
  | final ct =>
    dsimp only
    apply Eff.Post.bind_keeps (Quiet.onReader _)
    · intro trailing w₃ hq _
      have hout₃ : w₃.out.length ≤ maxStreamPlaintextSize := by
        rw [hq.2, hsame]
        exact hfits
      cases trailing with
      | true => exact hout₃
      | false => exact hout₃
    · intro e w₃ hq
      rw [hq.2, hsame]
      exact hfits

theorem decryptLoop_written {env : Env H} (hd : env.aead.Documented) (k : StreamKey)
    {w : World ι ω} (hout : w.out = []) :
    Eff.Post ((decryptLoop env k.aesgcm k.headerBytes k.baseNonce).toEff {}) w fun _ w' =>
      w'.out.length ≤ maxStreamPlaintextSize := by
  apply Loop.run_post _ (I := fun v w => v.receivedFinal = false ∧
    w.out.length ≤ v.totalPlaintextBytes ∧ v.totalPlaintextBytes ≤ maxStreamPlaintextSize) _ _ _
    ⟨rfl, by rw [hout]; exact Nat.zero_le _, Nat.zero_le _⟩
  rintro v w ⟨hv, hout, htotal⟩
  apply (decryptStep_written hd k hv hout htotal).mono
  rintro (e | v' | b) w' hr
  · exact hr
  · exact hr
  · exact hr

theorem decryptStream_within {env : Env H} (hd : env.aead.Documented) (handles : List H)
    (minProfile : Option PyStr) (rt : Runtime) (i : ι) (sink : ω) :
    Eff.Post (decryptStream env handles minProfile) (World.start rt i sink) fun _ w' =>
      Within rt.decryptCalls i w' ∧ w'.out.length ≤ maxStreamPlaintextSize := by
  unfold decryptStream
  apply Eff.Post.bind
  apply (readPrologue_within env handles minProfile rt i sink).mono
  rintro (e | p) w₁ ⟨hsame, hout, hreads, hprologue⟩
  · exact ⟨Within.of_nothing hsame hreads, by rw [hout]; exact Nat.zero_le _⟩
  obtain ⟨initial, i₁, n, hread, hreader, hrest⟩ := hprologue p rfl
  apply Eff.Post.bind
  apply Eff.Post.of_eq (newBuffer_run p.rawRootKey w₁)
  let w₂ : World ι ω := { w₁ with rt := { w₁.rt with heap := w₁.rt.heap ++ [p.rawRootKey] } }
  apply Eff.Post.tryFinally
  have hbody : Eff.Post (do
      let key ← onRuntime (Runtime.readBuffer w₁.rt.heap.length)
      let aesgcm ← Eff.lift (AESGCM env.aead key)
      newReader p.unconsumedInitial
      let receivedFinal ← (decryptLoop env aesgcm p.headerBytes p.baseNonce).toEff {}
      if !receivedFinal then
        Eff.raise (.decryptionError "decryption failed: missing FINAL frame") :
        Eff Exc (World ι ω) Unit) w₂ fun _ w' =>
      Within rt.decryptCalls i w' ∧ w'.out.length ≤ maxStreamPlaintextSize := by
    apply Eff.Post.bind
    apply Eff.Post.of_eq (readBuffer_run (heap_getD_append _ _) w₂ rfl)
    dsimp only
    cases AESGCM env.aead p.rawRootKey with
    | error e =>
      refine ⟨Within.of_nothing hsame hreads, ?_⟩
      change w₁.out.length ≤ _
      rw [hout]
      exact Nat.zero_le _
    | ok aesgcm =>
    apply Eff.Post.lift_ok
    apply Eff.Post.bind
    let w₃ : World ι ω := { w₂ with reader := { w₂.reader with buf := p.unconsumedInitial } }
    have hnew : (newReader p.unconsumedInitial).run w₂ = (.ok (), w₃) := rfl
    apply Eff.Post.of_eq hnew
    have hreader₃ : w₃.reader = ⟨initial.drop n, i₁⟩ := by
      change (⟨p.unconsumedInitial, w₁.reader.stream⟩ : StreamReader ι) = _
      rw [hreader, hrest]
    have hbounds := (decryptLoop_readsFrames hd ⟨aesgcm, p.headerBytes, p.baseNonce⟩).bounds
      trivial rfl w₃
    have hwithin := Within.of_loop hbounds hsame hread hreader₃
    have hwritten := decryptLoop_written hd ⟨aesgcm, p.headerBytes, p.baseNonce⟩ (w := w₃) hout
    apply Eff.Post.bind
    rcases hrun : ((decryptLoop env aesgcm p.headerBytes p.baseNonce).toEff {}).run w₃ with ⟨r, w₄⟩
    rw [hrun] at hwithin
    have hsize := hwritten.elim hrun
    apply Eff.Post.of_eq hrun
    rcases r with e | (_ | _) <;> exact ⟨hwithin, hsize⟩
  apply Eff.Post.tryCatch
  apply hbody.mono
  rintro (e | u) w' ⟨hwithin, hsize⟩
  · exact ⟨hwithin.onward ((Onward.zeroize _).of_eq rfl), hsize⟩
  · exact ⟨hwithin.onward ((Onward.zeroize _).of_eq rfl), hsize⟩

omit [Output ω] in
/-- The key of a cipher object is what a buffer holds; nothing else happens. -/
theorem useKey_within (env : Env H) {base : List DecryptCall} {i : ι} {buf : Nat}
    {w : World ι ω} {α : Type} {f : Bytes → Eff Exc (World ι ω) α} (hw : Within base i w)
    (hf : ∀ aesgcm, Eff.Post (f aesgcm) w fun _ w' => Within base i w') :
    Eff.Post (do
      let key ← onRuntime (Runtime.readBuffer buf)
      let aesgcm ← Eff.lift (AESGCM env.aead key)
      f aesgcm) w fun _ w' => Within base i w' := by
  apply Eff.Post.bind
  apply Eff.Post.of_eq (readBuffer_run rfl w rfl)
  dsimp only
  cases AESGCM env.aead (w.rt.heap.getD buf []) with
  | error e => exact hw
  | ok aesgcm => exact Eff.Post.lift_ok (hf aesgcm)

theorem migrateUnder_within (env : Env H) (p : Prologue) (oldBuf : Nat) (new : StreamKey)
    {base : List DecryptCall} {i i₁ : ι} {initial : Bytes} {n : Nat} {w : World ι ω}
    (hread : Input.read maxHeaderSize i = (.ok initial, i₁)) (hcalls : w.rt.decryptCalls = base)
    (hreader : w.reader = ⟨[], i₁⟩) (hrest : p.unconsumedInitial = initial.drop n) :
    Eff.Post (migrateUnder env p oldBuf new) w fun _ w' => Within base i w' := by
  have hstart : Within base i w :=
    Within.of_nothing hcalls (by rw [hreader]; exact ReadsWithin.prologue hread)
  unfold migrateUnder
  apply Eff.Post.bind_keeps (Onward.newBuffer new.aesgcm)
  swap
  · intro e w₁ honward
    exact hstart.onward honward
  intro newBuf w₁ honward _
  apply Eff.Post.bind_keeps (Onward.write new.headerBytes)
  swap
  · intro e w₂ honward'
    exact (hstart.onward honward).onward honward'
  intro _ w₂ honward' _
  have hw₂ := (hstart.onward honward).onward honward'
  apply Eff.Post.tryFinally
  have hbody : Eff.Post (do
      let oldKey ← onRuntime (Runtime.readBuffer oldBuf)
      let oldAesgcm ← Eff.lift (AESGCM env.aead oldKey)
      let newKey ← onRuntime (Runtime.readBuffer newBuf)
      let newAesgcm ← Eff.lift (AESGCM env.aead newKey)
      newReader p.unconsumedInitial
      let receivedFinal ← (migrateLoop env oldAesgcm p.headerBytes p.baseNonce newAesgcm
        new.headerBytes new.baseNonce).toEff {}
      if !receivedFinal then Eff.raise missingFinal : Eff Exc (World ι ω) Unit) w₂ fun _ w' =>
      Within base i w' := by
    apply useKey_within env hw₂
    intro oldAesgcm
    apply useKey_within env hw₂
    intro newAesgcm
    apply Eff.Post.bind
    let w₃ : World ι ω := { w₂ with reader := { w₂.reader with buf := p.unconsumedInitial } }
    have hnew : (newReader p.unconsumedInitial).run w₂ = (.ok (), w₃) := rfl
    apply Eff.Post.of_eq hnew
    have hreader₃ : w₃.reader = ⟨initial.drop n, i₁⟩ := by
      change (⟨p.unconsumedInitial, w₂.reader.stream⟩ : StreamReader ι) = _
      rw [honward'.2, honward.2, hreader, hrest]
    have hcalls₃ : w₃.rt.decryptCalls = base := by
      rw [← hcalls]
      exact Eq.trans honward'.1 honward.1
    have hstart : ({} : MigrateVars).newSequenceNumber = ({} : MigrateVars).sequenceNumber := rfl
    have hbounds := (migrateLoop_readsFrames env ⟨oldAesgcm, p.headerBytes, p.baseNonce⟩
      ⟨newAesgcm, new.headerBytes, new.baseNonce⟩).bounds hstart rfl w₃
    have hwithin := Within.of_loop hbounds hcalls₃ hread hreader₃
    apply Eff.Post.bind
    rcases hrun : ((migrateLoop env oldAesgcm p.headerBytes p.baseNonce newAesgcm new.headerBytes
      new.baseNonce).toEff {}).run w₃ with ⟨r, w₄⟩
    rw [hrun] at hwithin
    apply Eff.Post.of_eq hrun
    rcases r with e | (_ | _) <;> exact hwithin
  apply Eff.Post.tryCatch
  apply hbody.mono
  rintro (e | u) w' hwithin
  · exact (hwithin.onward ((Onward.zeroize oldBuf).of_eq rfl)).onward
      ((Onward.zeroize newBuf).of_eq rfl)
  · exact (hwithin.onward ((Onward.zeroize oldBuf).of_eq rfl)).onward
      ((Onward.zeroize newBuf).of_eq rfl)

theorem migrateStream_within (env : Env H) (handles : List H) (newBundle : PublicBundle)
    (minProfile : Option PyStr) (rt : Runtime) (i : ι) (sink : ω) :
    Eff.Post (migrateStream env handles newBundle minProfile) (World.start rt i sink) fun _ w' =>
      Within rt.decryptCalls i w' := by
  rw [migrateStream_eq]
  apply Eff.Post.bind
  apply (readPrologue_within env handles minProfile rt i sink).mono
  rintro (e | p) w₁ ⟨hsame, -, hreads, hprologue⟩
  · exact Within.of_nothing hsame hreads
  obtain ⟨initial, i₁, n, hread, hreader, hrest⟩ := hprologue p rfl
  obtain ⟨r, rt₂, hderive, hnew⟩ := migrateFrom_run env newBundle p w₁
  have hderived : SameOpenings (p.before w₁.rt) rt₂ :=
    (SameOpenings.stable.deriveRootKey env newBundle).of_eq hderive
  have hcalls : rt₂.decryptCalls = rt.decryptCalls := Eq.trans hderived hsame
  rcases hnew with ⟨e, hraise, -⟩ | ⟨new, -, hunder⟩
  · exact Eff.Post.of_eq hraise (Within.of_nothing hcalls hreads)
  · have hwithin := migrateUnder_within env p w₁.rt.heap.length new (w := { w₁ with rt := rt₂ })
      hread hcalls hreader hrest
    exact Eff.Post.of_eq hunder hwithin

/-- What `migrate_stream` seals is the plaintext of one stream within the limits. -/
def Reseals (base calls : List EncryptCall) : Prop :=
  ∃ k pts ended, calls = base ++ streamCalls k pts ended ∧ pts.length ≤ maxStreamDataFrames ∧
    pts.flatten.length ≤ maxStreamPlaintextSize

theorem migrateStream_reseals {env : Env H} (hd : env.aead.Documented) (handles : List H)
    (newBundle : PublicBundle) (minProfile : Option PyStr) (rt : Runtime) (i : ι) (sink : ω) :
    Eff.Post (migrateStream env handles newBundle minProfile) (World.start rt i sink) fun _ w' =>
      Reseals rt.encryptCalls w'.rt.encryptCalls := by
  apply (migrateStream_obeys hd handles newBundle minProfile rt i sink).mono
  rintro r w' (⟨-, hcalls, -⟩ | ⟨k, -, chunks, final, pts, ended, hcalls, hdisciplined⟩)
  · refine ⟨⟨[], [], []⟩, [], false, ?_, Nat.zero_le _, Nat.zero_le _⟩
    rw [hcalls]
    simp [streamCalls, dataCalls]
  · exact ⟨k, pts, ended, hcalls, hdisciplined.count, hdisciplined.total⟩

end Loops

/-! ### The bounds -/

/-- Whatever the input gives, and for however long: the loops end after a bounded number of passes,
each of which takes 22 bytes off the input; the readers ask for no longer frame body, open no more
frames and write or seal no more plaintext than the limits allow. Neither loop comes to a state
in which FINAL was received, or ends in another way. -/
theorem streamReaders_bounded {H ι ω : Type} [Input ι] [Output ω] (env : Env H)
    (hd : env.aead.Documented) :
    (∀ n (r : StreamReader ι), ∃ passes, passes ≤ n ∧ (StreamReader.fill n).ExitsIn passes () r
      (((StreamReader.fill n).toEff ()).run r).1 (((StreamReader.fill n).toEff ()).run r).2) ∧
    (∀ (k : StreamKey) (w : World ι ω),
      LoopBounds (decryptLoop env k.aesgcm k.headerBytes k.baseNonce) id k {} w) ∧
    (∀ (old new : StreamKey) (w : World ι ω),
      LoopBounds (migrateLoop env old.aesgcm old.headerBytes old.baseNonce new.aesgcm
        new.headerBytes new.baseNonce) MigrateVars.reading old {} w) ∧
    ∀ handles minProfile rt (i : ι) (sink : ω),
      Eff.Post (decryptStream env handles minProfile) (World.start rt i sink) (fun _ w' =>
        Within rt.decryptCalls i w' ∧ w'.out.length ≤ maxStreamPlaintextSize) ∧
      ∀ newBundle, Eff.Post (migrateStream env handles newBundle minProfile)
        (World.start rt i sink) fun _ w' =>
          Within rt.decryptCalls i w' ∧ Reseals rt.encryptCalls w'.rt.encryptCalls := by
  refine ⟨?_, ?_, ?_, ?_⟩
  · intro n r
    obtain ⟨passes, hpasses, hexit⟩ := (StreamReader.fill n).exitsIn_run () r
    have hrank : (StreamReader.fill n).rank () r ≤ n := Nat.sub_le _ _
    exact ⟨passes, hpasses.trans hrank, hexit⟩
  · intro k w
    exact (decryptLoop_readsFrames hd k).bounds trivial rfl w
  · intro old new w
    exact (migrateLoop_readsFrames env old new).bounds rfl rfl w
  · intro handles minProfile rt i sink
    refine ⟨decryptStream_within hd handles minProfile rt i sink, ?_⟩
    intro newBundle
    exact ⟨migrateStream_within env handles newBundle minProfile rt i sink,
      migrateStream_reseals hd handles newBundle minProfile rt i sink⟩

theorem streamReaders_bounded_endless :
    LoopBounds (decryptLoop (xorEnv zeroTagAead) zeroKey.aesgcm zeroKey.headerBytes
      zeroKey.baseNonce) id zeroKey {} (World.start zeroRuntime (Endless.mk 1) BytesSink.mk) :=
  (streamReaders_bounded (xorEnv zeroTagAead) zeroTagAead_correct.toDocumented).2.1 zeroKey _

end CryptoFlex
