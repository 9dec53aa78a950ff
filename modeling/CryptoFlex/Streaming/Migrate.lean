import CryptoFlex.Streaming.Encrypt

namespace CryptoFlex

open Lib World

variable {H ι ω : Type}

/-- A frame condition: nothing is written and the process state stays. -/
def OnlyReads (w w' : World ι ω) : Prop := w'.rt = w.rt ∧ w'.out = w.out

namespace OnlyReads

theorem refl (w : World ι ω) : OnlyReads w w := ⟨rfl, rfl⟩

theorem trans (w w' w'' : World ι ω) (h : OnlyReads w w') (h' : OnlyReads w' w'') :
    OnlyReads w w'' := ⟨h'.1.trans h.1, h'.2.trans h.2⟩

theorem onReader {α : Type} (x : Eff Exc (StreamReader ι) α) :
    Eff.Keeps OnlyReads (onReader x : Eff Exc (World ι ω) α) := fun _ => ⟨rfl, rfl⟩

theorem lift {α : Type} (x : Except Exc α) :
    Eff.Keeps OnlyReads (Eff.lift x : Eff Exc (World ι ω) α) := Eff.Keeps.lift refl x

theorem raise {α : Type} (e : Exc) :
    Eff.Keeps OnlyReads (Eff.raise e : Eff Exc (World ι ω) α) := Eff.Keeps.raise refl e

end OnlyReads

theorem Emitted.of_onlyReads {new : StreamKey} {seq : Nat} {chunks : List (Bytes × Bytes)}
    {final : Option Bytes} {whole : Prop} {w w₁ w' : World ι ω} (hr : OnlyReads w w₁)
    (h : Emitted new seq chunks final whole w₁ w') : Emitted new seq chunks final whole w w' where
  seals := by rw [h.seals, hr.1]
  out := by
    obtain ⟨written, hout, hpart⟩ := h.out
    exact ⟨written, by rw [hout, hr.2], hpart⟩

section Reseal

variable [Output ω]

/-- Seal again what a buffer holds. -/
def resealBuffer (env : Env H) (new : StreamKey) (seq buf : Nat) : Eff Exc (World ι ω) Unit := do
  let newNonce ← Eff.lift (deriveChunkNonce new.baseNonce seq)
  let newAad ← Eff.lift (deriveChunkAad new.headerBytes seq aadTagData)
  let pt ← onRuntime (Runtime.readBuffer buf)
  let newCtWithTag ← onRuntime (aesgcmEncrypt env new.aesgcm newNonce pt newAad)
  writeFrame frameTypeData newCtWithTag

theorem resealBuffer_run (env : Env H) (new : StreamKey) (seq : Nat) {buf : Nat} {pt : Bytes}
    {w : World ι ω} (hbuf : w.rt.heap.getD buf [] = pt) :
    (resealBuffer env new seq buf).run w =
      (emitFrame env new seq aadTagData frameTypeData pt).run w := by
  unfold resealBuffer emitFrame
  cases deriveChunkNonce new.baseNonce seq with
  | error e => rfl
  | ok nonce =>
    rw [Eff.run_lift_ok_bind, Eff.run_lift_ok_bind]
    cases deriveChunkAad new.headerBytes seq aadTagData with
    | error e => rfl
    | ok aad =>
      rw [Eff.run_lift_ok_bind, Eff.run_lift_ok_bind, Eff.bind_ok (readBuffer_run hbuf w rfl)]

/-- A chunk in a buffer of its own is sealed as it is, and the buffer wiped. -/
theorem resealFresh_run (env : Env H) (new : StreamKey) (seq : Nat) {pt : Bytes} {w w' : World ι ω}
    {r : Except Exc Unit} (hrun : (emitFrame env new seq aadTagData frameTypeData pt).run
      { w with rt := { w.rt with heap := w.rt.heap ++ [pt] } } = (r, w')) :
    (Eff.tryFinally (resealBuffer env new seq w.rt.heap.length)
      (onRuntime (Runtime.zeroize w.rt.heap.length))).run
        { w with rt := { w.rt with heap := w.rt.heap ++ [pt] } } =
      (r, { w' with rt := ((Runtime.zeroize w.rt.heap.length).run w'.rt).2 }) := by
  let w₁ : World ι ω := { w with rt := { w.rt with heap := w.rt.heap ++ [pt] } }
  have hbuf : w₁.rt.heap.getD w.rt.heap.length [] = pt := heap_getD_append _ _
  have hreseal := (resealBuffer_run env new seq hbuf).trans hrun
  have hzero : (onRuntime (Runtime.zeroize w.rt.heap.length)).run w' =
    (.ok (), { w' with rt := ((Runtime.zeroize w.rt.heap.length).run w'.rt).2 }) := rfl
  exact Eff.tryFinally_run hreseal hzero

end Reseal

variable [Input ι]

namespace OnlyReads

theorem readFrameType (receivedFinal : Bool) :
    Eff.Keeps OnlyReads (readFrameType receivedFinal : Eff Exc (World ι ω) Nat) := by
  apply Eff.Keeps.bind trans
  · apply Eff.Keeps.tryCatch trans (onReader _)
    intro e
    split
    · exact raise _
    · exact raise _
  · intro b
    exact lift _

theorem readDataFrame (seq total : Nat) :
    Eff.Keeps OnlyReads (readDataFrame seq total : Eff Exc (World ι ω) (Nat × Bytes)) := by
  unfold CryptoFlex.readDataFrame
  split
  · exact raise _
  · apply Eff.Keeps.bind trans (onReader _)
    intro lengthBytes
    apply Eff.Keeps.bind trans (lift _)
    intro ctLen
    split
    · exact raise _
    · dsimp only
      split
      · exact raise _
      · apply Eff.Keeps.bind trans (onReader _)
        intro ct
        exact Eff.Keeps.pure refl _

theorem readFinalFrame : Eff.Keeps OnlyReads (readFinalFrame : Eff Exc (World ι ω) Bytes) := by
  apply Eff.Keeps.bind trans (onReader _)
  intro lengthBytes
  apply Eff.Keeps.bind trans (lift _)
  intro ctLen
  split
  · exact raise _
  · exact onReader _

theorem readFrame (seq total : Nat) :
    Eff.Keeps OnlyReads (readFrame seq total : Eff Exc (World ι ω) Frame) := by
  apply Eff.Keeps.bind trans (readFrameType false)
  intro frameType
  split
  · apply Eff.Keeps.bind trans (readDataFrame seq total)
    intro f
    exact Eff.Keeps.pure refl _
  · split
    · apply Eff.Keeps.bind trans readFinalFrame
      intro ct
      exact Eff.Keeps.pure refl _
    · exact raise _

end OnlyReads

/-- The plaintext length that `readDataFrame` announces is that of its ciphertext less the tag. -/
theorem readDataFrame_ptLen {seq total ptLen : Nat} {ct : Bytes} {w w' : World ι ω}
    (h : (readDataFrame seq total).run w = (.ok (ptLen, ct), w')) : ptLen = ct.length - 16 := by
  unfold readDataFrame at h
  split at h
  · cases h
  obtain ⟨lengthBytes, w₁, -, h⟩ := Eff.bind_eq_ok.mp h
  obtain ⟨ctLen, w₂, -, h⟩ := Eff.bind_eq_ok.mp h
  split at h
  · cases h
  dsimp only at h
  split at h
  · cases h
  obtain ⟨ct', w₃, hread, hret⟩ := Eff.bind_eq_ok.mp h
  cases hret
  rw [onReader, Eff.run_zoom] at hread
  obtain ⟨hok, -⟩ := Prod.mk.inj hread
  rw [StreamReader.readExact_length (Prod.ext hok rfl)]

variable [Output ω]

/-- The rest of a pass of `migrate_stream`, once the frame is read. -/
def migrateFrame (env : Env H) (old new : StreamKey) (v : MigrateVars) (f : Frame) :
    Eff Exc (World ι ω) (MigrateVars ⊕ Bool) := do
  let plaintext ← openFrame env old v.sequenceNumber f
  match f with
  | .data ct =>
    let buf ← onRuntime (Runtime.newBuffer plaintext)
    Eff.tryFinally (resealBuffer env new v.newSequenceNumber buf) (onRuntime (Runtime.zeroize buf))
    return .inl { v with
      sequenceNumber := v.sequenceNumber + 1
      newSequenceNumber := v.newSequenceNumber + 1
      totalPlaintextBytes := v.totalPlaintextBytes + (ct.length - 16) }
  | .final _ =>
    emitFrame env new v.newSequenceNumber aadTagFinal frameTypeFinal []
    let trailing ← onReader StreamReader.hasRemaining
    if trailing then Eff.raise trailingData else return .inr true

theorem migrateFrame_data (env : Env H) (old new : StreamKey) (v : MigrateVars) (ct : Bytes) :
    (migrateFrame env old new v (.data ct) : Eff Exc (World ι ω) (MigrateVars ⊕ Bool)) = (do
      let oldNonce ← Eff.lift (deriveChunkNonce old.baseNonce v.sequenceNumber)
      let oldAad ← Eff.lift (deriveChunkAad old.headerBytes v.sequenceNumber aadTagData)
      let chunkPt ← onRuntime (aesgcmDecrypt env old.aesgcm oldNonce ct oldAad)
      let chunkPtBuf ← onRuntime (Runtime.newBuffer chunkPt)
      Eff.tryFinally (resealBuffer env new v.newSequenceNumber chunkPtBuf)
        (onRuntime (Runtime.zeroize chunkPtBuf))
      return .inl { v with
        sequenceNumber := v.sequenceNumber + 1
        newSequenceNumber := v.newSequenceNumber + 1
        totalPlaintextBytes := v.totalPlaintextBytes + (ct.length - 16) }) := by
  unfold migrateFrame openFrame
  simp only [Eff.bind_assoc, Frame.tag, Frame.ct]

theorem migrateFrame_final (env : Env H) (old new : StreamKey) (v : MigrateVars) (ct : Bytes) :
    (migrateFrame env old new v (.final ct) : Eff Exc (World ι ω) (MigrateVars ⊕ Bool)) = (do
      let finalNonce ← Eff.lift (deriveChunkNonce old.baseNonce v.sequenceNumber)
      let finalAad ← Eff.lift (deriveChunkAad old.headerBytes v.sequenceNumber aadTagFinal)
      let _ ← onRuntime (aesgcmDecrypt env old.aesgcm finalNonce ct finalAad)
      emitFrame env new v.newSequenceNumber aadTagFinal frameTypeFinal []
      let trailing ← onReader StreamReader.hasRemaining
      if trailing then Eff.raise trailingData else return .inr true) := by
  unfold migrateFrame openFrame
  simp only [Eff.bind_assoc, Frame.tag, Frame.ct]

/-- While the counters agree, a pass reads a frame and does the rest. -/
theorem migrateStep_run (env : Env H) (old new : StreamKey) {v : MigrateVars}
    (hv : v.receivedFinal = false) (hseq : v.newSequenceNumber = v.sequenceNumber)
    (w : World ι ω) :
    (migrateStep env old.aesgcm old.headerBytes old.baseNonce new.aesgcm new.headerBytes
        new.baseNonce v).run w =
      (readFrame v.sequenceNumber v.totalPlaintextBytes >>= migrateFrame env old new v).run w := by
  obtain ⟨seq, newSeq, total, receivedFinal⟩ := v
  cases hv
  cases hseq
  unfold migrateStep readFrame
  rw [Eff.bind_assoc]
  dsimp only
  rcases htype : (readFrameType false : Eff Exc (World ι ω) Nat).run w with ⟨_ | frameType, w₁⟩
  · rw [Eff.bind_error htype, Eff.bind_error htype]
  rw [Eff.bind_ok htype, Eff.bind_ok htype, if_neg (by simp), Eff.ite_bind]
  by_cases hd : frameType = frameTypeData
  · rw [if_pos hd, if_pos hd, if_neg (not_not.mpr rfl), Eff.bind_assoc]
    rcases hframe : (readDataFrame seq total : Eff Exc (World ι ω) (Nat × Bytes)).run w₁ with
      ⟨_ | ⟨ptLen, ct⟩, w₂⟩
    · rw [Eff.bind_error hframe, Eff.bind_error hframe]
    · rw [Eff.bind_ok hframe, Eff.bind_ok hframe, Eff.pure_bind, migrateFrame_data]
      have hlen := readDataFrame_ptLen hframe
      subst hlen
      apply congrArg fun x : Eff Exc (World ι ω) (MigrateVars ⊕ Bool) => x.run w₂
      dsimp only
      apply congrArg
      funext oldNonce
      apply congrArg
      funext oldAad
      rfl
  · rw [if_neg hd, if_neg hd, Eff.ite_bind]
    by_cases hf : frameType = frameTypeFinal
    · rw [if_pos hf, if_pos hf, if_neg (not_not.mpr rfl), Eff.bind_assoc]
      simp only [Eff.pure_bind, migrateFrame_final, emitFrame, Eff.bind_assoc, trailingData]
    · rw [if_neg hf, if_neg hf, Eff.raise_bind]

/-- All that the rest of a pass can do with the frame `f`. -/
inductive MigratePass (env : Env H) (old new : StreamKey) (v : MigrateVars) (f : Frame)
    (w : World ι ω) : Except Exc (MigrateVars ⊕ Bool) → World ι ω → Prop
  | rejected {e : Exc} {w' : World ι ω}
    (opened : old.openCt env.aead v.sequenceNumber f.tag f.ct = .error e)
    (emitted : Emitted new v.newSequenceNumber [] none False w w') :
    MigratePass env old new v f w (.error e) w'
  | dataRaised {ct pt : Bytes} {chunks : List (Bytes × Bytes)} {e : Exc} {w' : World ι ω}
    (frame : f = .data ct)
    (opened : old.openCt env.aead v.sequenceNumber aadTagData ct = .ok pt)
    (fails : EmitFails ι ω env new v.newSequenceNumber aadTagData frameTypeData pt)
    (one : chunks = [] ∨ ∃ ct', chunks = [(pt, ct')])
    (sealed : SealedFrom env.aead new v.newSequenceNumber chunks)
    (emitted : Emitted new v.newSequenceNumber chunks none False w w') :
    MigratePass env old new v f w (.error e) w'
  | data {ct pt ct' : Bytes} {w' : World ι ω} (frame : f = .data ct)
    (opened : old.openCt env.aead v.sequenceNumber aadTagData ct = .ok pt)
    (sealed : SealedFrom env.aead new v.newSequenceNumber [(pt, ct')])
    (emitted : Emitted new v.newSequenceNumber [(pt, ct')] none True w w')
    (reader : w'.reader = w.reader) :
    MigratePass env old new v f w (.ok (.inl { v with
      sequenceNumber := v.sequenceNumber + 1
      newSequenceNumber := v.newSequenceNumber + 1
      totalPlaintextBytes := v.totalPlaintextBytes + (ct.length - 16) })) w'
  | finalRaised {ct pt : Bytes} {final : Option Bytes} {e : Exc} {w' : World ι ω}
    (frame : f = .final ct)
    (opened : old.openCt env.aead v.sequenceNumber aadTagFinal ct = .ok pt)
    (fails : EmitFails ι ω env new v.newSequenceNumber aadTagFinal frameTypeFinal [])
    (sealed : ∀ ct', final = some ct' →
      new.sealPt env.aead v.newSequenceNumber aadTagFinal [] = .ok ct')
    (emitted : Emitted new v.newSequenceNumber [] final False w w') (cut : FinalCut [] final w w') :
    MigratePass env old new v f w (.error e) w'
  | final {ct pt ct' : Bytes} {r : Except Exc Bool} {w' : World ι ω} (frame : f = .final ct)
    (opened : old.openCt env.aead v.sequenceNumber aadTagFinal ct = .ok pt)
    (sealed : new.sealPt env.aead v.newSequenceNumber aadTagFinal [] = .ok ct')
    (emitted : Emitted new v.newSequenceNumber [] (some ct') True w w')
    (trailing : StreamReader.hasRemaining.run w.reader = (r, w'.reader)) :
    MigratePass env old new v f w
      (r >>= fun more => if more then .error trailingData else .ok (.inr true)) w'

theorem migrateFrame_pass (env : Env H) (old new : StreamKey) (v : MigrateVars) (f : Frame)
    (w : World ι ω) : ∃ r w', (migrateFrame env old new v f).run w = (r, w') ∧
      MigratePass env old new v f w r w' := by
  obtain ⟨rt', hseals, hopen⟩ := openFrame_run env old v.sequenceNumber f w
  unfold migrateFrame
  cases ho : old.openCt env.aead v.sequenceNumber f.tag f.ct with
  | error e =>
    rw [ho] at hopen
    exact ⟨_, _, Eff.bind_error hopen _, MigratePass.rejected ho (Emitted.nothing hseals rfl)⟩
  | ok pt =>
  rw [ho] at hopen
  rw [Eff.bind_ok hopen]
  cases f with
  | data ct =>
    have ho' : old.openCt env.aead v.sequenceNumber aadTagData ct = .ok pt := ho
    dsimp only
    rw [Eff.bind_ok (newBuffer_run _ _)]
    dsimp only
    let w₁ : World ι ω := { w with rt := { rt' with heap := rt'.heap ++ [pt] } }
    obtain ⟨r, w₂, hrun, hreader, -, hemit⟩ := emitFrame_emission env new v.newSequenceNumber
      aadTagData frameTypeData pt w₁
    obtain ⟨chunks, hsealed, hemitted, hone, hsome⟩ := hemit.data
    have hall := resealFresh_run env new v.newSequenceNumber (w := { w with rt := rt' }) hrun
    dsimp only at hall
    have hfrom : Emitted new v.newSequenceNumber chunks none (r = .ok ()) w
        { w₂ with rt := ((Runtime.zeroize rt'.heap.length).run w₂.rt).2 } := by
      refine ⟨?_, hemitted.out⟩
      rw [← hseals]
      exact hemitted.seals
    cases r with
    | error e =>
      exact ⟨_, _, Eff.bind_error hall _, MigratePass.dataRaised rfl ho' ⟨_, _, _, hrun⟩ hone hsealed
        (hfrom.weaken False.elim)⟩
    | ok u =>
      obtain ⟨ct', rfl⟩ := hone.resolve_left (hsome rfl)
      rw [Eff.bind_ok hall, Eff.run_pure]
      exact ⟨_, _, rfl, MigratePass.data rfl ho' hsealed (hfrom.weaken fun _ => rfl) hreader⟩
  | final ct =>
    have ho' : old.openCt env.aead v.sequenceNumber aadTagFinal ct = .ok pt := ho
    dsimp only
    obtain ⟨r, w₂, hrun, hreader, -, hemit⟩ := emitFrame_emission env new v.newSequenceNumber
      aadTagFinal frameTypeFinal [] ({ w with rt := rt' } : World ι ω)
    obtain ⟨final, hsealed, hemitted, hsome, hcut⟩ := hemit.final
    have hfrom : Emitted new v.newSequenceNumber [] final (r = .ok ()) w w₂ := by
      refine ⟨?_, hemitted.out⟩
      rw [← hseals]
      exact hemitted.seals
    cases r with
    | error e =>
      exact ⟨_, w₂, Eff.bind_error hrun _, MigratePass.finalRaised rfl ho' ⟨_, _, _, hrun⟩ hsealed
        (hfrom.weaken False.elim) (hcut nofun)⟩
    | ok u =>
      obtain ⟨ct', rfl⟩ := Option.isSome_iff_exists.mp (hsome rfl)
      rw [Eff.bind_ok hrun]
      rcases htrail : StreamReader.hasRemaining.run w₂.reader with ⟨r, reader'⟩
      have hrem : (onReader StreamReader.hasRemaining).run w₂ =
          (r, { w₂ with reader := reader' }) := by
        rw [onReader, Eff.run_zoom, htrail]
      have hlast : Emitted new v.newSequenceNumber [] (some ct') True w
          { w₂ with reader := reader' } := by
        have hweak := hfrom.weaken fun (_ : True) => rfl
        exact ⟨hweak.seals, hweak.out⟩
      rw [hreader] at htrail
      have hpass : MigratePass env old new v (.final ct) w
          (r >>= fun more => if more then .error trailingData else .ok (.inr true))
          { w₂ with reader := reader' } :=
        MigratePass.final rfl ho' (hsealed ct' rfl) hlast htrail
      cases r with
      | error e => exact ⟨_, _, Eff.bind_error hrem _, hpass⟩
      | ok more =>
        refine ⟨_, _, ?_, hpass⟩
        rw [Eff.bind_ok hrem]
        cases more <;> rfl

/-- Whatever the input does, the loop seals chunk after chunk, and an end mark behind them. -/
theorem migrateLoop_emitted (env : Env H) (old new : StreamKey) {v : MigrateVars}
    (hv : v.receivedFinal = false) (hseq : v.newSequenceNumber = v.sequenceNumber)
    (w : World ι ω) : ∃ r w' chunks final,
      ((migrateLoop env old.aesgcm old.headerBytes old.baseNonce new.aesgcm new.headerBytes
        new.baseNonce).toEff v).run w = (r, w') ∧
      SealedFrom env.aead new v.newSequenceNumber chunks ∧
      (∀ ct, final = some ct →
        new.sealPt env.aead (v.newSequenceNumber + chunks.length) aadTagFinal [] = .ok ct) ∧
      Emitted new v.newSequenceNumber chunks final (∃ b, r = .ok b) w w' ∧
      ∀ b, r = .ok b → b = true ∧ final.isSome := by
  induction v, w using (migrateLoop env old.aesgcm old.headerBytes old.baseNonce new.aesgcm
    new.headerBytes new.baseNonce : Loop Exc (World ι ω) MigrateVars Bool).induction with
  | h v w ih =>
    have hrun := migrateStep_run env old new hv hseq w
    rcases hread : (readFrame v.sequenceNumber v.totalPlaintextBytes).run w with ⟨r₁, w₁⟩
    have honly := (OnlyReads.readFrame v.sequenceNumber v.totalPlaintextBytes).of_eq hread
    cases r₁ with
    | error e =>
      rw [Eff.bind_error hread] at hrun
      refine ⟨_, w₁, [], none, Loop.run_raise _ hrun, SealedFrom.nil, nofun, ?_, nofun⟩
      exact Emitted.nothing (by rw [honly.1]) honly.2
    | ok f =>
      obtain ⟨r, w', hpassRun, hpass⟩ := migrateFrame_pass env old new v f w₁
      rw [Eff.bind_ok hread, hpassRun] at hrun
      cases hpass with
      | rejected opened emitted =>
        exact ⟨_, w', [], none, Loop.run_raise _ hrun, SealedFrom.nil, nofun,
          (emitted.of_onlyReads honly).weaken nofun, nofun⟩
      | @dataRaised ct pt chunks e _ frame opened fails one sealed emitted =>
        exact ⟨_, w', chunks, none, Loop.run_raise _ hrun, sealed, nofun,
          (emitted.of_onlyReads honly).weaken nofun, nofun⟩
      | @data ct pt ct' _ frame opened sealed emitted reader =>
        obtain ⟨r', w'', chunks, final, hloop, hsealed, hfinal, hemitted, hdone⟩ :=
          ih _ w' hrun hv (congrArg (· + 1) hseq)
        refine ⟨r', w'', [(pt, ct')] ++ chunks, final, ?_, sealed.append hsealed, ?_,
          (emitted.of_onlyReads honly).append trivial hemitted, hdone⟩
        · rw [Loop.run_continue _ hrun]
          exact hloop
        · intro ct hct
          rw [List.length_append, List.length_singleton, ← Nat.add_assoc]
          exact hfinal ct hct
      | @finalRaised ct pt final e _ frame opened fails sealed emitted _ =>
        exact ⟨_, w', [], final, Loop.run_raise _ hrun, SealedFrom.nil, sealed,
          (emitted.of_onlyReads honly).weaken nofun, nofun⟩
      | @final ct pt ct' r _ frame opened sealed emitted trailing =>
        have hsealed : ∀ c, some ct' = some c →
            new.sealPt env.aead (v.newSequenceNumber + 0) aadTagFinal [] = .ok c := by
          intro c hc
          cases hc
          exact sealed
        have hemitted := (emitted.of_onlyReads honly).weaken
          fun (_ : ∃ b, (r >>= fun more =>
            if more then .error trailingData else .ok true) = .ok b) => trivial
        cases r with
        | error e =>
          exact ⟨_, w', [], some ct', Loop.run_raise _ hrun, SealedFrom.nil, hsealed, hemitted,
            nofun⟩
        | ok more =>
          cases more with
          | true =>
            exact ⟨_, w', [], some ct', Loop.run_raise _ hrun, SealedFrom.nil, hsealed, hemitted,
              nofun⟩
          | false =>
            refine ⟨_, w', [], some ct', Loop.run_break _ hrun, SealedFrom.nil, hsealed,
              hemitted, ?_⟩
            intro b hb
            cases hb
            exact ⟨rfl, rfl⟩

end CryptoFlex
