import CryptoFlex.Api.Failures
import CryptoFlex.Streaming.Stream

namespace CryptoFlex

open Lib World

variable {H ι ω : Type} {env : Env H}

/-- Reading the input raises nothing but `P`. -/
def InputRaises (ι : Type) [Input ι] (P : Exc → Prop) : Prop :=
  ∀ n (i i' : ι) e, Input.read n i = (.error e, i') → P e

/-- Writing the output raises nothing but `P`. -/
def OutputRaises (ω : Type) [Output ω] (P : Exc → Prop) : Prop :=
  ∀ b (s s' : ω) k e, Output.write b s = (some (k, e), s') → P e

theorem newReader_raises {P : Exc → Prop} (initial : Bytes) :
    Eff.Raises P (newReader initial : Eff Exc (World ι ω) Unit) := Eff.Raises.modify _

theorem onRuntime_raises {α : Type} {P : Exc → Prop} {x : Eff Exc Runtime α}
    (hx : Eff.Raises P x) : Eff.Raises P (onRuntime x : Eff Exc (World ι ω) α) :=
  Eff.Raises.zoom hx

section Reading

variable [Input ι]

theorem readStream_raises {P : Exc → Prop} (hI : InputRaises ι P) (n : Nat) :
    Eff.Raises P (StreamReader.readStream n : Eff Exc (StreamReader ι) Bytes) := by
  intro r e t h
  exact hI n r.stream t.stream e
    (Prod.ext (Prod.mk.inj h).1 (congrArg StreamReader.stream (Prod.mk.inj h).2))

theorem fillStep_raises {P : Exc → Prop} (hI : InputRaises ι P) (n : Nat) :
    Eff.Raises P (StreamReader.fillStep n : Eff Exc (StreamReader ι) (Unit ⊕ Unit)) := by
  unfold StreamReader.fillStep
  refine Eff.Raises.bind Eff.Raises.get ?_
  intro r
  split
  · exact Eff.Raises.pure _
  · refine Eff.Raises.bind (readStream_raises hI _) ?_
    intro more
    split
    · exact Eff.Raises.pure _
    · exact Eff.Raises.bind (Eff.Raises.modify _) fun _ => Eff.Raises.pure _

theorem readExact_raises (hI : InputRaises ι NotDowngrade) (n : Nat) :
    Eff.Raises NotDowngrade (StreamReader.readExact n : Eff Exc (StreamReader ι) Bytes) := by
  unfold StreamReader.readExact
  refine Eff.Raises.bind ((StreamReader.fill n).run_raises (fun _ => fillStep_raises hI n) ()) ?_
  intro _
  refine Eff.Raises.bind Eff.Raises.get ?_
  intro r
  split
  · exact Eff.Raises.raise rfl
  · exact Eff.Raises.bind (Eff.Raises.modify _) fun _ => Eff.Raises.pure _

theorem hasRemaining_raises {P : Exc → Prop} (hI : InputRaises ι P) :
    Eff.Raises P (StreamReader.hasRemaining : Eff Exc (StreamReader ι) Bool) := by
  unfold StreamReader.hasRemaining
  refine Eff.Raises.bind Eff.Raises.get ?_
  intro r
  split
  · exact Eff.Raises.pure _
  · refine Eff.Raises.bind (readStream_raises hI _) ?_
    intro more
    split
    · exact Eff.Raises.bind (Eff.Raises.modify _) fun _ => Eff.Raises.pure _
    · exact Eff.Raises.pure _

theorem index_notDowngrade {b : Bytes} {n : Nat} {e : Exc} (h : index b n = .error e) :
    NotDowngrade e := by
  unfold index at h
  split at h <;> cases h
  rfl

theorem unpack_notDowngrade {w : Nat} {b : Bytes} {e : Exc} (h : unpack w b = .error e) :
    NotDowngrade e := by
  unfold unpack at h
  split at h <;> cases h
  rfl

theorem pack_notDowngrade {w : Nat} {v : Int} {e : Exc} (h : pack w v = .error e) :
    NotDowngrade e := by
  rw [pack_raises h]
  rfl

theorem deriveChunkNonce_notDowngrade {baseNonce : Bytes} {seq : Nat} {e : Exc}
    (h : deriveChunkNonce baseNonce seq = .error e) : NotDowngrade e := by
  unfold deriveChunkNonce at h
  split at h
  · cases h
    rfl
  split at h
  · cases h
    rfl
  rcases bind_eq_error.mp h with h | ⟨counter, -, h⟩
  · exact pack_notDowngrade h
  · cases h

theorem deriveChunkAad_notDowngrade {headerBytes tag : Bytes} {seq : Nat} {e : Exc}
    (h : deriveChunkAad headerBytes seq tag = .error e) : NotDowngrade e := by
  unfold deriveChunkAad at h
  rcases bind_eq_error.mp h with h | ⟨counter, -, h⟩
  · exact pack_notDowngrade h
  · cases h

theorem readFrameType_raises (hI : InputRaises ι NotDowngrade) (received : Bool) :
    Eff.Raises NotDowngrade (readFrameType received : Eff Exc (World ι ω) Nat) := by
  unfold readFrameType
  refine Eff.Raises.bind (Eff.Raises.tryCatch (Eff.Raises.zoom (readExact_raises hI 1)) ?_) ?_
  · intro e he
    split
    · exact Eff.Raises.raise rfl
    · exact Eff.Raises.raise he
  · intro b
    exact Eff.Raises.lift fun e he => index_notDowngrade he

theorem readDataFrame_raises (hI : InputRaises ι NotDowngrade) (seq total : Nat) :
    Eff.Raises NotDowngrade (readDataFrame seq total : Eff Exc (World ι ω) (Nat × Bytes)) := by
  unfold readDataFrame
  split
  · exact Eff.Raises.raise rfl
  refine Eff.Raises.bind (Eff.Raises.zoom (readExact_raises hI 4)) ?_
  intro lengthBytes
  refine Eff.Raises.bind (Eff.Raises.lift fun e he => unpack_notDowngrade he) ?_
  intro ctLen
  split
  · exact Eff.Raises.raise rfl
  dsimp only
  split
  · exact Eff.Raises.raise rfl
  refine Eff.Raises.bind (Eff.Raises.zoom (readExact_raises hI ctLen)) ?_
  intro ct
  exact Eff.Raises.pure _

theorem readFinalFrame_raises (hI : InputRaises ι NotDowngrade) :
    Eff.Raises NotDowngrade (readFinalFrame : Eff Exc (World ι ω) Bytes) := by
  unfold readFinalFrame
  refine Eff.Raises.bind (Eff.Raises.zoom (readExact_raises hI 4)) ?_
  intro lengthBytes
  refine Eff.Raises.bind (Eff.Raises.lift fun e he => unpack_notDowngrade he) ?_
  intro ctLen
  split
  · exact Eff.Raises.raise rfl
  · exact Eff.Raises.zoom (readExact_raises hI ctLen)

end Reading

section Writing

variable [Output ω]

theorem write_raises {P : Exc → Prop} (hO : OutputRaises ω P) (b : Bytes) :
    Eff.Raises P (World.write b : Eff Exc (World ι ω) Unit) := by
  intro w e t h
  rcases hw : Output.write b w.sink with ⟨_ | ⟨k, e'⟩, sink⟩
  · simp only [World.write, hw] at h
    cases h
  · simp only [World.write, hw] at h
    cases h
    exact hO _ _ _ _ _ hw

theorem writeFrame_raises (hO : OutputRaises ω NotDowngrade) (frameType : Nat) (ct : Bytes) :
    Eff.Raises NotDowngrade (writeFrame frameType ct : Eff Exc (World ι ω) Unit) := by
  unfold writeFrame
  refine Eff.Raises.bind (Eff.Raises.lift fun e he => pack_notDowngrade he) ?_
  intro typeByte
  refine Eff.Raises.bind (write_raises hO _) ?_
  intro _
  refine Eff.Raises.bind (Eff.Raises.lift fun e he => pack_notDowngrade he) ?_
  intro length
  refine Eff.Raises.bind (write_raises hO _) ?_
  intro _
  exact write_raises hO ct

end Writing

theorem nonceAndAad_raises {α : Type} (headerBytes baseNonce : Bytes) (seq : Nat) (tag : Bytes)
    {f : Bytes → Bytes → Eff Exc (World ι ω) α}
    (hf : ∀ nonce aad, Eff.Raises NotDowngrade (f nonce aad)) :
    Eff.Raises NotDowngrade (do
      let nonce ← Eff.lift (deriveChunkNonce baseNonce seq)
      let aad ← Eff.lift (deriveChunkAad headerBytes seq tag)
      f nonce aad) := by
  refine Eff.Raises.bind (Eff.Raises.lift fun e he => deriveChunkNonce_notDowngrade he) ?_
  intro nonce
  refine Eff.Raises.bind (Eff.Raises.lift fun e he => deriveChunkAad_notDowngrade he) ?_
  exact hf nonce

theorem refuseTrailing_raises [Input ι] (hI : InputRaises ι NotDowngrade) {α : Type} {e : Exc}
    (he : NotDowngrade e) (a : α) : Eff.Raises NotDowngrade (do
      let trailing ← onReader StreamReader.hasRemaining
      if trailing then Eff.raise e else return a : Eff Exc (World ι ω) α) := by
  refine Eff.Raises.bind (Eff.Raises.zoom (hasRemaining_raises hI)) ?_
  intro trailing
  split
  · exact Eff.Raises.raise he
  · exact Eff.Raises.pure _

section Loops

variable [Input ι] [Output ω]

theorem decryptStep_raises (hI : InputRaises ι NotDowngrade) (hO : OutputRaises ω NotDowngrade)
    (ha : env.aead.DecryptRaises NotDowngrade) (aesgcm headerBytes baseNonce : Bytes)
    (v : DecryptVars) : Eff.Raises NotDowngrade
      (decryptStep env aesgcm headerBytes baseNonce v :
        Eff Exc (World ι ω) (DecryptVars ⊕ Bool)) := by
  unfold decryptStep
  refine Eff.Raises.bind (readFrameType_raises hI _) ?_
  intro frameType
  split
  · exact Eff.Raises.raise rfl
  split
  · refine Eff.Raises.bind (readDataFrame_raises hI _ _) ?_
    intro frame
    refine nonceAndAad_raises _ _ _ _ ?_
    intro nonce aad
    refine Eff.Raises.bind (onRuntime_raises (aesgcmDecrypt_raises ha _ _ _ _)) ?_
    intro plaintext
    refine Eff.Raises.bind (write_raises hO _) ?_
    intro _
    exact Eff.Raises.pure _
  split
  · refine Eff.Raises.bind (readFinalFrame_raises hI) ?_
    intro finalCt
    refine nonceAndAad_raises _ _ _ _ ?_
    intro nonce aad
    refine Eff.Raises.bind (onRuntime_raises (aesgcmDecrypt_raises ha _ _ _ _)) ?_
    intro _
    apply refuseTrailing_raises hI
    rfl
  · exact Eff.Raises.raise rfl

theorem migrateStep_raises (hI : InputRaises ι NotDowngrade) (hO : OutputRaises ω NotDowngrade)
    (ha : env.aead.DecryptRaises NotDowngrade) (ha' : env.aead.EncryptRaises NotDowngrade)
    (oldAesgcm oldHeaderBytes oldBaseNonce newAesgcm newHeaderBytes newBaseNonce : Bytes)
    (v : MigrateVars) : Eff.Raises NotDowngrade
      (migrateStep env oldAesgcm oldHeaderBytes oldBaseNonce newAesgcm newHeaderBytes newBaseNonce
        v : Eff Exc (World ι ω) (MigrateVars ⊕ Bool)) := by
  unfold migrateStep
  refine Eff.Raises.bind (readFrameType_raises hI _) ?_
  intro frameType
  split
  · exact Eff.Raises.raise rfl
  split
  · split
    · exact Eff.Raises.raise rfl
    refine Eff.Raises.bind (readDataFrame_raises hI _ _) ?_
    intro frame
    refine nonceAndAad_raises _ _ _ _ ?_
    intro oldNonce oldAad
    refine Eff.Raises.bind (onRuntime_raises (aesgcmDecrypt_raises ha _ _ _ _)) ?_
    intro chunkPt
    refine Eff.Raises.bind (onRuntime_raises (newBuffer_raises _)) ?_
    intro chunkPtBuf
    refine Eff.Raises.bind (Eff.Raises.tryFinally ?_ (onRuntime_raises (zeroize_raises _))) ?_
    · refine nonceAndAad_raises _ _ _ _ ?_
      intro newNonce newAad
      refine Eff.Raises.bind (onRuntime_raises (readBuffer_raises _)) ?_
      intro pt
      refine Eff.Raises.bind (onRuntime_raises (aesgcmEncrypt_raises ha' _ _ _ _)) ?_
      intro ct
      exact writeFrame_raises hO _ _
    · intro _
      exact Eff.Raises.pure _
  split
  · split
    · exact Eff.Raises.raise rfl
    refine Eff.Raises.bind (readFinalFrame_raises hI) ?_
    intro finalCt
    refine nonceAndAad_raises _ _ _ _ ?_
    intro finalNonce finalAad
    refine Eff.Raises.bind (onRuntime_raises (aesgcmDecrypt_raises ha _ _ _ _)) ?_
    intro _
    refine nonceAndAad_raises _ _ _ _ ?_
    intro newFinalNonce newFinalAad
    refine Eff.Raises.bind (onRuntime_raises (aesgcmEncrypt_raises ha' _ _ _ _)) ?_
    intro newFinalCt
    refine Eff.Raises.bind (writeFrame_raises hO _ _) ?_
    intro _
    apply refuseTrailing_raises hI
    rfl
  · exact Eff.Raises.raise rfl

end Loops

end CryptoFlex
