import CryptoFlex.Api.Downgrade
import CryptoFlex.Streaming.Failures

namespace CryptoFlex

open Lib World CryptoflexHeader

variable {H ι ω : Type} {env : Env H}

/-- The prologue, from the initial bytes, enforces the minimum on the header they begin with. -/
theorem parsePrologue_enforced (hs : env.DecapsulateRaises NotDowngrade) (handles : List H)
    (minProfile : Option PyStr) (initial : Bytes) (rt : Runtime) :
    Enforced env (parsedHeader initial) minProfile
      ((parsePrologue env handles minProfile initial).run rt).1
      (((parsePrologue env handles minProfile initial).run rt).2 = rt) := by
  have hfailed : ∀ m, NotDowngrade (.decryptionError m) := fun _ => rfl
  unfold parsePrologue
  by_cases hempty : initial = []
  · rw [if_pos hempty, hempty]
    have hnone : parsedHeader [] = none := rfl
    rw [hnone]
    exact Enforced.unparsed (hfailed _)
  rw [if_neg hempty]
  cases hparse : parseHeader initial "decryption failed: invalid header" with
  | error e =>
    rw [Eff.run_lift_error_bind, parsedHeader_of_error hparse, parseHeader_raises hparse]
    exact Enforced.unparsed (hfailed _)
  | ok parsed =>
    rw [Eff.run_lift_ok_bind, parsedHeader_of_parse hparse]
    apply Enforced.of_check
    split
    · exact Eff.Raises.raise rfl
    · next nonce _ =>
      refine Eff.Raises.bind (collapsing_raises ?_) fun _ => Eff.Raises.pure _
      refine Eff.Raises.lift_bind (fun e he => notDowngrade_covers e (getProfile_raises he)) ?_
      intro profile hprofile
      exact recoverRootKeyInternal_raises notDowngrade_covers env handles _
        (hs _ _ (getProfile_eq_ok.mp hprofile))

section Streams

variable [Input ι] [Output ω]

/-- The header that the initial bytes of the input begin with. -/
def initialHeader (w : World ι ω) : Option CryptoflexHeader :=
  match (Input.read maxHeaderSize w.reader.stream).1 with
  | .ok initial => parsedHeader initial
  | .error _ => none

/-- The world after the initial bytes are read. -/
def afterInitial (w : World ι ω) : World ι ω :=
  { w with reader := { w.reader with stream := (Input.read maxHeaderSize w.reader.stream).2 } }

omit [Output ω] in
theorem readPrologue_enforced (hI : InputRaises ι NotDowngrade)
    (hs : env.DecapsulateRaises NotDowngrade) (handles : List H) (minProfile : Option PyStr)
    (w : World ι ω) :
    Enforced env (initialHeader w) minProfile
      ((readPrologue env handles minProfile : Eff Exc (World ι ω) Prologue).run w).1
      (((readPrologue env handles minProfile : Eff Exc (World ι ω) Prologue).run w).2 =
        afterInitial w) := by
  unfold readPrologue initialHeader
  have hread : (readInput maxHeaderSize : Eff Exc (World ι ω) Bytes).run w =
      ((Input.read maxHeaderSize w.reader.stream).1, afterInitial w) := rfl
  cases hfirst : (Input.read maxHeaderSize w.reader.stream).1 with
  | error e =>
    rw [hfirst] at hread
    rw [Eff.bind_error hread]
    exact Enforced.unparsed (hI _ _ _ _ (Prod.ext hfirst rfl))
  | ok initial =>
    rw [hfirst] at hread
    rw [Eff.bind_ok hread, onRuntime, Eff.run_zoom]
    apply (parsePrologue_enforced hs handles minProfile initial (afterInitial w).rt).mono
    intro hrt
    dsimp only
    rw [hrt]

theorem decryptStream_enforced (hI : InputRaises ι NotDowngrade)
    (hO : OutputRaises ω NotDowngrade) (hs : env.DecapsulateRaises NotDowngrade)
    (ha : env.aead.DecryptRaises NotDowngrade) (handles : List H) (minProfile : Option PyStr)
    (w : World ι ω) :
    Enforced env (initialHeader w) minProfile
      ((decryptStream env handles minProfile : Eff Exc (World ι ω) Unit).run w).1
      (((decryptStream env handles minProfile : Eff Exc (World ι ω) Unit).run w).2 =
        afterInitial w) := by
  unfold decryptStream
  apply Enforced.bind (readPrologue_enforced hI hs handles minProfile w)
  intro p
  refine Eff.Raises.bind (onRuntime_raises (newBuffer_raises _)) ?_
  intro rootKeyBuf
  refine Eff.Raises.tryFinally (collapsing_raises ?_) (onRuntime_raises (zeroize_raises _))
  refine Eff.Raises.bind (onRuntime_raises (readBuffer_raises _)) ?_
  intro key
  refine Eff.Raises.bind (Eff.Raises.lift fun _ => AESGCM_raises ha.init) ?_
  intro aesgcm
  refine Eff.Raises.bind (newReader_raises _) ?_
  intro _
  refine Eff.Raises.bind (Loop.run_raises _ (decryptStep_raises hI hO ha _ _ _) _) ?_
  intro receivedFinal
  split
  · exact Eff.Raises.raise rfl
  · exact Eff.Raises.pure _

theorem migrateStream_enforced (hI : InputRaises ι NotDowngrade)
    (hO : OutputRaises ω NotDowngrade) (hs : env.DecapsulateRaises NotDowngrade)
    (hs' : env.EncapsulateRaises NotDowngrade) (ha : env.aead.DecryptRaises NotDowngrade)
    (ha' : env.aead.EncryptRaises NotDowngrade) (handles : List H) (bundle : PublicBundle)
    (minProfile : Option PyStr) (w : World ι ω) :
    Enforced env (initialHeader w) minProfile
      ((migrateStream env handles bundle minProfile : Eff Exc (World ι ω) Unit).run w).1
      (((migrateStream env handles bundle minProfile : Eff Exc (World ι ω) Unit).run w).2 =
        afterInitial w) := by
  unfold migrateStream
  apply Enforced.bind (readPrologue_enforced hI hs handles minProfile w)
  intro p
  refine Eff.Raises.bind (onRuntime_raises (newBuffer_raises _)) ?_
  intro oldRootKeyBuf
  refine Eff.Raises.bind
    (onRuntime_raises (deriveRootKey_raises notDowngrade_covers hs' bundle)) ?_
  intro newDerived
  refine Eff.Raises.bind
    (Eff.Raises.lift fun e he => notDowngrade_covers e (toBytes_raises he)) ?_
  intro newHeaderBytes
  split
  · exact Eff.Raises.raise rfl
  refine Eff.Raises.bind (onRuntime_raises (newBuffer_raises _)) ?_
  intro newRootKeyBuf
  refine Eff.Raises.bind (write_raises hO _) ?_
  intro _
  refine Eff.Raises.tryFinally (collapsing_raises ?_)
    (Eff.Raises.bind (onRuntime_raises (zeroize_raises _)) fun _ =>
      onRuntime_raises (zeroize_raises _))
  refine Eff.Raises.bind (onRuntime_raises (readBuffer_raises _)) ?_
  intro oldKey
  refine Eff.Raises.bind (Eff.Raises.lift fun _ => AESGCM_raises ha.init) ?_
  intro oldAesgcm
  refine Eff.Raises.bind (onRuntime_raises (readBuffer_raises _)) ?_
  intro newKey
  refine Eff.Raises.bind (Eff.Raises.lift fun _ => AESGCM_raises ha.init) ?_
  intro newAesgcm
  refine Eff.Raises.bind (newReader_raises _) ?_
  intro _
  refine Eff.Raises.bind (Loop.run_raises _ (migrateStep_raises hI hO ha ha' _ _ _ _ _ _) _) ?_
  intro receivedFinal
  split
  · exact Eff.Raises.raise rfl
  · exact Eff.Raises.pure _

end Streams

/-- Neither the sources nor AES-GCM raise the package's own `DowngradeError`. -/
structure Env.RaisesNoDowngrade (env : Env H) : Prop where
  decapsulate : env.DecapsulateRaises NotDowngrade
  encapsulate : env.EncapsulateRaises NotDowngrade
  aeadDecrypt : env.aead.DecryptRaises NotDowngrade
  aeadEncrypt : env.aead.EncryptRaises NotDowngrade

/-- Every reader enforces its minimum before it touches the process state or the output. -/
theorem downgrade_enforced (env : Env H) (henv : env.RaisesNoDowngrade) (ι ω : Type) [Input ι]
    [Output ω] (hI : InputRaises ι NotDowngrade) (hO : OutputRaises ω NotDowngrade)
    (handles : List H) (minProfile : Option PyStr) :
    (∀ header rt rt' r, (recoverRootKey env handles header minProfile).run rt = (r, rt') →
      Enforced env (some header) minProfile r (rt' = rt)) ∧
    (∀ blob rt rt' r, (decrypt env handles blob minProfile).run rt = (r, rt') →
      Enforced env (parsedHeader blob) minProfile r (rt' = rt)) ∧
    (∀ message rt rt' r, (ephemeralDecrypt env handles message minProfile).run rt = (r, rt') →
      Enforced env (parsedHeader message.encryptedBlob) minProfile r (rt' = rt)) ∧
    (∀ blob bundle rt rt' r, (migrate env handles blob bundle minProfile).run rt = (r, rt') →
      Enforced env (parsedHeader blob) minProfile r (rt' = rt)) ∧
    (∀ (w w' : World ι ω) r, (decryptStream env handles minProfile).run w = (r, w') →
      Enforced env (initialHeader w) minProfile r
        (w'.rt = w.rt ∧ w'.sink = w.sink ∧ w'.out = w.out)) ∧
    ∀ bundle (w w' : World ι ω) r, (migrateStream env handles bundle minProfile).run w = (r, w') →
      Enforced env (initialHeader w) minProfile r
        (w'.rt = w.rt ∧ w'.sink = w.sink ∧ w'.out = w.out) := by
  have huntouched : ∀ w w' : World ι ω, w' = afterInitial w →
      w'.rt = w.rt ∧ w'.sink = w.sink ∧ w'.out = w.out := by
    rintro w w' rfl
    exact ⟨rfl, rfl, rfl⟩
  refine ⟨?_, ?_, ?_, ?_, ?_, ?_⟩
  · intro header rt rt' r h
    have henforced := recoverRootKey_enforced henv.decapsulate handles header minProfile rt
    rwa [h] at henforced
  · intro blob rt rt' r h
    have henforced := decrypt_enforced henv.decapsulate henv.aeadDecrypt handles blob minProfile rt
    rwa [h] at henforced
  · intro message rt rt' r h
    have henforced := decrypt_enforced henv.decapsulate henv.aeadDecrypt handles
      message.encryptedBlob minProfile rt
    unfold ephemeralDecrypt at h
    rwa [h] at henforced
  · intro blob bundle rt rt' r h
    have henforced := migrate_enforced henv.decapsulate henv.encapsulate henv.aeadDecrypt
      henv.aeadEncrypt handles blob bundle minProfile rt
    rwa [h] at henforced
  · intro w w' r h
    have henforced := decryptStream_enforced hI hO henv.decapsulate henv.aeadDecrypt handles
      minProfile w
    rw [h] at henforced
    exact henforced.mono (huntouched w w')
  · intro bundle w w' r h
    have henforced := migrateStream_enforced hI hO henv.decapsulate henv.encapsulate
      henv.aeadDecrypt henv.aeadEncrypt handles bundle minProfile w
    rw [h] at henforced
    exact henforced.mono (huntouched w w')

theorem xorEnv_raisesNoDowngrade : (xorEnv zeroTagAead).RaisesNoDowngrade where
  decapsulate id profile h s hs handle ct e he :=
    notDowngrade_covers e (xorEnv_decapsulateRaises zeroTagAead id profile h s hs handle ct e he)
  encapsulate := xorEnv_encapsulateRaises notDowngrade_covers zeroTagAead
  aeadDecrypt :=
    ⟨fun key e he => notDowngrade_covers e (zeroTagAead_correct.init_raises key e he),
      fun key nonce ct aad e he =>
        notDowngrade_covers e (zeroTagAead_correct.decrypt_raises key nonce ct aad e he)⟩
  aeadEncrypt :=
    ⟨fun key e he => notDowngrade_covers e (zeroTagAead_correct.init_raises key e he),
      fun key nonce data aad e he => by cases he⟩

theorem downgrade_enforced_zero : ∃ m, ((recoverRootKey (xorEnv zeroTagAead) zeroHandles zeroHeader
    (some "hybrid_high")).run zeroRuntime).1 = .error (.downgradeError m) := by
  have hI : InputRaises MemoryStream NotDowngrade := by
    intro n i i' e h
    cases h
  have hO : OutputRaises BytesSink NotDowngrade := by
    intro b s s' k e h
    cases h
  have henforced := (downgrade_enforced (xorEnv zeroTagAead) xorEnv_raisesNoDowngrade MemoryStream
    BytesSink hI hO zeroHandles (some "hybrid_high")).1 zeroHeader zeroRuntime _ _ rfl
  exact henforced.raises_iff.mpr ⟨zeroHeader, rfl, "hybrid_high", _, _, rfl, rfl, rfl, by decide⟩

end CryptoFlex
