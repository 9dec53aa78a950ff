import CryptoFlex.Lib.Mirror
import CryptoFlex.Streaming.FileObjects

namespace CryptoFlex

open Lib World

variable {H ι ι' ω ω' : Type} [Input ι] [Input ι']

/-- Where a read of the first stream returns, the same read of the second returns the same. -/
def ReadsLike (i : ι) (i' : ι') : Prop :=
  ∃ S : ι → ι' → Prop, (∀ i i', S i i' → ∀ n chunk j, Input.read n i = (.ok chunk, j) →
    ∃ j', Input.read n i' = (.ok chunk, j') ∧ S j j') ∧ S i i'

theorem ReadsLike.read {i j : ι} {i' : ι'} (h : ReadsLike i i') {n : Nat} {chunk : Bytes}
    (hread : Input.read n i = (.ok chunk, j)) :
    ∃ j', Input.read n i' = (.ok chunk, j') ∧ ReadsLike j j' := by
  obtain ⟨S, hS, hi⟩ := h
  obtain ⟨j', hread', hj⟩ := hS i i' hi n chunk j hread
  exact ⟨j', hread', S, hS, hj⟩

/-- A file that is read reads like its content in memory. -/
theorem fileInput_readsLike (rest : Bytes) (reads : Nat → Option Exc) :
    ReadsLike (FileInput.mk rest reads) (MemoryStream.mk rest) := by
  refine ⟨fun i i' => i'.rest = i.rest, ?_, rfl⟩
  intro i i' hrest n chunk j hread
  refine ⟨⟨i'.rest.drop n⟩, ?_, ?_⟩
  · cases hr : i.reads 0 with
    | some e => simp [Input.read, hr] at hread
    | none =>
      simp only [Input.read, hr, Prod.mk.injEq, Except.ok.injEq] at hread
      simp [Input.read, hrest, hread.1]
  · cases hr : i.reads 0 with
    | some e => simp [Input.read, hr] at hread
    | none =>
      simp only [Input.read, hr, Prod.mk.injEq] at hread
      simp [← hread.2, hrest]

/-- Two readers with the same bytes buffered. -/
def ReadersAlike (r : StreamReader ι) (r' : StreamReader ι') : Prop :=
  r'.buf = r.buf ∧ ReadsLike r.stream r'.stream

namespace ReadersAlike

theorem readStream (n : Nat) : Eff.Mirrors (ReadersAlike : StreamReader ι → StreamReader ι' → Prop)
    (StreamReader.readStream n) (StreamReader.readStream n) := by
  intro r r' h chunk s hrun
  obtain ⟨hbuf, hlike⟩ := h
  obtain ⟨hok, hs⟩ := Prod.mk.inj hrun
  obtain ⟨j', hread, hj⟩ := hlike.read (Prod.ext hok rfl)
  refine ⟨{ r' with stream := j' }, ?_, ?_⟩
  · simp only [StreamReader.readStream, hread]
  · rw [← hs]
    exact ⟨hbuf, hj⟩

theorem modify (f : Bytes → Bytes) :
    Eff.Mirrors (ReadersAlike : StreamReader ι → StreamReader ι' → Prop)
      (Eff.modify fun r => { r with buf := f r.buf } : Eff Exc (StreamReader ι) Unit)
      (Eff.modify fun r => { r with buf := f r.buf } : Eff Exc (StreamReader ι') Unit) := by
  apply Eff.Mirrors.modify
  intro r r' h
  exact ⟨congrArg f h.1, h.2⟩

theorem fillStep (n : Nat) : Eff.Mirrors (ReadersAlike : StreamReader ι → StreamReader ι' → Prop)
    (StreamReader.fillStep n) (StreamReader.fillStep n) := by
  apply Eff.Mirrors.get_bind
  intro r r' hr
  rw [hr.1]
  apply Eff.Mirrors.ite
  · intro _
    exact Eff.Mirrors.pure _
  intro _
  apply Eff.Mirrors.bind (readStream _)
  intro more
  apply Eff.Mirrors.ite
  · intro _
    exact Eff.Mirrors.pure _
  intro _
  apply Eff.Mirrors.bind (modify fun b => b ++ more)
  intro _
  exact Eff.Mirrors.pure _

theorem readExact (n : Nat) : Eff.Mirrors (ReadersAlike : StreamReader ι → StreamReader ι' → Prop)
    (StreamReader.readExact n) (StreamReader.readExact n) := by
  apply Eff.Mirrors.bind
  · exact Loop.run_mirrors _ _ (fun _ => fillStep n) ()
  intro _
  apply Eff.Mirrors.get_bind
  intro r r' hr
  rw [hr.1]
  apply Eff.Mirrors.ite
  · intro _
    exact Eff.Mirrors.raise _ _
  intro _
  apply Eff.Mirrors.bind (modify fun b => b.drop n)
  intro _
  exact Eff.Mirrors.pure _

theorem hasRemaining : Eff.Mirrors (ReadersAlike : StreamReader ι → StreamReader ι' → Prop)
    StreamReader.hasRemaining StreamReader.hasRemaining := by
  apply Eff.Mirrors.get_bind
  intro r r' hr
  rw [hr.1]
  apply Eff.Mirrors.ite
  · intro _
    exact Eff.Mirrors.pure _
  intro _
  apply Eff.Mirrors.bind (readStream 1)
  intro more
  apply Eff.Mirrors.ite
  · intro _
    apply Eff.Mirrors.bind (modify fun b => b ++ more)
    intro _
    exact Eff.Mirrors.pure _
  · intro _
    exact Eff.Mirrors.pure _

end ReadersAlike

section Streams

variable [Output ω] [Output ω']

/-- Where a write to the first output returns, the same write to the second does. -/
def WritesLike (o : ω) (o' : ω') : Prop :=
  ∃ S : ω → ω' → Prop, (∀ o o', S o o' → ∀ b p, Output.write b o = (none, p) →
    ∃ p', Output.write b o' = (none, p') ∧ S p p') ∧ S o o'

theorem WritesLike.write {o p : ω} {o' : ω'} (h : WritesLike o o') {b : Bytes}
    (hwrite : Output.write b o = (none, p)) :
    ∃ p', Output.write b o' = (none, p') ∧ WritesLike p p' := by
  obtain ⟨S, hS, ho⟩ := h
  obtain ⟨p', hwrite', hp⟩ := hS o o' ho b p hwrite
  exact ⟨p', hwrite', S, hS, hp⟩

theorem Reliable.writesLike (hO : Reliable ω') (o : ω) (o' : ω') : WritesLike o o' := by
  refine ⟨fun _ _ => True, ?_, trivial⟩
  intro o o' _ b p _
  exact ⟨_, Prod.ext (hO b o') rfl, trivial⟩

/-- The same process state, the same bytes buffered and the same bytes written, and streams that
agree. -/
structure Alike (w : World ι ω) (w' : World ι' ω') : Prop where
  rt : w'.rt = w.rt
  reader : ReadersAlike w.reader w'.reader
  sink : WritesLike w.sink w'.sink
  out : w'.out = w.out

namespace Alike

/-- `Mirrors` with the relation fixed, for the proofs that walk along a program. -/
abbrev Mirrored {α : Type} (x : Eff Exc (World ι ω) α) (y : Eff Exc (World ι' ω') α) : Prop :=
  Eff.Mirrors Alike x y

theorem start {i : ι} {i' : ι'} (hi : ReadsLike i i') {sink : ω} {sink' : ω'}
    (ho : WritesLike sink sink') (rt : Runtime) :
    Alike (World.start rt i sink) (World.start rt i' sink') := ⟨rfl, ⟨rfl, hi⟩, ho, rfl⟩

theorem onRuntime {α : Type} (x : Eff Exc Runtime α) :
    Mirrored (onRuntime x : Eff Exc (World ι ω) α) (onRuntime x : Eff Exc (World ι' ω') α) := by
  intro w w' h a s hrun
  obtain ⟨hok, hs⟩ := Prod.mk.inj hrun
  refine ⟨{ w' with rt := (x.run w.rt).2 }, ?_, ?_⟩
  · rw [World.onRuntime, Eff.run_zoom, h.rt, hok]
  · rw [← hs]
    exact ⟨rfl, h.reader, h.sink, h.out⟩

theorem onReader {α : Type} {x : Eff Exc (StreamReader ι) α} {y : Eff Exc (StreamReader ι') α}
    (h : Eff.Mirrors ReadersAlike x y) :
    Mirrored (World.onReader x : Eff Exc (World ι ω) α)
      (World.onReader y : Eff Exc (World ι' ω') α) := by
  apply Eff.Mirrors.zoom h
  · intro w w' hw
    exact hw.reader
  · intro w w' r r' hw hr
    exact ⟨hw.rt, hr, hw.sink, hw.out⟩

theorem newReader (initial : Bytes) :
    Mirrored (newReader initial : Eff Exc (World ι ω) Unit)
      (newReader initial : Eff Exc (World ι' ω') Unit) := by
  apply Eff.Mirrors.modify
  intro w w' h
  exact ⟨h.rt, ⟨rfl, h.reader.2⟩, h.sink, h.out⟩

theorem readInput (n : Nat) :
    Mirrored (readInput n : Eff Exc (World ι ω) Bytes) (readInput n : Eff Exc (World ι' ω') Bytes) :=
  onReader (ReadersAlike.readStream n)

theorem readFrameType (receivedFinal : Bool) :
    Mirrored (readFrameType receivedFinal : Eff Exc (World ι ω) Nat)
      (readFrameType receivedFinal : Eff Exc (World ι' ω') Nat) := by
  apply Eff.Mirrors.bind
  · apply Eff.Mirrors.tryCatch (onReader (ReadersAlike.readExact 1))
    intro e
    split
    · exact Eff.Stuck.raise _
    · exact Eff.Stuck.raise _
  · intro b
    exact Eff.Mirrors.lift _

theorem readDataFrame (seq total : Nat) :
    Mirrored (readDataFrame seq total : Eff Exc (World ι ω) (Nat × Bytes))
      (readDataFrame seq total : Eff Exc (World ι' ω') (Nat × Bytes)) := by
  apply Eff.Mirrors.ite
  · intro _
    exact Eff.Mirrors.raise _ _
  intro _
  apply Eff.Mirrors.bind (onReader (ReadersAlike.readExact 4))
  intro lengthBytes
  apply Eff.Mirrors.bind (Eff.Mirrors.lift _)
  intro ctLen
  apply Eff.Mirrors.ite
  · intro _
    exact Eff.Mirrors.raise _ _
  intro _
  apply Eff.Mirrors.ite
  · intro _
    exact Eff.Mirrors.raise _ _
  intro _
  apply Eff.Mirrors.bind (onReader (ReadersAlike.readExact ctLen))
  intro ct
  exact Eff.Mirrors.pure _

theorem readFinalFrame :
    Mirrored (readFinalFrame : Eff Exc (World ι ω) Bytes)
      (readFinalFrame : Eff Exc (World ι' ω') Bytes) := by
  apply Eff.Mirrors.bind (onReader (ReadersAlike.readExact 4))
  intro lengthBytes
  apply Eff.Mirrors.bind (Eff.Mirrors.lift _)
  intro ctLen
  apply Eff.Mirrors.ite
  · intro _
    exact Eff.Mirrors.raise _ _
  · intro _
    exact onReader (ReadersAlike.readExact ctLen)

/-- A write that does not raise has written everything. -/
theorem write (b : Bytes) :
    Mirrored (write b : Eff Exc (World ι ω) Unit) (write b : Eff Exc (World ι' ω') Unit) := by
  intro w w' h a s hrun
  rcases hout : Output.write b w.sink with ⟨_ | ⟨k, e⟩, sink₁⟩
  · rw [write_ok hout] at hrun
    cases hrun
    obtain ⟨sink₁', hout', hlike⟩ := h.sink.write hout
    refine ⟨_, write_ok hout', ?_⟩
    exact ⟨h.rt, h.reader, hlike, by rw [h.out]⟩
  · rw [write_error hout] at hrun
    cases hrun

theorem writeFrame (frameType : Nat) (ct : Bytes) :
    Mirrored (writeFrame frameType ct : Eff Exc (World ι ω) Unit)
      (writeFrame frameType ct : Eff Exc (World ι' ω') Unit) := by
  apply Eff.Mirrors.bind (Eff.Mirrors.lift _)
  intro typeByte
  apply Eff.Mirrors.bind (write _)
  intro _
  apply Eff.Mirrors.bind (Eff.Mirrors.lift _)
  intro length
  apply Eff.Mirrors.bind (write _)
  intro _
  exact write _

theorem encryptStep (env : Env H) (aesgcm headerBytes baseNonce : Bytes)
    (chunkSize : Nat) (v : EncryptVars) :
    Mirrored (encryptStep env aesgcm headerBytes baseNonce chunkSize v :
        Eff Exc (World ι ω) (EncryptVars ⊕ EncryptVars))
      (encryptStep env aesgcm headerBytes baseNonce chunkSize v :
        Eff Exc (World ι' ω') (EncryptVars ⊕ EncryptVars)) := by
  apply Eff.Mirrors.bind (readInput _)
  intro chunk
  apply Eff.Mirrors.ite
  · intro _
    exact Eff.Mirrors.pure _
  intro _
  apply Eff.Mirrors.ite
  · intro _
    exact Eff.Mirrors.raise _ _
  intro _
  apply Eff.Mirrors.ite
  · intro _
    exact Eff.Mirrors.raise _ _
  intro _
  apply Eff.Mirrors.bind (Eff.Mirrors.lift _)
  intro nonce
  apply Eff.Mirrors.bind (Eff.Mirrors.lift _)
  intro aad
  apply Eff.Mirrors.bind (onRuntime _)
  intro ct
  apply Eff.Mirrors.bind (writeFrame _ _)
  intro _
  exact Eff.Mirrors.pure _

theorem encryptStream (env : Env H) (bundle : PublicBundle) (chunkSize : Int) :
    Mirrored (encryptStream env bundle chunkSize : Eff Exc (World ι ω) Unit)
      (encryptStream env bundle chunkSize : Eff Exc (World ι' ω') Unit) := by
  apply Eff.Mirrors.bind (onRuntime _)
  intro derived
  apply Eff.Mirrors.bind (Eff.Mirrors.lift _)
  intro headerBytes
  cases derived.header.nonce with
  | none => exact Eff.Mirrors.raise _ _
  | some baseNonce =>
    apply Eff.Mirrors.ite
    · intro _
      exact Eff.Mirrors.raise _ _
    intro _
    apply Eff.Mirrors.bind (write _)
    intro _
    apply Eff.Mirrors.bind (onRuntime _)
    intro buf
    apply Eff.Mirrors.tryFinally
    · apply Eff.Mirrors.bind (onRuntime _)
      intro key
      apply Eff.Mirrors.bind (Eff.Mirrors.lift _)
      intro aesgcm
      apply Eff.Mirrors.bind
      · exact Loop.run_mirrors _ _ (encryptStep env aesgcm headerBytes baseNonce _) _
      intro v
      apply Eff.Mirrors.bind (Eff.Mirrors.lift _)
      intro finalNonce
      apply Eff.Mirrors.bind (Eff.Mirrors.lift _)
      intro finalAad
      apply Eff.Mirrors.bind (onRuntime _)
      intro finalCt
      exact writeFrame _ _
    · exact onRuntime _

theorem decryptStep (env : Env H) (aesgcm headerBytes baseNonce : Bytes)
    (v : DecryptVars) :
    Mirrored (decryptStep env aesgcm headerBytes baseNonce v :
        Eff Exc (World ι ω) (DecryptVars ⊕ Bool))
      (decryptStep env aesgcm headerBytes baseNonce v :
        Eff Exc (World ι' ω') (DecryptVars ⊕ Bool)) := by
  apply Eff.Mirrors.bind (readFrameType _)
  intro frameType
  apply Eff.Mirrors.ite
  · intro _
    exact Eff.Mirrors.raise _ _
  intro _
  apply Eff.Mirrors.ite
  · intro _
    apply Eff.Mirrors.bind (readDataFrame _ _)
    intro frame
    apply Eff.Mirrors.bind (Eff.Mirrors.lift _)
    intro nonce
    apply Eff.Mirrors.bind (Eff.Mirrors.lift _)
    intro aad
    apply Eff.Mirrors.bind (onRuntime _)
    intro plaintext
    apply Eff.Mirrors.bind (write _)
    intro _
    exact Eff.Mirrors.pure _
  intro _
  apply Eff.Mirrors.ite
  · intro _
    apply Eff.Mirrors.bind readFinalFrame
    intro finalCt
    apply Eff.Mirrors.bind (Eff.Mirrors.lift _)
    intro finalNonce
    apply Eff.Mirrors.bind (Eff.Mirrors.lift _)
    intro finalAad
    apply Eff.Mirrors.bind (onRuntime _)
    intro _
    apply Eff.Mirrors.bind (onReader ReadersAlike.hasRemaining)
    intro trailing
    apply Eff.Mirrors.ite
    · intro _
      exact Eff.Mirrors.raise _ _
    · intro _
      exact Eff.Mirrors.pure _
  · intro _
    exact Eff.Mirrors.raise _ _

theorem readPrologue (env : Env H) (handles : List H) (minProfile : Option PyStr) :
    Mirrored (readPrologue env handles minProfile : Eff Exc (World ι ω) Prologue)
      (readPrologue env handles minProfile : Eff Exc (World ι' ω') Prologue) := by
  apply Eff.Mirrors.bind (readInput _)
  intro initial
  exact onRuntime _

theorem decryptStream (env : Env H) (handles : List H)
    (minProfile : Option PyStr) :
    Mirrored (decryptStream env handles minProfile : Eff Exc (World ι ω) Unit)
      (decryptStream env handles minProfile : Eff Exc (World ι' ω') Unit) := by
  apply Eff.Mirrors.bind (readPrologue env handles minProfile)
  intro p
  apply Eff.Mirrors.bind (onRuntime _)
  intro buf
  apply Eff.Mirrors.tryFinally
  · apply Eff.Mirrors.tryCatch
    · apply Eff.Mirrors.bind (onRuntime _)
      intro key
      apply Eff.Mirrors.bind (Eff.Mirrors.lift _)
      intro aesgcm
      apply Eff.Mirrors.bind (newReader _)
      intro _
      apply Eff.Mirrors.bind
      · exact Loop.run_mirrors _ _ (decryptStep env aesgcm p.headerBytes p.baseNonce) _
      intro receivedFinal
      apply Eff.Mirrors.ite
      · intro _
        exact Eff.Mirrors.raise _ _
      · intro _
        exact Eff.Mirrors.pure _
    · intro e
      exact Eff.Stuck.raise _
  · exact onRuntime _

theorem migrateStep (env : Env H) (old new : StreamKey) (v : MigrateVars) :
    Mirrored (migrateStep env old.aesgcm old.headerBytes old.baseNonce new.aesgcm new.headerBytes
        new.baseNonce v : Eff Exc (World ι ω) (MigrateVars ⊕ Bool))
      (migrateStep env old.aesgcm old.headerBytes old.baseNonce new.aesgcm new.headerBytes
        new.baseNonce v : Eff Exc (World ι' ω') (MigrateVars ⊕ Bool)) := by
  apply Eff.Mirrors.bind (readFrameType _)
  intro frameType
  apply Eff.Mirrors.ite
  · intro _
    exact Eff.Mirrors.raise _ _
  intro _
  apply Eff.Mirrors.ite
  · intro _
    apply Eff.Mirrors.ite
    · intro _
      exact Eff.Mirrors.raise _ _
    intro _
    apply Eff.Mirrors.bind (readDataFrame _ _)
    intro frame
    apply Eff.Mirrors.bind (Eff.Mirrors.lift _)
    intro oldNonce
    apply Eff.Mirrors.bind (Eff.Mirrors.lift _)
    intro oldAad
    apply Eff.Mirrors.bind (onRuntime _)
    intro chunkPt
    apply Eff.Mirrors.bind (onRuntime _)
    intro buf
    apply Eff.Mirrors.bind
    · apply Eff.Mirrors.tryFinally
      · apply Eff.Mirrors.bind (Eff.Mirrors.lift _)
        intro newNonce
        apply Eff.Mirrors.bind (Eff.Mirrors.lift _)
        intro newAad
        apply Eff.Mirrors.bind (onRuntime _)
        intro pt
        apply Eff.Mirrors.bind (onRuntime _)
        intro ct
        exact writeFrame _ _
      · exact onRuntime _
    · intro _
      exact Eff.Mirrors.pure _
  intro _
  apply Eff.Mirrors.ite
  · intro _
    apply Eff.Mirrors.ite
    · intro _
      exact Eff.Mirrors.raise _ _
    intro _
    apply Eff.Mirrors.bind readFinalFrame
    intro finalCt
    apply Eff.Mirrors.bind (Eff.Mirrors.lift _)
    intro finalNonce
    apply Eff.Mirrors.bind (Eff.Mirrors.lift _)
    intro finalAad
    apply Eff.Mirrors.bind (onRuntime _)
    intro _
    apply Eff.Mirrors.bind (Eff.Mirrors.lift _)
    intro newFinalNonce
    apply Eff.Mirrors.bind (Eff.Mirrors.lift _)
    intro newFinalAad
    apply Eff.Mirrors.bind (onRuntime _)
    intro newFinalCt
    apply Eff.Mirrors.bind (writeFrame _ _)
    intro _
    apply Eff.Mirrors.bind (onReader ReadersAlike.hasRemaining)
    intro trailing
    apply Eff.Mirrors.ite
    · intro _
      exact Eff.Mirrors.raise _ _
    · intro _
      exact Eff.Mirrors.pure _
  · intro _
    exact Eff.Mirrors.raise _ _

theorem migrateStream (env : Env H) (handles : List H)
    (newBundle : PublicBundle) (minProfile : Option PyStr) :
    Mirrored (migrateStream env handles newBundle minProfile : Eff Exc (World ι ω) Unit)
      (migrateStream env handles newBundle minProfile : Eff Exc (World ι' ω') Unit) := by
  apply Eff.Mirrors.bind (readPrologue env handles minProfile)
  intro p
  apply Eff.Mirrors.bind (onRuntime _)
  intro oldBuf
  apply Eff.Mirrors.bind (onRuntime _)
  intro newDerived
  apply Eff.Mirrors.bind (Eff.Mirrors.lift _)
  intro newHeaderBytes
  cases newDerived.header.nonce with
  | none => exact Eff.Mirrors.raise _ _
  | some newBaseNonce =>
    apply Eff.Mirrors.bind (onRuntime _)
    intro newBuf
    apply Eff.Mirrors.bind (write _)
    intro _
    apply Eff.Mirrors.tryFinally
    · apply Eff.Mirrors.tryCatch
      · apply Eff.Mirrors.bind (onRuntime _)
        intro oldKey
        apply Eff.Mirrors.bind (Eff.Mirrors.lift _)
        intro oldAesgcm
        apply Eff.Mirrors.bind (onRuntime _)
        intro newKey
        apply Eff.Mirrors.bind (Eff.Mirrors.lift _)
        intro newAesgcm
        apply Eff.Mirrors.bind (newReader _)
        intro _
        apply Eff.Mirrors.bind
        · exact Loop.run_mirrors _ _ (migrateStep env ⟨oldAesgcm, p.headerBytes, p.baseNonce⟩
            ⟨newAesgcm, newHeaderBytes, newBaseNonce⟩) _
        intro receivedFinal
        apply Eff.Mirrors.ite
        · intro _
          exact Eff.Mirrors.raise _ _
        · intro _
          exact Eff.Mirrors.pure _
      · intro e
        exact Eff.Stuck.raise _
    · apply Eff.Mirrors.bind (onRuntime _)
      intro _
      exact onRuntime _

end Alike

end Streams

/-- Where the call `x` on a file returns, the same call `y` in memory does: with the same bytes
written, and with the same state of the process. -/
def SameInMemory (x : Eff Exc (World FileInput ω) Unit)
    (y : Eff Exc (World MemoryStream BytesSink) Unit) : Prop :=
  ∀ rt content reads sink w,
    x.run (World.start rt (FileInput.mk content reads) sink) = (.ok (), w) →
      ∃ w', y.run (World.start rt (MemoryStream.mk content) BytesSink.mk) = (.ok (), w') ∧
        w'.out = w.out ∧ w'.rt = w.rt

theorem SameInMemory.of_mirrored [Output ω] {x : Eff Exc (World FileInput ω) Unit}
    {y : Eff Exc (World MemoryStream BytesSink) Unit} (h : Alike.Mirrored x y) :
    SameInMemory x y := by
  intro rt content reads sink w hrun
  have hsink : WritesLike sink BytesSink.mk := bytesSink_reliable.writesLike _ _
  have hstart := Alike.start (fileInput_readsLike content reads) hsink rt
  obtain ⟨w', hrun', hlike⟩ := h _ _ hstart () w hrun
  exact ⟨w', hrun', hlike.out, hlike.rt⟩

/-- Whatever reads and writes raise, they make a stream function fail or make no difference. -/
theorem streams_sameInMemory (ω : Type) [Output ω] (env : Env H) :
    (∀ bundle chunkSize, SameInMemory (encryptStream env bundle chunkSize :
        Eff Exc (World FileInput ω) Unit) (encryptStream env bundle chunkSize)) ∧
    (∀ handles minProfile, SameInMemory (decryptStream env handles minProfile :
        Eff Exc (World FileInput ω) Unit) (decryptStream env handles minProfile)) ∧
    ∀ handles newBundle minProfile, SameInMemory (migrateStream env handles newBundle minProfile :
        Eff Exc (World FileInput ω) Unit) (migrateStream env handles newBundle minProfile) := by
  refine ⟨?_, ?_, ?_⟩
  · intro bundle chunkSize
    exact SameInMemory.of_mirrored (Alike.encryptStream env bundle chunkSize)
  · intro handles minProfile
    exact SameInMemory.of_mirrored (Alike.decryptStream env handles minProfile)
  · intro handles newBundle minProfile
    exact SameInMemory.of_mirrored
      (Alike.migrateStream env handles newBundle minProfile)

end CryptoFlex
