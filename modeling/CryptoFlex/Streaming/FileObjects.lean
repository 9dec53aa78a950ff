import CryptoFlex.Cli.AtomicWrite
import CryptoFlex.Streaming.MigrateRun

namespace CryptoFlex

open Lib World

variable {H ι ω : Type}

/-- A frame condition on the output stream and what was written to it, kept by every write. -/
structure OutputFrame [Output ω] (K : World ι ω → World ι ω → Prop) : Prop where
  same : ∀ w w', w'.sink = w.sink → w'.out = w.out → K w w'
  trans : ∀ w w' w'', K w w' → K w' w'' → K w w''
  write : ∀ b, Eff.Keeps K (write b)

namespace OutputFrame

variable [Output ω] {K : World ι ω → World ι ω → Prop}

theorem refl (hK : OutputFrame K) (w : World ι ω) : K w w := hK.same w w rfl rfl

theorem raise (hK : OutputFrame K) {α : Type} (e : Exc) :
    Eff.Keeps K (Eff.raise e : Eff Exc (World ι ω) α) := Eff.Keeps.raise hK.refl e

theorem lift_bind (hK : OutputFrame K) {α β : Type} (x : Except Exc α)
    {f : α → Eff Exc (World ι ω) β} (hf : ∀ a, Eff.Keeps K (f a)) :
    Eff.Keeps K (Eff.lift x >>= f) :=
  Eff.Keeps.bind hK.trans (Eff.Keeps.lift hK.refl x) hf

theorem onRuntime (hK : OutputFrame K) {α : Type} (x : Eff Exc Runtime α) :
    Eff.Keeps K (onRuntime x) := fun w => hK.same w _ rfl rfl

theorem onReader (hK : OutputFrame K) {α : Type} (x : Eff Exc (StreamReader ι) α) :
    Eff.Keeps K (onReader x) := fun w => hK.same w _ rfl rfl

theorem newReader (hK : OutputFrame K) (initial : Bytes) : Eff.Keeps K (newReader initial) :=
  fun w => hK.same w _ rfl rfl

theorem runtime_bind (hK : OutputFrame K) {α β : Type} (x : Eff Exc Runtime α)
    {f : α → Eff Exc (World ι ω) β} (hf : ∀ a, Eff.Keeps K (f a)) :
    Eff.Keeps K (World.onRuntime x >>= f) :=
  Eff.Keeps.bind hK.trans (hK.onRuntime x) hf

theorem writeFrame (hK : OutputFrame K) (frameType : Nat) (ct : Bytes) :
    Eff.Keeps K (writeFrame frameType ct) := by
  apply hK.lift_bind
  intro typeByte
  apply Eff.Keeps.bind hK.trans (hK.write _)
  intro _
  apply hK.lift_bind
  intro length
  apply Eff.Keeps.bind hK.trans (hK.write _)
  intro _
  exact hK.write _

variable [Input ι]

theorem readFrameType (hK : OutputFrame K) (receivedFinal : Bool) :
    Eff.Keeps K (readFrameType receivedFinal) := by
  apply Eff.Keeps.bind hK.trans
  · apply Eff.Keeps.tryCatch hK.trans (hK.onReader _)
    intro e
    split
    · exact hK.raise _
    · exact hK.raise _
  · intro b
    exact Eff.Keeps.lift hK.refl _

theorem readDataFrame (hK : OutputFrame K) (seq total : Nat) :
    Eff.Keeps K (readDataFrame seq total) := by
  unfold CryptoFlex.readDataFrame
  split
  · exact hK.raise _
  · apply Eff.Keeps.bind hK.trans (hK.onReader _)
    intro lengthBytes
    apply hK.lift_bind
    intro ctLen
    split
    · exact hK.raise _
    · dsimp only
      split
      · exact hK.raise _
      · apply Eff.Keeps.bind hK.trans (hK.onReader _)
        intro ct
        exact Eff.Keeps.pure hK.refl _

theorem readFinalFrame (hK : OutputFrame K) : Eff.Keeps K readFinalFrame := by
  apply Eff.Keeps.bind hK.trans (hK.onReader _)
  intro lengthBytes
  apply hK.lift_bind
  intro ctLen
  split
  · exact hK.raise _
  · exact hK.onReader _

theorem migrateStep (hK : OutputFrame K) (env : Env H) (old new : StreamKey) (v : MigrateVars) :
    Eff.Keeps K (migrateStep env old.aesgcm old.headerBytes old.baseNonce new.aesgcm
      new.headerBytes new.baseNonce v) := by
  apply Eff.Keeps.bind hK.trans (hK.readFrameType _)
  intro frameType
  split
  · exact hK.raise _
  split
  · split
    · exact hK.raise _
    apply Eff.Keeps.bind hK.trans (hK.readDataFrame _ _)
    rintro ⟨ptLen, ctWithTag⟩
    apply hK.lift_bind
    intro oldNonce
    apply hK.lift_bind
    intro oldAad
    apply hK.runtime_bind
    intro chunkPt
    apply hK.runtime_bind
    intro buf
    apply Eff.Keeps.bind hK.trans
    · apply Eff.Keeps.tryFinally hK.trans _ (hK.onRuntime _)
      apply hK.lift_bind
      intro newNonce
      apply hK.lift_bind
      intro newAad
      apply hK.runtime_bind
      intro pt
      apply hK.runtime_bind
      intro ct
      exact hK.writeFrame _ _
    · intro _
      exact Eff.Keeps.pure hK.refl _
  split
  · split
    · exact hK.raise _
    apply Eff.Keeps.bind hK.trans hK.readFinalFrame
    intro finalCt
    apply hK.lift_bind
    intro finalNonce
    apply hK.lift_bind
    intro finalAad
    apply hK.runtime_bind
    intro _
    apply hK.lift_bind
    intro newFinalNonce
    apply hK.lift_bind
    intro newFinalAad
    apply hK.runtime_bind
    intro newFinalCt
    apply Eff.Keeps.bind hK.trans (hK.writeFrame _ _)
    intro _
    apply Eff.Keeps.bind hK.trans (hK.onReader _)
    intro trailing
    split
    · exact hK.raise _
    · exact Eff.Keeps.pure hK.refl _
  · exact hK.raise _

theorem encryptStep (hK : OutputFrame K) (env : Env H) (k : StreamKey) (chunkSize : Nat)
    (v : EncryptVars) :
    Eff.Keeps K (encryptStep env k.aesgcm k.headerBytes k.baseNonce chunkSize v) := by
  apply Eff.Keeps.bind hK.trans (hK.onReader _)
  intro chunk
  split
  · exact Eff.Keeps.pure hK.refl _
  split
  · exact hK.raise _
  split
  · exact hK.raise _
  apply hK.lift_bind
  intro nonce
  apply hK.lift_bind
  intro aad
  apply hK.runtime_bind
  intro ct
  apply Eff.Keeps.bind hK.trans (hK.writeFrame _ _)
  intro _
  exact Eff.Keeps.pure hK.refl _

/-- What every write keeps is kept by `encrypt_stream`. -/
theorem encryptStream (hK : OutputFrame K) (env : Env H) (bundle : PublicBundle)
    (chunkSize : Int) : Eff.Keeps K (encryptStream env bundle chunkSize) := by
  apply hK.runtime_bind
  intro derived
  apply hK.lift_bind
  intro headerBytes
  split
  · exact hK.raise _
  next baseNonce _ =>
  split
  · exact hK.raise _
  apply Eff.Keeps.bind hK.trans (hK.write _)
  intro _
  apply hK.runtime_bind
  intro buf
  apply Eff.Keeps.tryFinally hK.trans _ (hK.onRuntime _)
  apply hK.runtime_bind
  intro key
  apply hK.lift_bind
  intro aesgcm
  apply Eff.Keeps.bind hK.trans
  · exact Loop.run_keeps _ hK.trans (hK.encryptStep env ⟨aesgcm, headerBytes, baseNonce⟩ _) _
  intro v
  apply hK.lift_bind
  intro finalNonce
  apply hK.lift_bind
  intro finalAad
  apply hK.runtime_bind
  intro finalCt
  exact hK.writeFrame _ _

theorem decryptStep (hK : OutputFrame K) (env : Env H) (k : StreamKey) (v : DecryptVars) :
    Eff.Keeps K (decryptStep env k.aesgcm k.headerBytes k.baseNonce v) := by
  apply Eff.Keeps.bind hK.trans (hK.readFrameType _)
  intro frameType
  split
  · exact hK.raise _
  split
  · apply Eff.Keeps.bind hK.trans (hK.readDataFrame _ _)
    rintro ⟨ptLen, ctWithTag⟩
    apply hK.lift_bind
    intro nonce
    apply hK.lift_bind
    intro aad
    apply hK.runtime_bind
    intro plaintext
    apply Eff.Keeps.bind hK.trans (hK.write _)
    intro _
    exact Eff.Keeps.pure hK.refl _
  split
  · apply Eff.Keeps.bind hK.trans hK.readFinalFrame
    intro finalCt
    apply hK.lift_bind
    intro finalNonce
    apply hK.lift_bind
    intro finalAad
    apply hK.runtime_bind
    intro _
    apply Eff.Keeps.bind hK.trans (hK.onReader _)
    intro trailing
    split
    · exact hK.raise _
    · exact Eff.Keeps.pure hK.refl _
  · exact hK.raise _

theorem readPrologue (hK : OutputFrame K) (env : Env H) (handles : List H)
    (minProfile : Option PyStr) : Eff.Keeps K (readPrologue env handles minProfile) := by
  apply Eff.Keeps.bind hK.trans (hK.onReader _)
  intro initial
  exact hK.onRuntime _

/-- What every write keeps is kept by `decrypt_stream`. -/
theorem decryptStream (hK : OutputFrame K) (env : Env H) (handles : List H)
    (minProfile : Option PyStr) : Eff.Keeps K (decryptStream env handles minProfile) := by
  apply Eff.Keeps.bind hK.trans (hK.readPrologue env handles minProfile)
  intro p
  apply hK.runtime_bind
  intro buf
  apply Eff.Keeps.tryFinally hK.trans
  · apply Eff.Keeps.tryCatch hK.trans
    · apply hK.runtime_bind
      intro key
      apply hK.lift_bind
      intro aesgcm
      apply Eff.Keeps.bind hK.trans (hK.newReader _)
      intro _
      apply Eff.Keeps.bind hK.trans
      · exact Loop.run_keeps _ hK.trans
          (hK.decryptStep env ⟨aesgcm, p.headerBytes, p.baseNonce⟩) _
      intro receivedFinal
      split
      · exact hK.raise _
      · exact Eff.Keeps.pure hK.refl _
    · intro e
      exact hK.raise _
  · exact hK.onRuntime _

/-- What every write keeps is kept by `migrate_stream`, whether it returns or raises. -/
theorem migrateStream (hK : OutputFrame K) (env : Env H) (handles : List H)
    (newBundle : PublicBundle) (minProfile : Option PyStr) :
    Eff.Keeps K (migrateStream env handles newBundle minProfile) := by
  apply Eff.Keeps.bind hK.trans (hK.readPrologue env handles minProfile)
  intro p
  apply hK.runtime_bind
  intro oldBuf
  apply hK.runtime_bind
  intro newDerived
  apply hK.lift_bind
  intro newHeaderBytes
  split
  · exact hK.raise _
  · next newBaseNonce _ =>
    apply hK.runtime_bind
    intro newBuf
    apply Eff.Keeps.bind hK.trans (hK.write _)
    intro _
    apply Eff.Keeps.tryFinally hK.trans
    · apply Eff.Keeps.tryCatch hK.trans
      · apply hK.runtime_bind
        intro oldKey
        apply hK.lift_bind
        intro oldAesgcm
        apply hK.runtime_bind
        intro newKey
        apply hK.lift_bind
        intro newAesgcm
        apply Eff.Keeps.bind hK.trans (hK.newReader _)
        intro _
        apply Eff.Keeps.bind hK.trans
        · exact Loop.run_keeps _ hK.trans (hK.migrateStep env
            ⟨oldAesgcm, p.headerBytes, p.baseNonce⟩ ⟨newAesgcm, newHeaderBytes, newBaseNonce⟩) _
        intro receivedFinal
        split
        · exact hK.raise _
        · exact Eff.Keeps.pure hK.refl _
      · intro e
        exact hK.raise _
    · exact hK.runtime_bind _ fun _ => hK.onRuntime _

end OutputFrame

/-- A file open for reading: what is left of it, and what its coming reads raise. -/
structure FileInput where
  rest : Bytes
  reads : Nat → Option Exc

instance : Input FileInput where
  read n s :=
    let after : FileInput := { s with reads := fun k => s.reads (k + 1) }
    match s.reads 0 with
    | some e => (.error e, after)
    | none => (.ok (s.rest.take n), { after with rest := s.rest.drop n })

/-- A file open for writing, on the disk it is on. -/
structure FileObject where
  disk : Files
  fd : Nat

/-- A write that raises has the bytes in the buffer, if there is an open file. -/
instance : Output FileObject where
  write b s :=
    match (Disk.write osErrors s.fd b).run s.disk with
    | (.ok _, disk) => (none, { s with disk })
    | (.error e, disk) =>
      (some (if (s.disk.handles[s.fd]?.join).isSome then b.length else 0, e), { s with disk })

/-- A stream's write to an open file is a write of the disk. -/
theorem fileObject_write {b : Bytes} (w : World ι FileObject) {r : Except Exc Unit} {d' : Files}
    (h : (Disk.write osErrors w.sink.fd b).run w.sink.disk = (r, d')) :
    ∃ n, (World.write b).run w =
        (r, { w with sink := { w.sink with disk := d' }, out := w.out ++ b.take n }) ∧
      ((w.sink.disk.handles[w.sink.fd]?.join).isSome → n = b.length) := by
  cases r with
  | ok _ =>
    have hout : Output.write b w.sink = (none, { w.sink with disk := d' }) := by
      simp only [Output.write, h]
    refine ⟨b.length, ?_, fun _ => rfl⟩
    rw [List.take_length]
    exact write_ok hout
  | error e =>
    have hout : Output.write b w.sink =
        (some (if (w.sink.disk.handles[w.sink.fd]?.join).isSome then b.length else 0, e),
          { w.sink with disk := d' }) := by
      simp only [Output.write, h]
    refine ⟨_, write_error hout, ?_⟩
    intro hopen
    rw [if_pos hopen]

/-- The file object is used for itself only, and it takes what is written to it. -/
def FillsFile (temp : Path) (w w' : World ι FileObject) : Prop :=
  w'.sink.fd = w.sink.fd ∧ Disk.Confined w.sink.fd temp w.sink.disk w'.sink.disk ∧
    ∀ c, w.sink.disk.Drafts w.sink.fd temp (c ++ w.out) →
      w'.sink.disk.Drafts w.sink.fd temp (c ++ w'.out)

theorem FillsFile.outputFrame (temp : Path) :
    OutputFrame (FillsFile temp : World ι FileObject → World ι FileObject → Prop) where
  same := by
    intro w w' hsink hout
    refine ⟨by rw [hsink], ?_, ?_⟩
    · rw [hsink]
      exact Disk.Confined.refl _
    · intro c h
      rw [hsink, hout]
      exact h
  trans := by
    rintro w w' w'' ⟨hfd, hconfined, hfills⟩ ⟨hfd', hconfined', hfills'⟩
    rw [hfd] at hconfined' hfills'
    exact ⟨hfd'.trans hfd, Disk.Confined.trans _ _ _ hconfined hconfined',
      fun c h => hfills' c (hfills c h)⟩
  write := by
    intro b w
    have hkeeps : Eff.Keeps (Disk.Confined w.sink.fd temp) (Disk.write osErrors w.sink.fd b) :=
      Disk.Confined.write osErrors b
    rcases hrun : (Disk.write osErrors w.sink.fd b).run w.sink.disk with ⟨r, d'⟩
    obtain ⟨n, hwrite, hn⟩ := fileObject_write w hrun
    rw [hwrite]
    refine ⟨rfl, hkeeps.of_eq hrun, ?_⟩
    intro c h
    have hdrafts : d'.Drafts w.sink.fd temp (c ++ w.out ++ b) := (h.write osErrors b).elim hrun
    obtain ⟨content, buffer, -, hfd, -⟩ := h
    have hopen : (w.sink.disk.handles[w.sink.fd]?.join).isSome := by
      rw [hfd]
      rfl
    rw [hn hopen, List.take_length, ← List.append_assoc]
    exact hdrafts

end CryptoFlex
