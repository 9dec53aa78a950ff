import CryptoFlex.Streaming.MigrateRun
import CryptoFlex.Streaming.RoundTrip
import CryptoFlex.Streaming.Segmentation
import CryptoFlex.Zeroization

namespace CryptoFlex

open Lib World

variable {H ι ω : Type}

/-- Wiping two new buffers after each other closes the frame around both. -/
theorem Wipes.closeBoth {rt rt₀ rt' : Runtime} {a b : Bytes}
    (hnew : rt₀.heap = rt.heap ++ [a, b]) (h : Wipes rt₀ rt') :
    Wipes rt ((Runtime.zeroize (rt.heap.length + 1)).run
      ((Runtime.zeroize rt.heap.length).run rt').2).2 := by
  obtain ⟨left, hheap, hleft⟩ := h
  have hsplit : rt'.heap = rt.heap ++ a :: b :: left := by
    rw [hheap, hnew, List.append_assoc]
    rfl
  have hshift : ∀ l : List Bytes, rt.heap ++ List.replicate a.length 0 :: l =
      rt.heap ++ [List.replicate a.length 0] ++ l := by
    intro l
    rw [List.append_assoc]
    rfl
  have hlen : (rt.heap ++ [List.replicate a.length 0]).length = rt.heap.length + 1 := by
    rw [List.length_append, List.length_singleton]
  refine ⟨List.replicate a.length 0 :: List.replicate b.length 0 :: left, ?_, ?_⟩
  · rw [Runtime.zeroize_run, Runtime.zeroize_run, hsplit]
    dsimp only
    rw [Runtime.modify_append_cons, hshift, ← hlen, Runtime.modify_append_cons, ← hshift]
  · rw [List.forall_mem_cons, List.forall_mem_cons]
    exact ⟨allZero_replicate _, allZero_replicate _, hleft⟩

theorem StreamWipes.bracketBoth {α : Type} {a b : Bytes} {body : Eff Exc (World ι ω) α}
    (hbody : Eff.Keeps StreamWipes body) {w w₀ : World ι ω}
    (hnew : w₀.rt.heap = w.rt.heap ++ [a, b]) :
    StreamWipes w ((Eff.tryFinally body (do
      World.onRuntime (Runtime.zeroize w.rt.heap.length)
      World.onRuntime (Runtime.zeroize (w.rt.heap.length + 1)))).run w₀).2 := by
  rcases hrun : body.run w₀ with ⟨r, w'⟩
  let zeroed : Runtime := ((Runtime.zeroize (w.rt.heap.length + 1)).run
    ((Runtime.zeroize w.rt.heap.length).run w'.rt).2).2
  have hzero : ((do
      World.onRuntime (Runtime.zeroize w.rt.heap.length)
      World.onRuntime (Runtime.zeroize (w.rt.heap.length + 1))) :
        Eff Exc (World ι ω) Unit).run w' = (.ok (), { w' with rt := zeroed }) := rfl
  rw [Eff.tryFinally_run hrun hzero]
  exact Wipes.closeBoth hnew (hbody.of_eq hrun)

section Migrate

variable [Output ω]

theorem resealBuffer_wipes (env : Env H) (new : StreamKey) (seq buf : Nat) :
    Eff.Keeps StreamWipes (resealBuffer env new seq buf : Eff Exc (World ι ω) Unit) := by
  apply StreamWipes.nonceAndAad
  intro newNonce newAad
  apply Eff.Keeps.bind StreamWipes.trans (StreamWipes.onRuntime (Wipes.readBuffer _))
  intro pt
  apply Eff.Keeps.bind StreamWipes.trans
    (StreamWipes.onRuntime (Wipes.aesgcmEncrypt env _ _ _ _))
  intro newCtWithTag
  exact StreamWipes.writeFrame _ _

variable [Input ι]

/-- Each plaintext chunk has a buffer of its own, which is wiped before the next frame. -/
theorem migrateStep_wipes (env : Env H) (old new : StreamKey) (v : MigrateVars) :
    Eff.Keeps StreamWipes (migrateStep env old.aesgcm old.headerBytes old.baseNonce new.aesgcm
      new.headerBytes new.baseNonce v : Eff Exc (World ι ω) (MigrateVars ⊕ Bool)) := by
  apply Eff.Keeps.bind StreamWipes.trans (StreamWipes.onlyReads (OnlyReads.readFrameType _))
  intro frameType
  split
  · exact Eff.Keeps.raise StreamWipes.refl _
  split
  · split
    · exact Eff.Keeps.raise StreamWipes.refl _
    apply Eff.Keeps.bind StreamWipes.trans (StreamWipes.onlyReads (OnlyReads.readDataFrame _ _))
    rintro ⟨ptLen, ctWithTag⟩
    apply StreamWipes.nonceAndAad
    intro oldNonce oldAad
    apply Eff.Keeps.bind StreamWipes.trans
      (StreamWipes.onRuntime (Wipes.aesgcmDecrypt env _ _ _ _))
    intro chunkPt
    rw [← Eff.bind_assoc]
    apply Eff.Keeps.bind StreamWipes.trans
    · apply StreamWipes.bracket
      intro buf
      exact resealBuffer_wipes env new v.newSequenceNumber buf
    · intro _
      exact Eff.Keeps.pure StreamWipes.refl _
  split
  · split
    · exact Eff.Keeps.raise StreamWipes.refl _
    apply Eff.Keeps.bind StreamWipes.trans (StreamWipes.onlyReads OnlyReads.readFinalFrame)
    intro finalCt
    apply StreamWipes.nonceAndAad
    intro finalNonce finalAad
    apply Eff.Keeps.bind StreamWipes.trans
      (StreamWipes.onRuntime (Wipes.aesgcmDecrypt env _ _ _ _))
    intro _
    apply StreamWipes.nonceAndAad
    intro newFinalNonce newFinalAad
    apply Eff.Keeps.bind StreamWipes.trans
      (StreamWipes.onRuntime (Wipes.aesgcmEncrypt env _ _ _ _))
    intro newFinalCt
    apply Eff.Keeps.bind StreamWipes.trans (StreamWipes.writeFrame _ _)
    intro _
    exact StreamWipes.refuseTrailing _ _
  · exact Eff.Keeps.raise StreamWipes.refl _

/-- The body of the `try`, whose `finally` wipes both keys. -/
theorem migrateBody_wipes (env : Env H) (p : Prologue) (newHeaderBytes newBaseNonce : Bytes)
    (oldBuf newBuf : Nat) : Eff.Keeps StreamWipes (Eff.tryCatch (do
      let oldKey ← onRuntime (Runtime.readBuffer oldBuf)
      let oldAesgcm ← Eff.lift (AESGCM env.aead oldKey)
      let newKey ← onRuntime (Runtime.readBuffer newBuf)
      let newAesgcm ← Eff.lift (AESGCM env.aead newKey)
      newReader p.unconsumedInitial
      let receivedFinal ← (migrateLoop env oldAesgcm p.headerBytes p.baseNonce newAesgcm
        newHeaderBytes newBaseNonce).toEff {}
      if !receivedFinal then Eff.raise missingFinal)
      (fun e => Eff.raise e.collapse) : Eff Exc (World ι ω) Unit) := by
  apply Eff.Keeps.tryCatch StreamWipes.trans
  · apply StreamWipes.useKey env oldBuf
    intro oldAesgcm
    apply StreamWipes.useKey env newBuf
    intro newAesgcm
    apply Eff.Keeps.bind StreamWipes.trans (StreamWipes.newReader _)
    intro _
    apply Eff.Keeps.bind StreamWipes.trans
      (Loop.run_keeps _ StreamWipes.trans (migrateStep_wipes env
        ⟨oldAesgcm, p.headerBytes, p.baseNonce⟩ ⟨newAesgcm, newHeaderBytes, newBaseNonce⟩) _)
    intro receivedFinal
    split
    · exact Eff.Keeps.raise StreamWipes.refl _
    · exact Eff.Keeps.pure StreamWipes.refl _
  · intro e
    exact Eff.Keeps.raise StreamWipes.refl _

/-- With the old root key in its buffer, a step raises before the `try` begins: the derivation of
the new key, or the write of the new header. -/
inductive GapFails (env : Env H) (newBundle : PublicBundle) (oldKey : Bytes) (rt : Runtime)
    (sink : ω) : Prop
  | underived (noKey : ¬∃ new : StreamKey, new.DerivedFrom env newBundle rt)
    (nonzero : ¬AllZero oldKey) : GapFails env newBundle oldKey rt sink
  | unwritten {new : StreamKey} {n : Nat} {e : Exc} {sink' : ω}
    (derived : new.DerivedFrom env newBundle rt)
    (failed : Output.write new.headerBytes sink = (some (n, e), sink'))
    (nonzero : ¬(AllZero oldKey ∧ AllZero new.aesgcm)) : GapFails env newBundle oldKey rt sink

omit [Input ι] in
theorem GapFails.of_entropy {env : Env H} {newBundle : PublicBundle} {oldKey : Bytes}
    {rt rt' : Runtime} (hpool : rt.entropy = rt'.entropy) {sink : ω}
    (h : GapFails env newBundle oldKey rt sink) : GapFails env newBundle oldKey rt' sink := by
  cases h with
  | underived noKey nonzero =>
    refine GapFails.underived ?_ nonzero
    rintro ⟨new, hnew⟩
    exact noKey ⟨new, hnew.of_entropy hpool.symm⟩
  | unwritten derived failed nonzero =>
    exact GapFails.unwritten (derived.of_entropy hpool) failed nonzero

/-- Behind the prologue `migrate_stream` wipes both keys, unless it raises before its `try`. -/
theorem migrateFrom_wipes_iff (env : Env H) (newBundle : PublicBundle) (p : Prologue)
    (w : World ι ω) : StreamWipes w ((migrateFrom env newBundle p).run w).2 ↔
      ¬GapFails env newBundle p.rawRootKey w.rt w.sink := by
  have hpool : w.rt.entropy = (p.before w.rt).entropy := rfl
  obtain ⟨r, rt₂, hderive, hnew⟩ := migrateFrom_run env newBundle p w
  have hheap : rt₂.heap = w.rt.heap ++ [p.rawRootKey] :=
    (SameHeap.stable.deriveRootKey env newBundle).of_eq hderive
  rcases hnew with ⟨e, hraise, hnone⟩ | ⟨new, hderived, hunder⟩
  · -- nothing wipes the old key when no new key comes out
    rw [hraise]
    unfold StreamWipes
    rw [Wipes.iff_of_heap hheap, List.forall_mem_singleton]
    have hnone' : ¬∃ new : StreamKey, new.DerivedFrom env newBundle w.rt := by
      rintro ⟨new, hnew⟩
      exact hnone ⟨new, hnew.of_entropy hpool⟩
    constructor
    · intro hzero hgap
      cases hgap with
      | underived _ nonzero => exact nonzero hzero
      | unwritten derived _ _ => exact hnone' ⟨_, derived⟩
    · intro hgap
      by_contra hzero
      exact hgap (GapFails.underived hnone' hzero)
  have hderived' : new.DerivedFrom env newBundle w.rt := hderived.of_entropy hpool.symm
  rw [hunder]
  unfold migrateUnder
  rw [Eff.bind_ok (newBuffer_run _ _)]
  dsimp only
  let rt₃ : Runtime := { rt₂ with heap := rt₂.heap ++ [new.aesgcm] }
  have hheap₃ : rt₃.heap = w.rt.heap ++ [p.rawRootKey, new.aesgcm] := by
    change rt₂.heap ++ [new.aesgcm] = _
    rw [hheap, List.append_assoc]
    rfl
  rcases hs : Output.write new.headerBytes w.sink with ⟨_ | ⟨n, e⟩, sink₁⟩
  · have hwrite : (write new.headerBytes).run ({ w with rt := rt₃ } : World ι ω) =
        (.ok (), { w with rt := rt₃, sink := sink₁, out := w.out ++ new.headerBytes }) :=
      write_ok hs
    have hlen : rt₂.heap.length = w.rt.heap.length + 1 := by
      rw [hheap, List.length_append, List.length_singleton]
    rw [Eff.bind_ok hwrite, hlen]
    have hboth : ({ w with rt := rt₃, sink := sink₁, out := w.out ++ new.headerBytes } :
        World ι ω).rt.heap = w.rt.heap ++ [p.rawRootKey, new.aesgcm] := hheap₃
    have hwiped := StreamWipes.bracketBoth (migrateBody_wipes env p new.headerBytes new.baseNonce
      w.rt.heap.length (w.rt.heap.length + 1)) hboth
    refine iff_of_true hwiped ?_
    intro hgap
    cases hgap with
    | underived noKey _ => exact noKey ⟨_, hderived'⟩
    | unwritten derived failed _ =>
      rw [derived.unique rfl hderived', hs] at failed
      cases failed
  · have hwrite : (write new.headerBytes).run ({ w with rt := rt₃ } : World ι ω) =
        (.error e, { w with rt := rt₃, sink := sink₁, out := w.out ++ new.headerBytes.take n }) :=
      write_error hs
    rw [Eff.bind_error hwrite]
    unfold StreamWipes
    rw [Wipes.iff_of_heap hheap₃, List.forall_mem_cons, List.forall_mem_singleton]
    constructor
    · intro hzero hgap
      cases hgap with
      | underived noKey _ => exact noKey ⟨_, hderived'⟩
      | unwritten derived _ nonzero =>
        rw [derived.unique rfl hderived'] at nonzero
        exact nonzero hzero
    · intro hgap
      by_contra hzero
      exact hgap (GapFails.unwritten hderived' hs hzero)

omit [Output ω] in
/-- Reading the prologue creates no buffers, writes nothing and takes nothing from the random
pool. -/
theorem readPrologue_keeps (env : Env H) (handles : List H) (minProfile : Option PyStr) :
    Eff.Keeps (fun w w' : World ι ω =>
      w'.rt.heap = w.rt.heap ∧ w'.rt.entropy = w.rt.entropy ∧ w'.sink = w.sink)
      (readPrologue env handles minProfile) := by
  intro w
  unfold readPrologue
  rcases hread : (readInput maxHeaderSize : Eff Exc (World ι ω) Bytes).run w with
    ⟨_ | initial, w₁⟩
  · rw [Eff.bind_error hread, ← (Prod.mk.inj hread).2]
    exact ⟨rfl, rfl, rfl⟩
  · have hheap := SameHeap.stable.toRecording.parsePrologue env handles minProfile initial w₁.rt
    have hpool := SamePool.recording.parsePrologue env handles minProfile initial w₁.rt
    rw [Eff.bind_ok hread]
    rw [← (Prod.mk.inj hread).2] at hheap hpool ⊢
    exact ⟨hheap, hpool, rfl⟩

/-- The call recovers the old root key and then raises before its `try`. -/
def KeyExposed (env : Env H) (handles : List H) (newBundle : PublicBundle)
    (minProfile : Option PyStr) (w : World ι ω) : Prop :=
  ∃ p w', (readPrologue env handles minProfile).run w = (.ok p, w') ∧
    GapFails env newBundle p.rawRootKey w.rt w.sink

theorem migrateStream_wipes_iff (env : Env H) (handles : List H) (newBundle : PublicBundle)
    (minProfile : Option PyStr) (w : World ι ω) :
    StreamWipes w ((migrateStream env handles newBundle minProfile).run w).2 ↔
      ¬KeyExposed env handles newBundle minProfile w := by
  rw [migrateStream_eq]
  rcases hread : (readPrologue env handles minProfile).run w with ⟨_ | p, w₁⟩
  · rw [Eff.bind_error hread]
    refine iff_of_true ((readPrologue_wipes env handles minProfile).of_eq hread) ?_
    rintro ⟨p, w', hp, -⟩
    rw [hread] at hp
    cases hp
  · rw [Eff.bind_ok hread]
    obtain ⟨hheap, hpool, hsink⟩ := (readPrologue_keeps env handles minProfile).of_eq hread
    have hiff := migrateFrom_wipes_iff env newBundle p w₁
    unfold StreamWipes Wipes at hiff ⊢
    rw [hheap, hsink] at hiff
    rw [hiff, not_iff_not]
    constructor
    · intro hgap
      exact ⟨p, w₁, hread, hgap.of_entropy hpool⟩
    · rintro ⟨p', w', hp', hgap⟩
      rw [hread] at hp'
      cases hp'
      exact hgap.of_entropy hpool.symm

end Migrate

/-- An output stream that has been closed. -/
structure ClosedSink where
  deriving DecidableEq

instance : Output ClosedSink where
  write _ s := (some (0, .valueError "I/O operation on closed file."), s)

/-- A valid stream, a valid bundle and a closed output: the old root key stays in memory. -/
theorem migrateStream_closedSink_exposed :
    ¬StreamWipes (World.start zeroRuntime (MemoryStream.mk emptyStream) ClosedSink.mk)
      ((migrateStream (xorEnv zeroTagAead) [zeroHandle] zeroBundle none).run
        (World.start zeroRuntime (MemoryStream.mk emptyStream) ClosedSink.mk)).2 := by
  have hc : emptyStreamHeaderBytes.length ≤ maxHeaderSize := by decide
  have hread : Input.read maxHeaderSize (World.start zeroRuntime (MemoryStream.mk emptyStream)
      ClosedSink.mk).reader.stream = _ := memoryStream_read hc _
  have hunlock : (unlock (xorEnv zeroTagAead) [zeroHandle] none emptyStreamHeader).run zeroRuntime =
    (.ok (List.replicate 12 0, List.replicate 32 1), _) := Prod.ext emptyStream_unlock rfl
  have hprologue := readPrologue_run (xorEnv zeroTagAead) [zeroHandle] none hread
  have hrt : (World.start zeroRuntime (MemoryStream.mk emptyStream) ClosedSink.mk).rt =
    zeroRuntime := rfl
  rw [hrt, parsePrologue_of_reads _ _ _ emptyStream_reads, Eff.bind_ok hunlock] at hprologue
  dsimp only [Eff.run_pure] at hprologue
  have hnonzero : ¬(AllZero (List.replicate 32 1) ∧ AllZero zeroKey.aesgcm) := by
    rintro ⟨hzero, -⟩
    have hone := hzero 1 (by decide)
    cases hone
  have hgap : GapFails (xorEnv zeroTagAead) zeroBundle (List.replicate 32 1) zeroRuntime
    ClosedSink.mk := GapFails.unwritten (zeroKey_derivedFrom zeroTagAead) rfl hnonzero
  rw [migrateStream_wipes_iff, not_not]
  exact ⟨_, _, hprologue, hgap⟩

/-- Every function wipes the bytearrays it creates, whatever raises, except where `migrate_stream` or
`encrypt` raises between its first buffer and its `try`. -/
theorem keyBuffers_wiped_iff (env : Env H) (kdf : PasswordKdf) :
    (∀ bundle plaintext rt, Wipes rt ((encrypt env bundle plaintext).run rt).2 ↔
      ∀ key, ¬RootKeyExposed env bundle rt key) ∧
    (∀ handles blob minProfile, Eff.Keeps Wipes (decrypt env handles blob minProfile)) ∧
    (∀ bundle plaintext, Eff.Keeps Wipes (ephemeralEncrypt env bundle plaintext)) ∧
    (∀ keyset password useArgon2,
      Eff.Keeps Wipes (exportKeysetBytes env kdf keyset password useArgon2)) ∧
    (∀ data password, Eff.Keeps Wipes (importKeysetBytes env kdf data password)) ∧
    ∀ (ι ω : Type) [Input ι] [Output ω],
      (∀ bundle chunkSize, Eff.Keeps StreamWipes (encryptStream env bundle chunkSize :
        Eff Exc (World ι ω) Unit)) ∧
      (∀ handles minProfile, Eff.Keeps StreamWipes (decryptStream env handles minProfile :
        Eff Exc (World ι ω) Unit)) ∧
      ∀ handles newBundle minProfile (w : World ι ω),
        StreamWipes w ((migrateStream env handles newBundle minProfile).run w).2 ↔
          ¬KeyExposed env handles newBundle minProfile w := by
  refine ⟨encrypt_wipes_iff env, decrypt_wipes env, ephemeralEncrypt_wipes env,
    exportKeysetBytes_wipes env kdf, importKeysetBytes_wipes env kdf, ?_⟩
  intro ι ω _ _
  exact ⟨encryptStream_wipes env, decryptStream_wipes env, migrateStream_wipes_iff env⟩

end CryptoFlex
