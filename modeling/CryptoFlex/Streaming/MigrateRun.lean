import CryptoFlex.Streaming.DecryptRun
import CryptoFlex.Streaming.Migrate

namespace CryptoFlex

open Lib World CryptoflexHeader

variable {H ι ω : Type} [Input ι] [Output ω]

/-- Some emission within the limits has failed. -/
def EmissionFailed (ι ω : Type) [Output ω] (env : Env H) (new : StreamKey) : Prop :=
  ∃ seq tag frameType pt, seq ≤ maxStreamDataFrames ∧ pt.length ≤ maxChunkPlaintextSize ∧
    tag.length ≤ 5 ∧ frameType < 256 ∧ EmitFails ι ω env new seq tag frameType pt

omit [Input ι] in
theorem EmitWorks.not_failed {env : Env H} {new : StreamKey} (h : EmitWorks ι ω env new) :
    ¬EmissionFailed ι ω env new := by
  rintro ⟨seq, tag, frameType, pt, hseq, hpt, htag, htype, hfails⟩
  exact h seq tag frameType pt hseq hpt htag htype hfails

/-- How the loop ends on a stream of the bytes `bs`: it follows their decoding under `old`, or an
emission stops it before. -/
inductive LoopEnd (env : Env H) (old new : StreamKey) (seq newSeq total : Nat) (bs : Bytes)
    (w : World ι ω) (chunks : List (Bytes × Bytes)) (final : Option Bytes) :
    Except Exc Bool → World ι ω → Prop
  | decoded {ending : Except Exc Bytes} {w' : World ι ω}
    (decoded : Decodes env.aead old seq total bs (chunks.map Prod.fst) ending)
    (marked : final.isSome ↔ ∃ rest, ending = .ok rest)
    (emitted : Emitted new newSeq chunks final True w w') :
    LoopEnd env old new seq newSeq total bs w chunks final
      ((ending >>= noTrailing).map fun _ => true) w'
  | stopped {e : Exc} {w' : World ι ω} (fails : EmissionFailed ι ω env new)
    (limits : Limits seq total (chunks.map Prod.fst))
    (emitted : Emitted new newSeq chunks final False w w') (cut : FinalCut chunks final w w') :
    LoopEnd env old new seq newSeq total bs w chunks final (.error e) w'

omit [Input ι] in
theorem LoopEnd.data {env : Env H} {old new : StreamKey} {seq newSeq total : Nat}
    {bs rest ct pt ct' : Bytes} {chunks : List (Bytes × Bytes)} {final : Option Bytes}
    {r : Except Exc Bool} {w w₁ w' : World ι ω} (hd : env.aead.Documented)
    (frame : (nextFrame seq total).run bs = .ok (.data ct, rest))
    (opened : old.openCt env.aead seq aadTagData ct = .ok pt)
    (emitted : Emitted new newSeq [(pt, ct')] none True w w₁)
    (h : LoopEnd env old new (seq + 1) (newSeq + 1) (total + pt.length) rest w₁ chunks final r w') :
    LoopEnd env old new seq newSeq total bs w ((pt, ct') :: chunks) final r w' := by
  cases h with
  | decoded decoded marked more =>
    exact LoopEnd.decoded (Decodes.data frame opened decoded) marked (emitted.append trivial more)
  | stopped fails limits more cut =>
    have hvalid : DataLimits seq total ct := (nextFrame_eq_ok frame).2
    refine LoopEnd.stopped fails (hvalid.limits_cons (StreamKey.openCt_length hd opened) limits)
      (emitted.append trivial more) ?_
    intro hF c hc hne
    obtain ⟨written, hout, -, hall⟩ := emitted.out
    have hlen := cut hF c hc hne
    rw [hout, hall trivial] at hlen
    simp only [dataFrames, finalFrame, List.map_cons, List.flatten_cons, List.length_append,
      List.map_nil, List.flatten_nil, List.append_nil, Option.toList_none] at hlen ⊢
    omega

/-- On a stream of the bytes `bs` the loop seals for `new` the chunks that `bs` has under `old`,
and an end mark as soon as it meets one. -/
theorem migrateLoop_end (env : Env H) (hd : env.aead.Documented) (old new : StreamKey)
    {v : MigrateVars} (hv : v.receivedFinal = false)
    (hseq : v.newSequenceNumber = v.sequenceNumber) (hmax : v.sequenceNumber ≤ maxStreamDataFrames)
    {w : World ι ω} {bs : Bytes} (h : w.reader.Holds bs) : ∃ r w' chunks final,
      ((migrateLoop env old.aesgcm old.headerBytes old.baseNonce new.aesgcm new.headerBytes
        new.baseNonce).toEff v).run w = (r, w') ∧
      SealedFrom env.aead new v.newSequenceNumber chunks ∧
      (∀ ct, final = some ct →
        new.sealPt env.aead (v.newSequenceNumber + chunks.length) aadTagFinal [] = .ok ct) ∧
      LoopEnd env old new v.sequenceNumber v.newSequenceNumber v.totalPlaintextBytes bs w chunks
        final r w' := by
  induction v, w using (migrateLoop env old.aesgcm old.headerBytes old.baseNonce new.aesgcm
    new.headerBytes new.baseNonce : Loop Exc (World ι ω) MigrateVars Bool).induction
    generalizing bs with
  | h v w ih =>
    have hrun := migrateStep_run env old new hv hseq w
    obtain ⟨r₁, hread, hholds⟩ :=
      readFrame_follows (ω := ω) v.sequenceNumber v.totalPlaintextBytes w bs h
    cases hf : (nextFrame v.sequenceNumber v.totalPlaintextBytes).run bs with
    | error e =>
      rw [hf] at hread
      rw [Eff.bind_error hread] at hrun
      have hend : LoopEnd env old new v.sequenceNumber v.newSequenceNumber v.totalPlaintextBytes bs
          w [] none (((.error e : Except Exc Bytes) >>= noTrailing).map fun _ => true)
          { w with reader := r₁ } :=
        LoopEnd.decoded (Decodes.malformed hf) (by simp) (Emitted.nothing rfl rfl)
      exact ⟨_, _, [], none, Loop.run_raise _ hrun, SealedFrom.nil, nofun, hend⟩
    | ok fr =>
      obtain ⟨f, rest⟩ := fr
      rw [hf] at hread
      change (readFrame _ _).run w = (.ok f, { w with reader := r₁ }) at hread
      have hrest := hholds f rest hf
      obtain ⟨r, w', hpassRun, hpass⟩ :=
        migrateFrame_pass env old new v f ({ w with reader := r₁ } : World ι ω)
      rw [Eff.bind_ok hread, hpassRun] at hrun
      have honly : OnlyReads w ({ w with reader := r₁ } : World ι ω) := ⟨rfl, rfl⟩
      cases hpass with
      | @rejected e _ opened emitted =>
        have hend : LoopEnd env old new v.sequenceNumber v.newSequenceNumber v.totalPlaintextBytes
            bs w [] none (((.error e : Except Exc Bytes) >>= noTrailing).map fun _ => true) w' :=
          LoopEnd.decoded (Decodes.rejected hf opened) (by simp)
            (emitted.whole_of_nothing.of_onlyReads honly)
        exact ⟨_, w', [], none, Loop.run_raise _ hrun, SealedFrom.nil, nofun, hend⟩
      | @dataRaised ct pt chunks e _ frame opened fails one sealed emitted =>
        subst frame
        have hvalid : DataLimits v.sequenceNumber v.totalPlaintextBytes ct := (nextFrame_eq_ok hf).2
        have hlen := StreamKey.openCt_length hd opened
        have hsize := hvalid.size
        unfold maxChunkCiphertextSize at hsize
        have hfailed : EmissionFailed ι ω env new :=
          ⟨_, _, _, _, by omega, by omega, by decide, by decide, fails⟩
        have hlimits : Limits v.sequenceNumber v.totalPlaintextBytes (chunks.map Prod.fst) := by
          rcases one with rfl | ⟨ct', rfl⟩
          · exact Limits.nil
          · exact hvalid.limits_cons hlen Limits.nil
        exact ⟨_, w', chunks, none, Loop.run_raise _ hrun, sealed, nofun,
          LoopEnd.stopped hfailed hlimits (emitted.of_onlyReads honly) nofun⟩
      | @data ct pt ct' _ frame opened sealed emitted reader =>
        subst frame
        have hvalid : DataLimits v.sequenceNumber v.totalPlaintextBytes ct := (nextFrame_eq_ok hf).2
        have hcount := hvalid.count
        have hlen := StreamKey.openCt_length hd opened
        have hrest' : w'.reader.Holds rest := by
          rw [reader]
          exact hrest
        obtain ⟨r', w'', chunks, final, hloop, hsealed, hfinal, hend⟩ :=
          ih _ w' hrun hv (congrArg (· + 1) hseq) (Nat.succ_le_of_lt hcount) hrest'
        dsimp only at hend
        rw [show ct.length - 16 = pt.length by omega] at hend
        refine ⟨r', w'', (pt, ct') :: chunks, final, ?_, sealed.append hsealed, ?_,
          LoopEnd.data hd hf opened (emitted.of_onlyReads honly) hend⟩
        · rw [Loop.run_continue _ hrun]
          exact hloop
        · intro c hc
          rw [List.length_cons, Nat.add_comm chunks.length, ← Nat.add_assoc]
          exact hfinal c hc
      | @finalRaised ct pt final e _ frame opened fails sealed emitted cut =>
        have hfailed : EmissionFailed ι ω env new :=
          ⟨_, _, _, _, by omega, by decide, by decide, by decide, fails⟩
        exact ⟨_, w', [], final, Loop.run_raise _ hrun, SealedFrom.nil, sealed,
          LoopEnd.stopped hfailed Limits.nil (emitted.of_onlyReads honly) cut⟩
      | @final ct pt ct' r _ frame opened sealed emitted trailing =>
        subst frame
        obtain ⟨r₂, hrem, -⟩ := StreamReader.hasRemaining_holds hrest
        have hr : r = .ok (decide (rest ≠ [])) := by
          change StreamReader.hasRemaining.run r₁ = _ at trailing
          rw [hrem] at trailing
          exact (Prod.mk.inj trailing).1.symm
        subst hr
        have hend : LoopEnd env old new v.sequenceNumber v.newSequenceNumber v.totalPlaintextBytes
            bs w [] (some ct') (((.ok rest : Except Exc Bytes) >>= noTrailing).map fun _ => true)
            w' :=
          LoopEnd.decoded (Decodes.final hf opened) (by simp) (emitted.of_onlyReads honly)
        refine ⟨_, w', [], some ct', ?_, SealedFrom.nil, ?_, hend⟩
        · rw [ok_bind, noTrailing]
          by_cases hnil : rest = []
          · rw [if_pos hnil]
            rw [decide_eq_false (not_not.mpr hnil)] at hrun
            exact Loop.run_break _ hrun
          · rw [if_neg hnil]
            rw [decide_eq_true hnil] at hrun
            exact Loop.run_raise _ hrun
        · intro c hc
          cases hc
          exact sealed

/-- The part of `migrate_stream` behind the prologue. -/
def migrateFrom (env : Env H) (newBundle : PublicBundle) (p : Prologue) :
    Eff Exc (World ι ω) Unit := do
  let oldRootKeyBuf ← onRuntime (Runtime.newBuffer p.rawRootKey)
  let newDerived ← onRuntime (deriveRootKey env newBundle)
  let newHeaderBytes ← Eff.lift newDerived.header.toBytes
  match newDerived.header.nonce with
  | none => Eff.raise (.valueError
      "derive_root_key() produced a v1 header with no nonce — cannot stream-migrate")
  | some newBaseNonce =>
  let newRootKeyBuf ← onRuntime (Runtime.newBuffer newDerived.rootKey)
  write newHeaderBytes
  Eff.tryFinally
    (Eff.tryCatch (do
      let oldKey ← onRuntime (Runtime.readBuffer oldRootKeyBuf)
      let oldAesgcm ← Eff.lift (AESGCM env.aead oldKey)
      let newKey ← onRuntime (Runtime.readBuffer newRootKeyBuf)
      let newAesgcm ← Eff.lift (AESGCM env.aead newKey)
      newReader p.unconsumedInitial
      let receivedFinal ← (migrateLoop env oldAesgcm p.headerBytes p.baseNonce newAesgcm
        newHeaderBytes newBaseNonce).toEff {}
      if !receivedFinal then Eff.raise missingFinal) fun e =>
      Eff.raise e.collapse)
    (do
      onRuntime (Runtime.zeroize oldRootKeyBuf)
      onRuntime (Runtime.zeroize newRootKeyBuf))

theorem migrateStream_eq (env : Env H) (handles : List H) (newBundle : PublicBundle)
    (minProfile : Option PyStr) :
    (migrateStream env handles newBundle minProfile : Eff Exc (World ι ω) Unit) =
      readPrologue env handles minProfile >>= migrateFrom env newBundle := rfl

/-- The process state in which `migrate_stream` derives the new key. -/
def Prologue.before (p : Prologue) (rt : Runtime) : Runtime :=
  { rt with heap := rt.heap ++ [p.rawRootKey] }

def noNonceToMigrate : Exc :=
  .valueError "derive_root_key() produced a v1 header with no nonce — cannot stream-migrate"

/-- The part of `migrate_stream` behind the derivation of the new key. -/
def migrateUnder (env : Env H) (p : Prologue) (oldRootKeyBuf : Nat) (new : StreamKey) :
    Eff Exc (World ι ω) Unit := do
  let newRootKeyBuf ← onRuntime (Runtime.newBuffer new.aesgcm)
  write new.headerBytes
  Eff.tryFinally
    (Eff.tryCatch (do
      let oldKey ← onRuntime (Runtime.readBuffer oldRootKeyBuf)
      let oldAesgcm ← Eff.lift (AESGCM env.aead oldKey)
      let newKey ← onRuntime (Runtime.readBuffer newRootKeyBuf)
      let newAesgcm ← Eff.lift (AESGCM env.aead newKey)
      newReader p.unconsumedInitial
      let receivedFinal ← (migrateLoop env oldAesgcm p.headerBytes p.baseNonce newAesgcm
        new.headerBytes new.baseNonce).toEff {}
      if !receivedFinal then Eff.raise missingFinal) fun e =>
      Eff.raise e.collapse)
    (do
      onRuntime (Runtime.zeroize oldRootKeyBuf)
      onRuntime (Runtime.zeroize newRootKeyBuf))

theorem migrateFrom_eq (env : Env H) (newBundle : PublicBundle) (p : Prologue) :
    (migrateFrom env newBundle p : Eff Exc (World ι ω) Unit) = (do
      let oldRootKeyBuf ← onRuntime (Runtime.newBuffer p.rawRootKey)
      let new ← newStream env newBundle noNonceToMigrate
      migrateUnder env p oldRootKeyBuf new) := by
  unfold migrateFrom newStream
  congr 1
  funext oldRootKeyBuf
  rw [Eff.bind_assoc]
  congr 1
  funext newDerived
  rw [Eff.bind_assoc]
  congr 1
  funext newHeaderBytes
  cases newDerived.header.nonce <;> rfl

/-- Without a new key it raises; with one, `migrateUnder` runs. -/
theorem migrateFrom_run (env : Env H) (newBundle : PublicBundle) (p : Prologue) (w : World ι ω) :
    ∃ r rt', (deriveRootKey env newBundle).run (p.before w.rt) = (r, rt') ∧
      ((∃ e, (migrateFrom env newBundle p).run w = (.error e, { w with rt := rt' }) ∧
          ¬∃ new : StreamKey, new.DerivedFrom env newBundle (p.before w.rt)) ∨
        ∃ new : StreamKey, new.DerivedFrom env newBundle (p.before w.rt) ∧
          (migrateFrom env newBundle p).run w =
            (migrateUnder env p w.rt.heap.length new).run { w with rt := rt' }) := by
  obtain ⟨r, rt', hderive, hnew⟩ := newStream_run env newBundle noNonceToMigrate
    ({ w with rt := p.before w.rt } : World ι ω)
  refine ⟨r, rt', hderive, ?_⟩
  rw [migrateFrom_eq, Eff.bind_ok (newBuffer_run p.rawRootKey w)]
  rcases hnew with ⟨e, hraise, hnone⟩ | ⟨new, hderived, hkey⟩
  · exact Or.inl ⟨e, Eff.bind_error hraise _, hnone⟩
  · exact Or.inr ⟨new, hderived, Eff.bind_ok hkey _⟩

/-- How a call ends whose prologue returned `p`: before its loop, or as the loop does. -/
inductive MigrateCall (env : Env H) (newBundle : PublicBundle) (p : Prologue) (w : World ι ω) :
    Except Exc Unit → World ι ω → Prop
  | unready {e : Exc} {w' : World ι ω} (seals : w'.rt.seals = w.rt.seals) (out : w'.out = w.out)
    (noKey : ¬∃ new : StreamKey, new.DerivedFrom env newBundle (p.before w.rt)) :
    MigrateCall env newBundle p w (.error e) w'
  | unwritten {new : StreamKey} {n : Nat} {e : Exc} {sink sink' : ω} {w' : World ι ω}
    (derived : new.DerivedFrom env newBundle (p.before w.rt))
    (failed : Output.write new.headerBytes sink = (some (n, e), sink'))
    (seals : w'.rt.seals = w.rt.seals) (out : w'.out = w.out ++ new.headerBytes.take n) :
    MigrateCall env newBundle p w (.error e) w'
  | uninit {new : StreamKey} {key : Bytes} {e : Exc} {w' : World ι ω}
    (derived : new.DerivedFrom env newBundle (p.before w.rt))
    (either : key = p.rawRootKey ∨ key = new.aesgcm) (refused : env.aead.init key = .error e)
    (seals : w'.rt.seals = w.rt.seals) (out : w'.out = w.out ++ new.headerBytes) :
    MigrateCall env newBundle p w (.error e.collapse) w'
  | looped {new : StreamKey} {w₁ w₂ w' : World ι ω} {r : Except Exc Bool}
    (derived : new.DerivedFrom env newBundle (p.before w.rt))
    (reader : w₁.reader = ⟨p.unconsumedInitial, w.reader.stream⟩)
    (seals : w₁.rt.seals = w.rt.seals) (out : w₁.out = w.out ++ new.headerBytes)
    (loop : ((migrateLoop env p.rawRootKey p.headerBytes p.baseNonce new.aesgcm new.headerBytes
      new.baseNonce).toEff {}).run w₁ = (r, w₂))
    (sealsAfter : w'.rt.seals = w₂.rt.seals) (outAfter : w'.out = w₂.out) :
    MigrateCall env newBundle p w
      ((r >>= fun received => if received then .ok () else .error missingFinal).mapError
        Exc.collapse) w'

theorem heap_getD_append_append (heap : List Bytes) (a b : Bytes) :
    (heap ++ [a] ++ [b]).getD heap.length [] = a := by
  simp [List.getD]

theorem migrateFrom_call (env : Env H) (newBundle : PublicBundle) (p : Prologue) (w : World ι ω) :
    ∃ r w', (migrateFrom env newBundle p).run w = (r, w') ∧ MigrateCall env newBundle p w r w' := by
  obtain ⟨r, rt₂, hderive, ⟨e, hraise, hnone⟩ | ⟨new, hderived, hunder⟩⟩ :=
    migrateFrom_run env newBundle p w
  · have hseals : SealsNothing (p.before w.rt) rt₂ :=
      (SealsNothing.stable.deriveRootKey env newBundle).of_eq hderive
    exact ⟨_, _, hraise, MigrateCall.unready hseals rfl hnone⟩
  have hseals : SealsNothing (p.before w.rt) rt₂ :=
    (SealsNothing.stable.deriveRootKey env newBundle).of_eq hderive
  have hheap : SameHeap (p.before w.rt) rt₂ :=
    (SameHeap.stable.deriveRootKey env newBundle).of_eq hderive
  rw [hunder]
  unfold migrateUnder
  rw [Eff.bind_ok (newBuffer_run _ _)]
  dsimp only
  let w₀ : World ι ω := { w with rt := { rt₂ with heap := rt₂.heap ++ [new.aesgcm] } }
  rcases hs : Output.write new.headerBytes w₀.sink with ⟨_ | ⟨n, e⟩, sink₁⟩
  swap
  · exact ⟨_, _, Eff.bind_error (write_error hs) _, MigrateCall.unwritten hderived hs hseals rfl⟩
  let w₁ : World ι ω := { w₀ with sink := sink₁, out := w.out ++ new.headerBytes }
  have hwrite : (write new.headerBytes).run w₀ = (.ok (), w₁) := write_ok hs
  rw [Eff.bind_ok hwrite]
  let w₂ : World ι ω := { w₁ with reader := { w₁.reader with buf := p.unconsumedInitial } }
  have hbuf : w₁.rt.heap = w.rt.heap ++ [p.rawRootKey] ++ [new.aesgcm] :=
    congrArg (· ++ [new.aesgcm]) hheap
  have hold : w₁.rt.heap.getD w.rt.heap.length [] = p.rawRootKey := by
    rw [hbuf]
    exact heap_getD_append_append _ _ _
  have hnew : w₁.rt.heap.getD rt₂.heap.length [] = new.aesgcm := heap_getD_append _ _
  obtain ⟨r, w₃, hbody, hcall⟩ : ∃ r w₃, ((do
      let oldKey ← onRuntime (Runtime.readBuffer w.rt.heap.length)
      let oldAesgcm ← Eff.lift (AESGCM env.aead oldKey)
      let newKey ← onRuntime (Runtime.readBuffer rt₂.heap.length)
      let newAesgcm ← Eff.lift (AESGCM env.aead newKey)
      newReader p.unconsumedInitial
      let receivedFinal ← (migrateLoop env oldAesgcm p.headerBytes p.baseNonce newAesgcm
        new.headerBytes new.baseNonce).toEff {}
      if !receivedFinal then Eff.raise missingFinal) : Eff Exc (World ι ω) Unit).run w₁ =
        (r, w₃) ∧
      ∀ w', w'.rt.seals = w₃.rt.seals → w'.out = w₃.out →
        MigrateCall env newBundle p w (r.mapError Exc.collapse) w' := by
    rw [Eff.bind_ok (readBuffer_run hold w₁ rfl)]
    cases hi : env.aead.init p.rawRootKey with
    | error e =>
      rw [AESGCM_of_error hi, Eff.run_lift_error_bind]
      refine ⟨_, w₁, rfl, ?_⟩
      intro w' hs ho
      exact MigrateCall.uninit hderived (Or.inl rfl) hi (hs.trans hseals) ho
    | ok u =>
    rw [AESGCM_of_init hi, Eff.run_lift_ok_bind, Eff.bind_ok (readBuffer_run hnew w₁ rfl)]
    cases hi' : env.aead.init new.aesgcm with
    | error e =>
      rw [AESGCM_of_error hi', Eff.run_lift_error_bind]
      refine ⟨_, w₁, rfl, ?_⟩
      intro w' hs ho
      exact MigrateCall.uninit hderived (Or.inr rfl) hi' (hs.trans hseals) ho
    | ok u =>
    rw [AESGCM_of_init hi', Eff.run_lift_ok_bind]
    have hreader' : (newReader p.unconsumedInitial : Eff Exc (World ι ω) Unit).run w₁ =
      (.ok (), w₂) := rfl
    rw [Eff.bind_ok hreader']
    rcases hloop : ((migrateLoop env p.rawRootKey p.headerBytes p.baseNonce new.aesgcm
      new.headerBytes new.baseNonce).toEff {}).run w₂ with ⟨rl, w₃⟩
    refine ⟨rl >>= fun received => if received then .ok () else .error missingFinal, w₃, ?_, ?_⟩
    · cases rl with
      | error e => exact Eff.bind_error hloop _
      | ok received =>
        rw [Eff.bind_ok hloop]
        cases received <;> rfl
    · intro w' hs ho
      refine MigrateCall.looped hderived ?_ ?_ ?_ hloop hs ho
      · rfl
      · exact hseals
      · rfl
  let zeroed : Runtime := ((Runtime.zeroize rt₂.heap.length).run
    ((Runtime.zeroize w.rt.heap.length).run w₃.rt).2).2
  have hzero : ((do
      onRuntime (Runtime.zeroize w.rt.heap.length)
      onRuntime (Runtime.zeroize rt₂.heap.length)) : Eff Exc (World ι ω) Unit).run w₃ =
    (.ok (), { w₃ with rt := zeroed }) := rfl
  refine ⟨_, { w₃ with rt := zeroed }, Eff.tryFinally_run ?_ hzero, hcall _ rfl rfl⟩
  cases r with
  | ok u => exact Eff.tryCatch_ok hbody _
  | error e => exact Eff.tryCatch_error hbody _

section Run

variable {H ι ω : Type} [Input ι] [Output ω] {env : Env H} {handles : List H}
  {newBundle : PublicBundle} {minProfile : Option PyStr} {i i' : ι} {initial t : Bytes}
  {rt rt' : Runtime}

/-- Reading the prologue takes nothing from the random pool. -/
theorem before_entropy {p : Prologue}
    (hp : (parsePrologue env handles minProfile initial).run rt = (.ok p, rt')) :
    (p.before rt').entropy = rt.entropy := by
  have hsame := (SamePool.recording.parsePrologue env handles minProfile initial).of_eq hp
  exact hsame

theorem migrateStream_refused (newBundle : PublicBundle)
    (hread : Input.read maxHeaderSize i = (.ok initial, i')) {e : Exc}
    (hp : (parsePrologue env handles minProfile initial).run rt = (.error e, rt')) (sink : ω) :
    ∃ w', (migrateStream env handles newBundle minProfile).run (World.start rt i sink) =
        (.error e, w') ∧ w'.out = [] := by
  have hprologue := readPrologue_run (ω := ω) env handles minProfile
    (w := World.start rt i sink) hread
  have hw : (World.start rt i sink).rt = rt := rfl
  rw [hw, hp] at hprologue
  rw [migrateStream_eq]
  exact ⟨_, Eff.bind_error hprologue _, rfl⟩

theorem migrateStream_call (newBundle : PublicBundle)
    (hread : Input.read maxHeaderSize i = (.ok initial, i')) {p : Prologue}
    (hp : (parsePrologue env handles minProfile initial).run rt = (.ok p, rt')) (sink : ω) :
    ∃ r w', (migrateStream env handles newBundle minProfile).run (World.start rt i sink) =
        (r, w') ∧
      MigrateCall env newBundle p
        { rt := rt', reader := { buf := [], stream := i' }, sink, out := [] } r w' := by
  have hprologue := readPrologue_run (ω := ω) env handles minProfile
    (w := World.start rt i sink) hread
  have hw : (World.start rt i sink).rt = rt := rfl
  rw [hw, hp] at hprologue
  obtain ⟨r, w', hrun, hcall⟩ := migrateFrom_call env newBundle p
    { rt := rt', reader := { buf := [], stream := i' }, sink, out := [] }
  rw [migrateStream_eq, Eff.bind_ok hprologue]
  exact ⟨r, w', hrun, hcall⟩

/-- No new header, nothing written. -/
theorem migrateStream_unready
    (hread : Input.read maxHeaderSize i = (.ok initial, i')) {p : Prologue}
    (hp : (parsePrologue env handles minProfile initial).run rt = (.ok p, rt'))
    (hnone : ¬∃ new : StreamKey, new.DerivedFrom env newBundle rt) (sink : ω) :
    ∃ e w', (migrateStream env handles newBundle minProfile).run (World.start rt i sink) =
        (.error e, w') ∧ w'.out = [] := by
  have hpool := before_entropy hp
  obtain ⟨r, w', hrun, hcall⟩ := migrateStream_call newBundle hread hp sink
  cases hcall with
  | unready _ out _ => exact ⟨_, w', hrun, out⟩
  | unwritten derived _ _ _ => exact absurd ⟨_, derived.of_entropy hpool⟩ hnone
  | uninit derived _ _ _ _ => exact absurd ⟨_, derived.of_entropy hpool⟩ hnone
  | looped derived _ _ _ _ _ _ => exact absurd ⟨_, derived.of_entropy hpool⟩ hnone

/-- A call with a new key writes a first part of the header, or the header and what its loop
writes. -/
theorem migrateStream_end (hd : env.aead.Documented)
    (hread : Input.read maxHeaderSize i = (.ok initial, i')) (ht : Delivers i' t) {p : Prologue}
    (hp : (parsePrologue env handles minProfile initial).run rt = (.ok p, rt')) {new : StreamKey}
    (hnew : new.DerivedFrom env newBundle rt) (sink : ω) :
    ∃ r w', (migrateStream env handles newBundle minProfile).run (World.start rt i sink) =
        (r, w') ∧
      ((∃ s s' n e, Output.write new.headerBytes (s : ω) = (some (n, e), s') ∧ r = .error e ∧
          w'.out = new.headerBytes.take n) ∨
        ∃ chunks final q w₁ w₂,
          r = (q >>= fun received => if received then .ok () else .error missingFinal).mapError
            Exc.collapse ∧
          Transcript.From env newBundle rt ⟨new, chunks, final⟩ ∧
          LoopEnd env ⟨p.rawRootKey, p.headerBytes, p.baseNonce⟩ new 0 0 0
            (p.unconsumedInitial ++ t) (w₁ : World ι ω) chunks final q w₂ ∧
          w₁.out = new.headerBytes ∧ w'.out = w₂.out) := by
  have hpool := before_entropy hp
  obtain ⟨r, w', hrun, hcall⟩ := migrateStream_call newBundle hread hp sink
  refine ⟨r, w', hrun, ?_⟩
  cases hcall with
  | unready _ _ noKey => exact absurd ⟨new, hnew.of_entropy hpool.symm⟩ noKey
  | @unwritten new' n e s s' _ derived failed _ out =>
    have hsame : new' = new := StreamKey.DerivedFrom.unique hpool derived hnew
    subst hsame
    exact Or.inl ⟨s, s', n, e, failed, rfl, out⟩
  | @uninit _ key _ _ derived either refused _ _ =>
    obtain ⟨header, k, -, hunlock, -, -⟩ := parsePrologue_eq_ok hp
    have hkey : key.length = 32 := by
      rcases either with rfl | rfl
      · exact unlock_key_length hunlock
      · exact derived.lengths.1
    rw [hd.init_ok key hkey] at refused
    cases refused
  | @looped new' w₁ w₂ _ q derived reader _ out loop _ outAfter =>
    have hsame : new' = new := StreamKey.DerivedFrom.unique hpool derived hnew
    subst hsame
    have hholds : w₁.reader.Holds (p.unconsumedInitial ++ t) := by
      rw [reader]
      exact ⟨t, rfl, ht⟩
    obtain ⟨q', w₃, chunks, final, hloop, hsealed, hfinal, hend⟩ :=
      migrateLoop_end env hd ⟨p.rawRootKey, p.headerBytes, p.baseNonce⟩ new' (v := {}) rfl rfl
        (Nat.zero_le _) hholds
    rw [hloop] at loop
    cases loop
    refine Or.inr ⟨chunks, final, q, w₁, w₂, rfl, ⟨hnew, hsealed, ?_⟩, hend, out, outAfter⟩
    intro ct hct
    have hseal := hfinal ct hct
    dsimp only at hseal
    rw [Nat.zero_add] at hseal
    exact hseal

/-- On a reliable output the chunks that the old key authenticates are sealed for the new key, up
to where the decoding ends. -/
theorem migrateStream_looped (ha : env.aead.Correct)
    (hread : Input.read maxHeaderSize i = (.ok initial, i')) (ht : Delivers i' t) {p : Prologue}
    (hp : (parsePrologue env handles minProfile initial).run rt = (.ok p, rt')) {new : StreamKey}
    (hnew : new.DerivedFrom env newBundle rt) (hO : Reliable ω) (sink : ω) :
    ∃ chunks final ending w',
      (migrateStream env handles newBundle minProfile).run (World.start rt i sink) =
        ((ending >>= noTrailing).mapError Exc.collapse, w') ∧
      Decodes env.aead ⟨p.rawRootKey, p.headerBytes, p.baseNonce⟩ 0 0 (p.unconsumedInitial ++ t)
        (chunks.map Prod.fst) ending ∧
      Transcript.From env newBundle rt ⟨new, chunks, final⟩ ∧
      (final.isSome ↔ ∃ rest, ending = .ok rest) ∧
      w'.out = Transcript.wire ⟨new, chunks, final⟩ := by
  obtain ⟨r, w', hrun, hcase⟩ := migrateStream_end ha.toDocumented hread ht hp hnew sink
  rcases hcase with ⟨s, s', n, e, hfailed, -, -⟩ | ⟨chunks, final, q, w₁, w₂, hr, hfrom, hend, h₁, h₂⟩
  · have hnone := hO new.headerBytes s
    rw [hfailed] at hnone
    cases hnone
  · have hworks : EmitWorks ι ω env new :=
      emitWorks_of_reliable hO ha hnew.lengths.1 hnew.lengths.2 hnew.header_length
    cases hend with
    | stopped fails _ _ _ => exact absurd fails hworks.not_failed
    | @decoded ending _ decoded marked emitted =>
      refine ⟨chunks, final, ending, w', ?_, decoded, hfrom, marked, ?_⟩
      · rw [hrun, hr]
        cases ending >>= noTrailing <;> rfl
      · obtain ⟨written, hout, -, hall⟩ := emitted.out
        rw [h₂, hout, hall trivial, h₁]
        rfl

/-- Whatever the input does: a run seals nothing and raises, or it seals the transcript of one
stream and writes that stream as far as it gets. -/
theorem migrateStream_run (env : Env H) (handles : List H) (newBundle : PublicBundle)
    (minProfile : Option PyStr) (rt : Runtime) (i : ι) (sink : ω) : ∃ r w',
      (migrateStream env handles newBundle minProfile).run (World.start rt i sink) = (r, w') ∧
      (((∃ e, r = .error e) ∧ w'.rt.seals = rt.seals) ∨
        ∃ (t : Transcript) (rt₁ : Runtime), t.From env newBundle rt₁ ∧
          w'.rt.seals = rt.seals ++ t.seals ∧ t.Written r w'.out) := by
  rcases hread : Input.read maxHeaderSize i with ⟨e | initial, i'⟩
  · have hinput : (readInput maxHeaderSize : Eff Exc (World ι ω) Bytes).run (World.start rt i sink) =
        (.error e, { rt, reader := { buf := [], stream := i' }, sink, out := [] }) := by
      simp only [readInput, onReader, Eff.run_zoom, StreamReader.readStream, World.start, hread]
    rw [migrateStream_eq]
    exact ⟨_, _, Eff.bind_error (Eff.bind_error hinput _) _, Or.inl ⟨⟨_, rfl⟩, rfl⟩⟩
  rcases hp : (parsePrologue env handles minProfile initial).run rt with ⟨r, rt'⟩
  have hseals : rt'.seals = rt.seals :=
    (SealsNothing.stable.toRecording.parsePrologue env handles minProfile initial).of_eq hp
  cases r with
  | error e =>
    have hprologue := readPrologue_run (ω := ω) env handles minProfile
      (w := World.start rt i sink) hread
    have hw : (World.start rt i sink).rt = rt := rfl
    rw [hw, hp] at hprologue
    rw [migrateStream_eq]
    exact ⟨_, _, Eff.bind_error hprologue _, Or.inl ⟨⟨e, rfl⟩, hseals⟩⟩
  | ok p =>
    obtain ⟨r, w', hrun, hcall⟩ := migrateStream_call newBundle hread hp sink
    refine ⟨r, w', hrun, ?_⟩
    cases hcall with
    | unready seals _ _ => exact Or.inl ⟨⟨_, rfl⟩, seals.trans hseals⟩
    | unwritten _ _ seals _ => exact Or.inl ⟨⟨_, rfl⟩, seals.trans hseals⟩
    | @uninit new _ _ _ derived _ _ seals out =>
      refine Or.inr ⟨⟨new, [], none⟩, _, ⟨derived, SealedFrom.nil, ?_⟩, ?_, ?_, ?_⟩
      · rintro ct ⟨⟩
      · exact (seals.trans hseals).trans (List.append_nil _).symm
      · rw [out]
        exact List.prefix_append _ _
      · rintro ⟨⟩
    | @looped new w₁ w₂ _ q derived _ seals out loop sealsAfter outAfter =>
      obtain ⟨q', w₃, chunks, final, hloop, hsealed, hfinal, hemitted, hdone⟩ :=
        migrateLoop_emitted env ⟨p.rawRootKey, p.headerBytes, p.baseNonce⟩ new (v := {}) rfl rfl w₁
      rw [hloop] at loop
      cases loop
      obtain ⟨written, hwritten, hpart, hwhole⟩ := hemitted.out
      refine Or.inr ⟨⟨new, chunks, final⟩, _, ⟨derived, hsealed, ?_⟩, ?_, ?_, ?_⟩
      · intro ct hct
        have hseal := hfinal ct hct
        dsimp only at hseal
        rw [Nat.zero_add] at hseal
        exact hseal
      · have hall := hemitted.seals
        dsimp only at hall
        rw [Nat.zero_add] at hall
        rw [sealsAfter, hall, seals, ← hseals]
        rfl
      · rw [outAfter, hwritten, out]
        exact (List.prefix_append_right_inj new.headerBytes).mpr hpart
      · intro hr
        cases q with
        | error e => cases hr
        | ok b =>
          rw [outAfter, hwritten, out, hwhole ⟨b, rfl⟩]
          exact ⟨(hdone b rfl).2, rfl⟩

end Run

end CryptoFlex
