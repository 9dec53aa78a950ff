import CryptoFlex.Streaming.FailedMigration

namespace CryptoFlex

open Lib World CryptoflexHeader

section Arrival

variable {ι : Type} [Input ι]

/-- Read `n` bytes at a time, `i` gives the chunks `cs`, and then it is `i'`. -/
inductive Arrives (n : Nat) : ι → List Bytes → ι → Prop
  | start (i : ι) : Arrives n i [] i
  | chunk {i i₁ i₂ : ι} {c : Bytes} {cs : List Bytes} (read : Input.read n i = (.ok c, i₁))
    (nonempty : c ≠ []) (more : Arrives n i₁ cs i₂) : Arrives n i (c :: cs) i₂

/-- No read gives more than it was asked for. -/
def ReadsAtMost (n : Nat) (i : ι) : Prop :=
  ∀ cs i', Arrives n i cs i' → ∀ c ∈ cs, c.length ≤ n

def NeverFails (n : Nat) (i : ι) : Prop :=
  ∀ cs i' e i'', Arrives n i cs i' → Input.read n i' ≠ (.error e, i'')

/-- Behind `seq` chunks with `total` bytes, more arrives than one stream may hold. -/
def OverLimit (n : Nat) (i : ι) (seq total : Nat) : Prop :=
  ∃ cs i', Arrives n i cs i' ∧
    (maxStreamDataFrames < seq + cs.length ∨ maxStreamPlaintextSize < total + cs.flatten.length)

variable {n : Nat} {i i₁ : ι} {c : Bytes}

theorem ReadsAtMost.head (h : ReadsAtMost n i) (read : Input.read n i = (.ok c, i₁)) :
    c.length ≤ n := by
  by_cases hc : c = []
  · rw [hc]
    exact Nat.zero_le n
  · exact h [c] i₁ (Arrives.chunk read hc (Arrives.start i₁)) c (by simp)

theorem ReadsAtMost.tail (h : ReadsAtMost n i) (read : Input.read n i = (.ok c, i₁))
    (nonempty : c ≠ []) : ReadsAtMost n i₁ := by
  intro cs i' hcs c' hc'
  exact h (c :: cs) i' (Arrives.chunk read nonempty hcs) c' (List.mem_cons_of_mem c hc')

theorem NeverFails.tail (h : NeverFails n i) (read : Input.read n i = (.ok c, i₁))
    (nonempty : c ≠ []) : NeverFails n i₁ := by
  intro cs i' e i'' hcs
  exact h (c :: cs) i' e i'' (Arrives.chunk read nonempty hcs)

/-- A chunk within the limits leaves the question to what follows it. -/
theorem overLimit_chunk {seq total : Nat} (read : Input.read n i = (.ok c, i₁))
    (nonempty : c ≠ []) (count : seq < maxStreamDataFrames)
    (fits : total + c.length ≤ maxStreamPlaintextSize) :
    OverLimit n i seq total ↔ OverLimit n i₁ (seq + 1) (total + c.length) := by
  constructor
  · rintro ⟨cs, i', harrives, hover⟩
    cases harrives with
    | start =>
      rw [List.length_nil, List.flatten_nil, List.length_nil] at hover
      omega
    | @chunk _ i₂ _ c' cs read' nonempty' more =>
      rw [read] at read'
      cases read'
      refine ⟨cs, i', more, ?_⟩
      rw [List.length_cons, List.flatten_cons, List.length_append] at hover
      omega
  · rintro ⟨cs, i', harrives, hover⟩
    refine ⟨c :: cs, i', Arrives.chunk read nonempty harrives, ?_⟩
    rw [List.length_cons, List.flatten_cons, List.length_append]
    omega

theorem not_overLimit_end {seq total : Nat} (read : Input.read n i = (.ok [], i₁))
    (count : seq ≤ maxStreamDataFrames) (fits : total ≤ maxStreamPlaintextSize) :
    ¬OverLimit n i seq total := by
  rintro ⟨cs, i', harrives, hover⟩
  cases harrives with
  | start =>
    rw [List.length_nil, List.flatten_nil, List.length_nil] at hover
    omega
  | chunk read' nonempty' more =>
    rw [read] at read'
    cases read'
    exact nonempty' rfl

end Arrival

def frameLimitExceeded : Exc :=
  .valueError ("stream DATA frame limit exceeded: maximum " ++
    s!"{maxStreamDataFrames} frames allowed per stream")

def sizeLimitExceeded : Exc :=
  .valueError ("stream plaintext size limit exceeded: maximum " ++
    s!"{maxStreamPlaintextSize} bytes allowed per stream")

def IsLimitError (e : Exc) : Prop := e = frameLimitExceeded ∨ e = sizeLimitExceeded

section Loop

variable {H ι ω : Type} [Input ι] [Output ω]

/-- Only the input stream has moved on. -/
def World.after (w : World ι ω) (i : ι) : World ι ω :=
  { w with reader := { w.reader with stream := i } }

/-- All that a pass can come to, by what its read gives. -/
inductive ChunkPass (env : Env H) (k : StreamKey) (n : Nat) (v : EncryptVars) (w : World ι ω) :
    Except Exc (EncryptVars ⊕ EncryptVars) → World ι ω → Prop
  | readFailed {e : Exc} {i : ι} (read : Input.read n w.reader.stream = (.error e, i)) :
    ChunkPass env k n v w (.error e) (w.after i)
  | finished {i : ι} (read : Input.read n w.reader.stream = (.ok [], i)) :
    ChunkPass env k n v w (.ok (.inr v)) (w.after i)
  | overLimit {chunk : Bytes} {i : ι} {e : Exc}
    (read : Input.read n w.reader.stream = (.ok chunk, i)) (nonempty : chunk ≠ [])
    (exceeds : maxStreamDataFrames < v.sequenceNumber + 1 ∨
      maxStreamPlaintextSize < v.totalPlaintextBytes + chunk.length)
    (limit : IsLimitError e) : ChunkPass env k n v w (.error e) (w.after i)
  | emitted {chunk : Bytes} {i : ι} {r : Except Exc Unit} {w' : World ι ω}
    (read : Input.read n w.reader.stream = (.ok chunk, i)) (nonempty : chunk ≠ [])
    (count : v.sequenceNumber < maxStreamDataFrames)
    (fits : v.totalPlaintextBytes + chunk.length ≤ maxStreamPlaintextSize)
    (run : (emitFrame env k v.sequenceNumber aadTagData frameTypeData chunk).run (w.after i) =
      (r, w')) :
    ChunkPass env k n v w (r.map fun _ => .inl {
      sequenceNumber := v.sequenceNumber + 1
      totalPlaintextBytes := v.totalPlaintextBytes + chunk.length }) w'

theorem encryptStep_chunkPass (env : Env H) (k : StreamKey) (n : Nat) (v : EncryptVars)
    (w : World ι ω) :
    Eff.Post (encryptStep env k.aesgcm k.headerBytes k.baseNonce n v) w
      (ChunkPass env k n v w) := by
  rw [encryptStep_eq]
  rcases hread : Input.read n w.reader.stream with ⟨r, i⟩
  have hinput : (readInput n : Eff Exc (World ι ω) Bytes).run w = (r, w.after i) := by
    simp only [readInput, onReader, Eff.run_zoom, StreamReader.readStream, hread, World.after]
  apply Eff.Post.bind
  apply Eff.Post.of_eq hinput
  cases r with
  | error e => exact ChunkPass.readFailed hread
  | ok chunk =>
    by_cases hc : chunk = []
    · rw [hc] at hread ⊢
      exact ChunkPass.finished hread
    dsimp only
    rw [if_neg hc]
    by_cases hcount : maxStreamDataFrames ≤ v.sequenceNumber
    · rw [if_pos hcount]
      exact ChunkPass.overLimit hread hc (Or.inl (by omega)) (Or.inl rfl)
    rw [if_neg hcount]
    by_cases hfits : maxStreamPlaintextSize < v.totalPlaintextBytes + chunk.length
    · rw [if_pos hfits]
      exact ChunkPass.overLimit hread hc (Or.inr hfits) (Or.inr rfl)
    rw [if_neg hfits]
    rcases hrun : (emitFrame env k v.sequenceNumber aadTagData frameTypeData chunk).run
      (w.after i) with ⟨r, w'⟩
    have hpass := ChunkPass.emitted hread hc (by omega) (by omega) hrun
    apply Eff.Post.bind
    apply Eff.Post.of_eq hrun
    cases r with
    | error e => exact hpass
    | ok u => exact hpass

/-- Where neither reads nor writes fail, the loop raises just if more than a stream may hold
arrives, and with a limit error. -/
theorem encryptLoop_limit {env : Env H} {k : StreamKey} (hworks : EmitWorks ι ω env k) {n : Nat}
    (hn : n ≤ maxChunkPlaintextSize) {v : EncryptVars} {w : World ι ω}
    (hreads : ReadsAtMost n w.reader.stream) (hok : NeverFails n w.reader.stream)
    (hcount : v.sequenceNumber ≤ maxStreamDataFrames)
    (hfits : v.totalPlaintextBytes ≤ maxStreamPlaintextSize) :
    Eff.Post ((encryptLoop env k.aesgcm k.headerBytes k.baseNonce n).toEff v) w fun r _ =>
      match r with
      | .error e => IsLimitError e ∧
        OverLimit n w.reader.stream v.sequenceNumber v.totalPlaintextBytes
      | .ok v' => v'.sequenceNumber ≤ maxStreamDataFrames ∧
        ¬OverLimit n w.reader.stream v.sequenceNumber v.totalPlaintextBytes := by
  induction v, w using (encryptLoop env k.aesgcm k.headerBytes k.baseNonce n :
    Loop Exc (World ι ω) EncryptVars EncryptVars).induction with
  | h v w ih =>
    have hpost := encryptStep_chunkPass env k n v w
    rcases hrun : (encryptStep env k.aesgcm k.headerBytes k.baseNonce n v).run w with ⟨r, w₁⟩
    have hstep : ((encryptLoop env k.aesgcm k.headerBytes k.baseNonce n).step v).run w =
      (r, w₁) := hrun
    have hpass := hpost.elim hrun
    cases hpass with
    | readFailed read => exact absurd read (hok [] _ _ _ (Arrives.start _))
    | finished read =>
      apply Eff.Post.of_eq (Loop.run_break _ hstep)
      exact ⟨hcount, not_overLimit_end read hcount hfits⟩
    | @overLimit chunk i e read nonempty exceeds limit =>
      apply Eff.Post.of_eq (Loop.run_raise _ hstep)
      refine ⟨limit, [chunk], i, Arrives.chunk read nonempty (Arrives.start i), ?_⟩
      simpa using exceeds
    | @emitted chunk i r _ read nonempty count fits run =>
      cases r with
      | error e =>
        have hsize : chunk.length ≤ maxChunkPlaintextSize := (hreads.head read).trans hn
        exact absurd ⟨_, _, _, run⟩ (hworks _ _ _ _ count.le hsize (by decide) (by decide))
      | ok u =>
        obtain ⟨r', w', hemit, hreader, -⟩ := emitFrame_emission env k v.sequenceNumber
          aadTagData frameTypeData chunk (w.after i)
        rw [run] at hemit
        cases hemit
        have hstream : w₁.reader.stream = i := congrArg (·.stream) hreader
        have hmore := ih _ w₁ hstep (by rw [hstream]; exact hreads.tail read nonempty)
          (by rw [hstream]; exact hok.tail read nonempty) count fits
        unfold Eff.Post at hmore ⊢
        rw [Loop.run_continue _ hstep]
        dsimp only at hmore
        rw [hstream] at hmore
        rw [overLimit_chunk read nonempty count fits]
        exact hmore

/-- However the loop ends, it has sealed chunks within the limits. -/
theorem encryptLoop_limits (env : Env H) (k : StreamKey) {n : Nat}
    (hn : n ≤ maxChunkPlaintextSize) {v : EncryptVars} {w : World ι ω}
    (hreads : ReadsAtMost n w.reader.stream) :
    Eff.Post ((encryptLoop env k.aesgcm k.headerBytes k.baseNonce n).toEff v) w fun r w' =>
      ∃ chunks, SealedFrom env.aead k v.sequenceNumber chunks ∧
        Emitted k v.sequenceNumber chunks none (∃ v', r = .ok v') w w' ∧
        Limits v.sequenceNumber v.totalPlaintextBytes (chunks.map Prod.fst) ∧
        ∀ v', r = .ok v' → v'.sequenceNumber = v.sequenceNumber + chunks.length := by
  induction v, w using (encryptLoop env k.aesgcm k.headerBytes k.baseNonce n :
    Loop Exc (World ι ω) EncryptVars EncryptVars).induction with
  | h v w ih =>
    have hpost := encryptStep_chunkPass env k n v w
    rcases hrun : (encryptStep env k.aesgcm k.headerBytes k.baseNonce n v).run w with ⟨r, w₁⟩
    have hstep : ((encryptLoop env k.aesgcm k.headerBytes k.baseNonce n).step v).run w =
      (r, w₁) := hrun
    have hpass := hpost.elim hrun
    cases hpass with
    | readFailed read =>
      apply Eff.Post.of_eq (Loop.run_raise _ hstep)
      exact ⟨[], SealedFrom.nil, Emitted.nothing rfl rfl, Limits.nil, nofun⟩
    | finished read =>
      apply Eff.Post.of_eq (Loop.run_break _ hstep)
      refine ⟨[], SealedFrom.nil, Emitted.nothing rfl rfl, Limits.nil, ?_⟩
      intro v' hv'
      cases hv'
      rfl
    | overLimit read nonempty exceeds limit =>
      apply Eff.Post.of_eq (Loop.run_raise _ hstep)
      exact ⟨[], SealedFrom.nil, Emitted.nothing rfl rfl, Limits.nil, nofun⟩
    | @emitted chunk i r _ read nonempty count fits run =>
      have hsize : chunk.length ≤ maxChunkPlaintextSize := (hreads.head read).trans hn
      have hone : ∀ ct : Bytes, Limits v.sequenceNumber v.totalPlaintextBytes
          ([(chunk, ct)].map Prod.fst) := by
        intro ct
        exact Limits.cons count nonempty hsize fits Limits.nil
      obtain ⟨r', w', hemit, hreader, -, hemission⟩ := emitFrame_emission env k
        v.sequenceNumber aadTagData frameTypeData chunk (w.after i)
      rw [run] at hemit
      cases hemit
      obtain ⟨chunks, hsealed, hemitted, hshape, hsome⟩ := hemission.data
      have hfrom : Emitted k v.sequenceNumber chunks none (r = .ok ()) w w₁ :=
        ⟨hemitted.seals, hemitted.out⟩
      cases r with
      | error e =>
        apply Eff.Post.of_eq (Loop.run_raise _ hstep)
        refine ⟨chunks, hsealed, hfrom.weaken nofun, ?_, nofun⟩
        rcases hshape with rfl | ⟨ct, rfl⟩
        · exact Limits.nil
        · exact hone ct
      | ok u =>
        obtain ⟨ct, rfl⟩ := hshape.resolve_left (hsome rfl)
        have hstream : w₁.reader.stream = i := congrArg (·.stream) hreader
        have hmore := ih _ w₁ hstep (by rw [hstream]; exact hreads.tail read nonempty)
        unfold Eff.Post at hmore ⊢
        rw [Loop.run_continue _ hstep]
        obtain ⟨more, hmoreSealed, hmoreEmitted, hmoreLimits, hseq⟩ := hmore
        refine ⟨[(chunk, ct)] ++ more, hsealed.append hmoreSealed,
          hfrom.append rfl hmoreEmitted, ?_, ?_⟩
        · exact Limits.cons count nonempty hsize fits hmoreLimits
        · intro v' hv'
          rw [hseq v' hv', List.length_append, List.length_singleton, Nat.add_assoc]

/-- The frames of a whole stream. -/
def encryptFrames (env : Env H) (n : Nat) (k : StreamKey) : Eff Exc (World ι ω) Unit := do
  let v ← (encryptLoop env k.aesgcm k.headerBytes k.baseNonce n).toEff {}
  emitFrame env k v.sequenceNumber aadTagFinal frameTypeFinal []

def ValidChunkSize (chunkSize : Int) : Prop :=
  0 < chunkSize ∧ chunkSize ≤ maxChunkPlaintextSize

/-- Behind the header the frames are all there is to the outcome and the output. -/
theorem encryptUnder_frames (env : Env H) {k : StreamKey}
    (hinit : env.aead.init k.aesgcm = .ok ()) {chunkSize : Int} (hsize : ValidChunkSize chunkSize)
    {w w₁ : World ι ω} (hheader : (write k.headerBytes).run w = (.ok (), w₁)) :
    ∃ w₂ : World ι ω, w₂.out = w₁.out ∧ w₂.reader = w₁.reader ∧ ∀ r w₃,
      (encryptFrames env chunkSize.toNat k).run w₂ = (r, w₃) →
        ∃ w', (encryptUnder env chunkSize k).run w = (r, w') ∧ w'.out = w₃.out := by
  let w₂ : World ι ω := { w₁ with rt := { w₁.rt with heap := w₁.rt.heap ++ [k.aesgcm] } }
  refine ⟨w₂, rfl, rfl, ?_⟩
  intro r w₃ hframes
  have hvalid : ¬(chunkSize ≤ 0 ∨ (maxChunkPlaintextSize : Int) < chunkSize) := by
    obtain ⟨hpos, hmax⟩ := hsize
    omega
  have hbody : ((do
      let key ← onRuntime (Runtime.readBuffer w₁.rt.heap.length)
      let aesgcm ← Eff.lift (AESGCM env.aead key)
      let v ← (encryptLoop env aesgcm k.headerBytes k.baseNonce chunkSize.toNat).toEff {}
      let finalNonce ← Eff.lift (deriveChunkNonce k.baseNonce v.sequenceNumber)
      let finalAad ← Eff.lift (deriveChunkAad k.headerBytes v.sequenceNumber aadTagFinal)
      let finalCt ← onRuntime (aesgcmEncrypt env aesgcm finalNonce [] finalAad)
      writeFrame frameTypeFinal finalCt) : Eff Exc (World ι ω) Unit).run w₂ = (r, w₃) := by
    rw [Eff.bind_ok (readBuffer_run (heap_getD_append _ _) w₂ rfl), AESGCM_of_init hinit,
      Eff.run_lift_ok_bind]
    exact hframes
  have hzero : (onRuntime (Runtime.zeroize w₁.rt.heap.length)).run w₃ =
    (.ok (), { w₃ with rt := ((Runtime.zeroize w₁.rt.heap.length).run w₃.rt).2 }) := rfl
  unfold encryptUnder
  rw [if_neg hvalid, Eff.bind_ok hheader, Eff.bind_ok (newBuffer_run _ _)]
  exact ⟨_, Eff.tryFinally_run hbody hzero, rfl⟩

/-- What a run leaves that raises among the frames does not decode to an end mark. -/
theorem encryptFrames_cut {env : Env H} (ha : env.aead.Correct) (hF : FailsEarly ω) {k : StreamKey}
    {n : Nat} (hn : n ≤ maxChunkPlaintextSize) {w w' : World ι ω}
    (hreads : ReadsAtMost n w.reader.stream) {e : Exc}
    (hrun : (encryptFrames env n k).run w = (.error e, w')) :
    ∃ written, w'.out = w.out ++ written ∧
      ∀ chunks, ¬Decodes env.aead k 0 0 written chunks (.ok []) := by
  have hloop := encryptLoop_limits (ω := ω) env k hn (v := {}) hreads
  unfold encryptFrames at hrun
  rcases hend : ((encryptLoop env k.aesgcm k.headerBytes k.baseNonce n).toEff {}).run w with
    ⟨e' | v, w₁⟩
  · obtain ⟨chunks, hsealed, hemitted, hlimits, -⟩ := hloop.elim hend
    rw [Eff.bind_error hend] at hrun
    cases hrun
    obtain ⟨written, hout, hpart, -⟩ := hemitted.out
    refine ⟨written, hout, ?_⟩
    intro plaintexts hdec
    have hvalid : Transcript.Valid env.aead ⟨k, chunks, none⟩ := ⟨hsealed, nofun⟩
    have hfinal := (Transcript.complete_of_decodes ha hvalid hlimits hpart hdec).1
    cases hfinal
  · obtain ⟨chunks, hsealed, hemitted, hlimits, hseq⟩ := hloop.elim hend
    rw [Eff.bind_ok hend] at hrun
    obtain ⟨r, w₂, hemit, -, -, hemission⟩ := emitFrame_emission env k v.sequenceNumber
      aadTagFinal frameTypeFinal [] w₁
    rw [hrun] at hemit
    cases hemit
    obtain ⟨final, hfinal, hlast, -, hcut⟩ := hemission.final
    have hplace : v.sequenceNumber = chunks.length := (hseq v rfl).trans (Nat.zero_add _)
    have hvalid : Transcript.Valid env.aead ⟨k, chunks, final⟩ := by
      refine ⟨hsealed, ?_⟩
      intro ct hct
      rw [← hplace]
      exact hfinal ct hct
    rw [hseq v rfl] at hlast
    have hall := hemitted.append ⟨v, rfl⟩ hlast
    rw [List.append_nil] at hall
    obtain ⟨written, hout, hpart, -⟩ := hall.out
    refine ⟨written, hout, ?_⟩
    intro plaintexts hdec
    obtain ⟨hsome, hwhole, -⟩ := Transcript.complete_of_decodes ha hvalid hlimits hpart hdec
    obtain ⟨ct, hct⟩ := Option.isSome_iff_exists.mp hsome
    have hlen := (StreamKey.openCt_of_sealPt ha (hvalid.final ct hct)).1
    have hne : ct ≠ [] := by
      rintro rfl
      cases hlen
    have hshort := hcut nofun hF ct hct hne
    obtain ⟨data, hdata, -, hdone⟩ := hemitted.out
    have hstart : w₁.out = w.out ++ dataFrames chunks := by
      rw [hdata, hdone ⟨v, rfl⟩]
      simp [finalFrame]
    have hlength : w'.out.length = w₁.out.length + (finalFrame final).length := by
      rw [hout, hwhole, hstart]
      simp [Transcript.frames]
      omega
    have hnone : dataFrames [] ++ finalFrame final = finalFrame final := rfl
    rw [hlength, hnone] at hshort
    exact absurd hshort (lt_irrefl _)

/-- Where neither reads nor writes fail, a run returns just if the plaintext fits a stream, and
raises a limit error if it does not. -/
theorem encryptStream_limit {env : Env H} (ha : env.aead.Correct) (hO : Reliable ω)
    {bundle : PublicBundle} {rt : Runtime} {k : StreamKey} (hk : k.DerivedFrom env bundle rt)
    {chunkSize : Int} (hsize : ValidChunkSize chunkSize) {i : ι}
    (hreads : ReadsAtMost chunkSize.toNat i) (hok : NeverFails chunkSize.toNat i) (sink : ω) :
    Eff.Post (encryptStream env bundle chunkSize) (World.start rt i sink) fun r _ => match r with
      | .error e => IsLimitError e ∧ OverLimit chunkSize.toNat i 0 0
      | .ok _ => ¬OverLimit chunkSize.toNat i 0 0 := by
  have hlengths := hk.lengths
  have hworks : EmitWorks ι ω env k :=
    emitWorks_of_reliable hO ha hlengths.1 hlengths.2 hk.header_length
  have hn : chunkSize.toNat ≤ maxChunkPlaintextSize := by
    have hmax := hsize.2
    omega
  obtain ⟨rt₁, hkey⟩ := newStream_derived (w := World.start rt i sink) noNonceToEncrypt hk
  obtain ⟨sink₁, hheader⟩ :=
    write_reliable hO k.headerBytes ({ World.start rt i sink with rt := rt₁ } : World ι ω)
  obtain ⟨w₂, -, hreader, hframes⟩ := encryptUnder_frames env (ha.init_ok _ hlengths.1) hsize hheader
  have hstream : w₂.reader.stream = i := congrArg (·.stream) hreader
  have hloop := encryptLoop_limit hworks hn (v := {}) (w := w₂) (by rw [hstream]; exact hreads)
    (by rw [hstream]; exact hok) (Nat.zero_le _) (Nat.zero_le _)
  rw [hstream] at hloop
  rw [encryptStream_eq]
  apply Eff.Post.bind
  apply Eff.Post.of_eq hkey
  rcases hend : ((encryptLoop env k.aesgcm k.headerBytes k.baseNonce chunkSize.toNat).toEff
    {}).run w₂ with ⟨e | v, w₃⟩
  · obtain ⟨w', hrun, -⟩ := hframes _ _ (Eff.bind_error hend _)
    exact Eff.Post.of_eq hrun (hloop.elim hend)
  · obtain ⟨hseq, hunder⟩ := hloop.elim hend
    rcases hemit : (emitFrame env k v.sequenceNumber aadTagFinal frameTypeFinal []).run w₃ with
      ⟨e | u, w₄⟩
    · exact absurd ⟨_, _, _, hemit⟩ (hworks _ _ _ _ hseq (Nat.zero_le _) (by decide) (by decide))
    · obtain ⟨w', hrun, -⟩ := hframes _ _ ((Eff.bind_ok hend _).trans hemit)
      exact Eff.Post.of_eq hrun hunder

/-- Whatever raises, and wherever a write fails: what is written by then is nothing, or the owner
of the keys is told so. -/
theorem encryptStream_raised {env : Env H} (hw : env.profiles.WellFormed) (ha : env.aead.Correct)
    (hF : FailsEarly ω) {bundle : PublicBundle} {handles : List H}
    (hm : env.HandlesFor bundle handles) {rt : Runtime} {chunkSize : Int} {i : ι}
    (hreads : ValidChunkSize chunkSize → ReadsAtMost chunkSize.toNat i) {sink : ω} {e : Exc}
    {w : World ι ω}
    (hrun : (encryptStream env bundle chunkSize).run (World.start rt i sink) = (.error e, w)) :
    w.out = [] ∨ Rejects env handles w.out := by
  rw [encryptStream_eq] at hrun
  obtain ⟨r, rt₁, -, hnew⟩ := newStream_run env bundle noNonceToEncrypt (World.start rt i sink)
  rcases hnew with ⟨e', hraise, -⟩ | ⟨k, hk, hkey⟩
  · rw [Eff.bind_error hraise] at hrun
    cases hrun
    exact Or.inl rfl
  rw [Eff.bind_ok hkey] at hrun
  by_cases hsize : ValidChunkSize chunkSize
  swap
  · have hinvalid : chunkSize ≤ 0 ∨ (maxChunkPlaintextSize : Int) < chunkSize := by
      unfold ValidChunkSize at hsize
      omega
    unfold encryptUnder at hrun
    rw [if_pos hinvalid] at hrun
    cases hrun
    exact Or.inl rfl
  obtain ⟨header, hheader⟩ := hk.reads hw
  have hne : k.headerBytes ≠ [] := by
    have hne := reads_ne_nil hheader []
    rwa [List.append_nil] at hne
  let w₀ : World ι ω := { World.start rt i sink with rt := rt₁ }
  rcases hs : Output.write k.headerBytes w₀.sink with ⟨_ | ⟨n, e'⟩, sink₁⟩
  swap
  · have hcut : n < k.headerBytes.length := hF _ _ _ _ _ hs hne
    have hunder : (encryptUnder env chunkSize k).run w₀ =
        (.error e', { w₀ with sink := sink₁, out := w₀.out ++ k.headerBytes.take n }) := by
      unfold encryptUnder
      rw [if_neg (by unfold ValidChunkSize at hsize; omega), Eff.bind_error (write_error hs)]
    rw [hunder] at hrun
    cases hrun
    apply Or.inr
    apply rejects_cutHeader hheader (m := min maxHeaderSize n) (by omega)
    change (k.headerBytes.take n).take maxHeaderSize = _
    rw [List.take_take]
  obtain ⟨w₂, hout₂, hreader, hframes⟩ :=
    encryptUnder_frames env (ha.init_ok _ hk.lengths.1) hsize (write_ok hs)
  rcases hbody : (encryptFrames env chunkSize.toNat k).run w₂ with ⟨r₂, w₃⟩
  obtain ⟨w', hunder, hout⟩ := hframes _ _ hbody
  rw [hunder] at hrun
  cases hrun
  have hstream : w₂.reader.stream = i := congrArg (·.stream) hreader
  have hn : chunkSize.toNat ≤ maxChunkPlaintextSize := by
    have hmax := hsize.2
    omega
  obtain ⟨written, hwritten, hcut⟩ := encryptFrames_cut ha hF hn
    (by rw [hstream]; exact hreads hsize) hbody
  have hstart : w₂.out = k.headerBytes := hout₂
  apply Or.inr
  rw [hout, hwritten, hstart]
  by_cases hlong : k.headerBytes.length ≤ maxHeaderSize
  · have hfrom : Transcript.From env bundle rt ⟨k, [], none⟩ := ⟨hk, SealedFrom.nil, nofun⟩
    exact Transcript.rejects hw ha.toDocumented hfrom hlong hm hcut
  · apply rejects_cutHeader hheader (m := maxHeaderSize) (by omega)
    rw [List.take_append_of_le_length (by omega)]

end Loop

/-- `encrypt_stream` never truncates silently: while reads and writes work it raises a limit error
just for what no stream may hold, and whatever raises, what it leaves is no stream. -/
theorem encryptStream_neverTruncates {K₁ K₂ : Type} (x : X25519 K₁) (o : Oqs K₂) (hkdf : Hkdf)
    (aead : Aead) (ha : aead.Correct) (bundle : PublicBundle)
    (handles : List (PrivateHandle K₁ K₂))
    (hm : (builtinEnv x o hkdf aead).HandlesFor bundle handles) {ι ω : Type} [Input ι] [Output ω]
    (i : ι) (sink : ω) (rt : Runtime) (chunkSize : Int)
    (hreads : ValidChunkSize chunkSize → ReadsAtMost chunkSize.toNat i) :
    (ValidChunkSize chunkSize → NeverFails chunkSize.toNat i → Reliable ω →
      (∃ k : StreamKey, k.DerivedFrom (builtinEnv x o hkdf aead) bundle rt) →
      ((∃ e w, (encryptStream (builtinEnv x o hkdf aead) bundle chunkSize).run
          (World.start rt i sink) = (.error e, w) ∧ IsLimitError e) ↔
        OverLimit chunkSize.toNat i 0 0)) ∧
    (FailsEarly ω → ∀ e w, (encryptStream (builtinEnv x o hkdf aead) bundle chunkSize).run
        (World.start rt i sink) = (.error e, w) →
      w.out = [] ∨ Rejects (builtinEnv x o hkdf aead) handles w.out) := by
  constructor
  · rintro hsize hok hO ⟨k, hk⟩
    have hlimit := encryptStream_limit ha hO hk hsize (hreads hsize) hok sink
    rcases hrun : (encryptStream (builtinEnv x o hkdf aead) bundle chunkSize).run
      (World.start rt i sink) with ⟨e | u, w⟩
    · obtain ⟨herr, hover⟩ := hlimit.elim hrun
      exact iff_of_true ⟨e, w, rfl, herr⟩ hover
    · have hunder := hlimit.elim hrun
      refine iff_of_false ?_ hunder
      rintro ⟨e, w', hraised, -⟩
      cases hraised
  · intro hF e w hrun
    exact encryptStream_raised (profileRegistry_wellFormed x o) ha hF hm hreads hrun

theorem endless_arrives (byte : UInt8) {n : Nat} (hn : 0 < n) (m : Nat) :
    Arrives n (Endless.mk byte) (List.replicate m (List.replicate n byte)) (Endless.mk byte) := by
  induction m with
  | zero => exact Arrives.start _
  | succ m ih =>
    have hne : List.replicate n byte ≠ [] := by
      simp
      omega
    exact Arrives.chunk rfl hne ih

theorem endless_readsAtMost (s : Endless) (n : Nat) : ReadsAtMost n s := by
  intro cs i' harrives
  induction harrives with
  | start => simp
  | chunk read nonempty more ih =>
    cases read
    simpa using ih

theorem endless_overLimit (byte : UInt8) {n : Nat} (hn : 0 < n) :
    OverLimit n (Endless.mk byte) 0 0 := by
  obtain ⟨m, hm⟩ : ∃ m, m = maxStreamDataFrames + 1 := ⟨_, rfl⟩
  refine ⟨_, _, endless_arrives byte hn m, Or.inl ?_⟩
  rw [List.length_replicate]
  omega

/-- A plaintext without an end is refused, and its first million frames with it. -/
theorem encryptStream_neverTruncates_endless : ∃ e w,
    (encryptStream (xorEnv zeroTagAead) zeroBundle 2).run
      (World.start zeroRuntime (Endless.mk 7) BytesSink.mk) = (.error e, w) ∧ IsLimitError e ∧
    Rejects (xorEnv zeroTagAead) zeroHandles w.out := by
  have hsize : ValidChunkSize 2 := ⟨by decide, by decide⟩
  have hok : NeverFails (2 : Int).toNat (Endless.mk 7) := by
    intro cs i' e i'' _ hread
    cases hread
  obtain ⟨hlimit, hraised⟩ := encryptStream_neverTruncates xorX25519 xorOqs xorHkdf zeroTagAead
    zeroTagAead_correct zeroBundle zeroHandles (zeroHandles_for zeroTagAead) (Endless.mk 7)
    BytesSink.mk zeroRuntime 2 (fun _ => endless_readsAtMost _ _)
  have hover : OverLimit (2 : Int).toNat (Endless.mk 7) 0 0 := endless_overLimit 7 (by decide)
  have hderived := zeroKey_derivedFrom zeroTagAead
  obtain ⟨e, w, hrun, herr⟩ :=
    (hlimit hsize hok bytesSink_reliable ⟨zeroKey, hderived⟩).mpr hover
  have hleft := hraised bytesSink_reliable.failsEarly e w hrun
  have hrejects : Rejects (xorEnv zeroTagAead) zeroHandles w.out := by
    rcases hleft with hnil | hrejects
    · rw [hnil]
      exact rejects_nil zeroHandles
    · exact hrejects
  have henv : xorEnv zeroTagAead = builtinEnv xorX25519 xorOqs xorHkdf zeroTagAead := rfl
  rw [← henv] at hrun
  exact ⟨e, w, hrun, herr, hrejects⟩

end CryptoFlex
