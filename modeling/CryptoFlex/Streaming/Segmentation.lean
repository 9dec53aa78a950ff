import CryptoFlex.Streaming.DecryptRun
import CryptoFlex.Streaming.Failures

namespace CryptoFlex

open Lib World CryptoflexHeader

variable {H ι ω : Type} [Input ι] [Output ω]

/-- How a run of a stream reader ends, as its caller sees it. -/
inductive StreamOutcome
  | returned
  | downgraded
  | rejected
  | raised
  deriving DecidableEq

def outcomeOf : Except Exc Unit → StreamOutcome
  | .ok _ => .returned
  | .error e =>
    if e.isDowngradeError then .downgraded else if e.isDecryptionError then .rejected else .raised

/-- The run on the stream `i` and the run on `s` in memory end alike and write the same bytes. -/
def ReadsAlike (env : Env H) (handles : List H) (minProfile : Option PyStr) (rt : Runtime)
    (sink : ω) (i : ι) (s : Bytes) : Prop :=
  let onStream := (decryptStream env handles minProfile).run (World.start rt i sink)
  let inMemory := (decryptStream env handles minProfile).run (World.start rt (MemoryStream.mk s) sink)
  outcomeOf onStream.1 = outcomeOf inMemory.1 ∧ onStream.2.out = inMemory.2.out

/-- Writing `b` fails before any byte of it is written, and not with a `DowngradeError`. -/
def Refuses (sink : ω) (b : Bytes) : Prop :=
  ∃ e sink', Output.write b sink = (some (0, e), sink') ∧ e.isDowngradeError = false

/-- The first frame of a stream body opens: a chunk, which `sink` does not refuse, or an end mark
with nothing after it. -/
def FirstFrameOpens (aead : Aead) (k : StreamKey) (sink : ω) (body : Bytes) : Prop :=
  (∃ ct rest pt, (nextFrame 0 0).run body = .ok (.data ct, rest) ∧
    k.openCt aead 0 aadTagData ct = .ok pt ∧ ¬Refuses sink pt) ∨
  ∃ ct pt, (nextFrame 0 0).run body = .ok (.final ct, []) ∧
    k.openCt aead 0 aadTagFinal ct = .ok pt

/-- The first read of `i` cuts a header that the whole of `s` begins with, and under that header
`s` is a downgrade or begins with a frame that opens. -/
def HeaderCut (env : Env H) (handles : List H) (minProfile : Option PyStr) (rt : Runtime)
    (sink : ω) (i : ι) (s : Bytes) : Prop :=
  ∃ initial i' e h n, Input.read maxHeaderSize i = (.ok initial, i') ∧
    fromBytes initial = .error e ∧ fromBytes (s.take maxHeaderSize) = .ok (h, n) ∧
    ((∃ e rt', (unlock env handles minProfile h).run rt = (.error e, rt') ∧
        e.isDowngradeError = true) ∨
      ∃ nonce key rt', (unlock env handles minProfile h).run rt = (.ok (nonce, key), rt') ∧
        FirstFrameOpens env.aead ⟨key, s.take n, nonce⟩ sink (s.drop n))

theorem nextFrame_notDowngrade (seq total : Nat) :
    (nextFrame seq total).Fails NotDowngrade := by
  have htake : ∀ n m, (Scanner.take n (.decryptionError m) : Scanner Exc UInt8 Bytes).Fails
      NotDowngrade := fun n _ => Scanner.Fails.take n rfl
  have hfail : ∀ (α : Type) m, (Scanner.fail (.decryptionError m) : Scanner Exc UInt8 α).Fails
      NotDowngrade := fun _ _ => Scanner.Fails.fail rfl
  have hlength : ∀ b, (Scanner.ofExcept (unpack 4 b) : Scanner Exc UInt8 Nat).Fails
      NotDowngrade := fun _ => Scanner.Fails.ofExcept fun _ => unpack_notDowngrade
  apply ((htake 1 _).bind fun _ b _ _ => Scanner.Fails.ofExcept fun _ => index_notDowngrade).bind
  intro _ frameType _ _
  apply Scanner.Fails.ite
  · apply Scanner.Fails.bind
    · apply (hfail _ _).ite
      apply (htake 4 _).bind
      intro _ lengthBytes _ _
      apply (hlength lengthBytes).bind
      intro _ ctLen _ _
      apply (hfail _ _).ite
      apply (hfail _ _).ite
      apply (htake ctLen _).bind
      intro _ ct _ _
      exact Scanner.Fails.pure _
    · intro _ f _ _
      exact Scanner.Fails.pure _
  · apply Scanner.Fails.ite
    · apply Scanner.Fails.bind
      · apply (htake 4 _).bind
        intro _ lengthBytes _ _
        apply (hlength lengthBytes).bind
        intro _ ctLen _ _
        apply (hfail _ _).ite
        exact htake ctLen _
      · intro _ ct _ _
        exact Scanner.Fails.pure _
    · exact hfail _ _

theorem openCt_notDowngrade {aead : Aead} (ha : aead.Documented) {k : StreamKey} {seq : Nat}
    {tag ct : Bytes} {e : Exc} (h : k.openCt aead seq tag ct = .error e) : NotDowngrade e := by
  unfold StreamKey.openCt at h
  rcases bind_eq_error.mp h with h | ⟨nonce, -, h⟩
  · exact deriveChunkNonce_notDowngrade h
  rcases bind_eq_error.mp h with h | ⟨aad, -, h⟩
  · exact deriveChunkAad_notDowngrade h
  · exact notDowngrade_covers e (ha.decrypt_raises _ _ _ _ _ h)

theorem outcomeOf_collapse (r : Except Exc Unit) :
    outcomeOf (r.mapError Exc.collapse) = .rejected ↔ ∃ e, r = .error e ∧ NotDowngrade e := by
  cases r with
  | ok u => simp [Except.mapError, outcomeOf]
  | error e =>
    have hd := Exc.collapse_isDecryptionError e
    rw [Except.mapError, outcomeOf, Exc.collapse_isDowngradeError, hd]
    cases hdown : e.isDowngradeError <;> simp [NotDowngrade, hdown]

theorem checkDowngrade_isDecryptionError {env : Env H} {h : CryptoflexHeader}
    {minProfile : Option PyStr} {e : Exc} (hc : checkDowngrade env h minProfile = .error e) :
    e.isDecryptionError = true := by
  unfold checkDowngrade at hc
  split at hc
  · cases hc
  · split at hc
    · split at hc <;> cases hc
      rfl
    · cases hc
      rfl

/-- Only failures of the package's own kind leave the prologue. -/
theorem unlock_isDecryptionError {env : Env H} {handles : List H} {minProfile : Option PyStr}
    {h : CryptoflexHeader} {rt rt' : Runtime} {e : Exc}
    (hu : (unlock env handles minProfile h).run rt = (.error e, rt')) :
    e.isDecryptionError = true := by
  have hpost : Eff.Post (unlock env handles minProfile h) rt fun r _ =>
      ∀ e, r = .error e → e.isDecryptionError = true := by
    unfold unlock
    apply Eff.Post.bind
    cases hc : checkDowngrade env h minProfile with
    | error e =>
      apply Eff.Post.of_eq rfl
      intro e' he
      cases he
      exact checkDowngrade_isDecryptionError hc
    | ok u =>
      apply Eff.Post.of_eq rfl
      cases h.nonce with
      | none =>
        intro e he
        cases he
        rfl
      | some baseNonce =>
        apply Eff.Post.bind
        apply Eff.Post.tryCatch
        apply Eff.Post.of_eq rfl
        split
        · intro e he
          cases he
        · intro e he
          cases he
          exact Exc.collapse_isDecryptionError _
  exact hpost.elim hu e rfl

section Runs

variable {env : Env H} {handles : List H} {minProfile : Option PyStr} {rt : Runtime}
  {sink : ω} {initial initial' s : Bytes} {r r' : Except Exc Unit} {out out' : Bytes}

/-- Once the same header is parsed, the first read no longer matters. -/
theorem StreamRun.agree (ha : env.aead.Documented) {p : CryptoflexHeader × Nat}
    (hp : fromBytes initial = .ok p) (hp' : fromBytes initial' = .ok p)
    (h : StreamRun env handles minProfile rt sink initial s r out)
    (h' : StreamRun env handles minProfile rt sink initial' s r' out') : r = r' ∧ out = out' := by
  cases h with
  | noHeader parsed => rw [hp] at parsed; cases parsed
  | locked parsed refused =>
    rw [hp] at parsed
    cases parsed
    cases h' with
    | noHeader parsed' => rw [hp'] at parsed'; cases parsed'
    | locked parsed' refused' =>
      rw [hp'] at parsed'
      cases parsed'
      rw [refused] at refused'
      cases refused'
      exact ⟨rfl, rfl⟩
    | uninit parsed' accepted' _ =>
      rw [hp'] at parsed'
      cases parsed'
      rw [refused] at accepted'
      cases accepted'
    | unlocked parsed' accepted' _ _ =>
      rw [hp'] at parsed'
      cases parsed'
      rw [refused] at accepted'
      cases accepted'
  | uninit _ accepted refused =>
    rw [init_of_unlock ha accepted] at refused
    cases refused
  | unlocked parsed accepted _ decoded =>
    rw [hp] at parsed
    cases parsed
    cases h' with
    | noHeader parsed' => rw [hp'] at parsed'; cases parsed'
    | locked parsed' refused' =>
      rw [hp'] at parsed'
      cases parsed'
      rw [accepted] at refused'
      cases refused'
    | uninit _ accepted' refused' =>
      rw [init_of_unlock ha accepted'] at refused'
      cases refused'
    | unlocked parsed' accepted' _ decoded' =>
      rw [hp'] at parsed'
      cases parsed'
      rw [accepted] at accepted'
      cases accepted'
      obtain ⟨rfl, rfl⟩ := decoded.unique decoded'
      exact ⟨rfl, rfl⟩

theorem StreamRun.rejected {e : Exc} (hp : fromBytes initial = .error e)
    (h : StreamRun env handles minProfile rt sink initial s r out) :
    outcomeOf r = .rejected ∧ out = [] := by
  cases h with
  | noHeader _ => exact ⟨rfl, rfl⟩
  | locked parsed _ => rw [hp] at parsed; cases parsed
  | uninit parsed _ _ => rw [hp] at parsed; cases parsed
  | unlocked parsed _ _ _ => rw [hp] at parsed; cases parsed

/-- The first frame opens exactly if decoding and writing the body does more than fail. -/
theorem firstFrameOpens_iff {aead : Aead} (ha : aead.Documented) {k : StreamKey} {body : Bytes}
    {chunks : List Bytes} {ending : Except Exc Bytes}
    (h : Decodes aead k 0 0 body chunks ending) (sink : ω) :
    FirstFrameOpens aead k sink body ↔
      ¬((∃ e, ((writeAll chunks sink).1 >>= fun _ => ending >>= noTrailing) = .error e ∧
          NotDowngrade e) ∧
        (writeAll chunks sink).2 = []) := by
  unfold FirstFrameOpens
  cases h with
  | malformed frame =>
    simp [frame, writeAll, nextFrame_notDowngrade _ _ _ _ frame]
  | @rejected _ _ _ rest f e frame opened =>
    have hnot := openCt_notDowngrade ha opened
    cases f with
    | data ct =>
      have ho : k.openCt aead 0 aadTagData ct = .error e := opened
      simp [frame, ho, writeAll, hnot]
    | final ct =>
      have ho : k.openCt aead 0 aadTagFinal ct = .error e := opened
      simp [frame, ho, writeAll, hnot]
  | @data _ _ _ rest ct pt chunks _ frame opened more =>
    have hlen := StreamKey.openCt_length ha opened
    have hvalid : DataLimits 0 0 ct := (nextFrame_eq_ok frame).2
    have hpos := hvalid.nonempty
    have hne : pt ≠ [] := by
      intro hnil
      rw [hnil, List.length_nil] at hlen
      omega
    rcases hw : Output.write pt sink with ⟨_ | ⟨n, e⟩, sink'⟩
    · simp [frame, opened, Refuses, writeAll, hw, hne]
    · have hrefuses : Refuses sink pt ↔ n = 0 ∧ NotDowngrade e := by
        unfold Refuses NotDowngrade
        rw [hw]
        aesop
      simp [frame, opened, hrefuses, writeAll, hw, hne, and_comm]
  | @final _ _ _ rest ct pt frame opened =>
    have hnot : NotDowngrade trailingData := rfl
    by_cases hr : rest = []
    · simp [frame, opened, writeAll, noTrailing, hr]
    · simp [frame, writeAll, noTrailing, hr, hnot]

/-- How the run in memory ends when it finds a header that the other run has not. -/
theorem StreamRun.rejected_iff (ha : env.aead.Documented) {h : CryptoflexHeader} {n : Nat}
    (hp : fromBytes initial = .ok (h, n))
    (hrun : StreamRun env handles minProfile rt sink initial s r out) :
    outcomeOf r = .rejected ∧ out = [] ↔
      ¬((∃ e rt', (unlock env handles minProfile h).run rt = (.error e, rt') ∧
          e.isDowngradeError = true) ∨
        ∃ nonce key rt', (unlock env handles minProfile h).run rt = (.ok (nonce, key), rt') ∧
          FirstFrameOpens env.aead ⟨key, s.take n, nonce⟩ sink (s.drop n)) := by
  cases hrun with
  | noHeader parsed => rw [hp] at parsed; cases parsed
  | @locked _ _ e _ parsed refused =>
    rw [hp] at parsed
    cases parsed
    have hd := unlock_isDecryptionError refused
    cases hdown : e.isDowngradeError <;> simp [outcomeOf, refused, hd, hdown]
  | uninit _ accepted refused =>
    rw [init_of_unlock ha accepted] at refused
    cases refused
  | @unlocked _ _ nonce key _ chunks ending parsed accepted _ decoded =>
    rw [hp] at parsed
    cases parsed
    rw [outcomeOf_collapse]
    simp only [accepted, Prod.mk.injEq, reduceCtorEq, false_and, exists_false, false_or,
      Except.ok.injEq]
    constructor
    · intro hrej hcase
      obtain ⟨_, _, _, ⟨⟨rfl, rfl⟩, rfl⟩, hopens⟩ := hcase
      exact (firstFrameOpens_iff ha decoded sink).mp hopens hrej
    · intro hnot
      by_contra hrej
      exact hnot ⟨nonce, key, _, ⟨⟨rfl, rfl⟩, rfl⟩, (firstFrameOpens_iff ha decoded sink).mpr hrej⟩

end Runs

/-- What both runs start from: the first read of each. -/
theorem first_reads {i : ι} {s : Bytes} (hi : Delivers i s) : ∃ initial t i',
    Input.read maxHeaderSize i = (.ok initial, i') ∧ s = initial ++ t ∧ Delivers i' t ∧
      ∀ p, fromBytes initial = .ok p → fromBytes (s.take maxHeaderSize) = .ok p := by
  obtain ⟨initial, t, i', hread, rfl, hlen, -, ht⟩ := hi.read (n := maxHeaderSize) (by decide)
  refine ⟨initial, t, i', hread, rfl, ht, ?_⟩
  intro p hp
  obtain ⟨h, n⟩ := p
  obtain ⟨hn, hr⟩ := fromBytes_eq_ok.mp hp
  have htake := fromBytes_of_reads hr (initial.drop n ++ t.take (maxHeaderSize - initial.length))
  rw [← List.append_assoc, List.take_append_drop, List.length_take, Nat.min_eq_left hn] at htake
  rw [List.take_append, List.take_of_length_le hlen]
  exact htake

theorem readsAlike_of_not_headerCut {env : Env H} (ha : env.aead.Documented) {handles : List H}
    {minProfile : Option PyStr} {rt : Runtime} {sink : ω} {i : ι} {s : Bytes}
    (hi : Delivers i s) (hcut : ¬HeaderCut env handles minProfile rt sink i s) :
    ReadsAlike env handles minProfile rt sink i s := by
  obtain ⟨initial, t, i', hread, rfl, ht, hsame⟩ := first_reads hi
  have hstream := decryptStream_streamRun env handles minProfile hread ht rt sink
  have hmemory := decryptStream_inMemory env handles minProfile rt sink (initial ++ t)
  unfold ReadsAlike
  dsimp only
  cases hp : fromBytes initial with
  | ok p =>
    obtain ⟨heq, hout⟩ := hstream.agree ha hp (hsame p hp) hmemory
    exact ⟨congrArg outcomeOf heq, hout⟩
  | error e =>
    obtain ⟨hrej, hnil⟩ := hstream.rejected hp
    rw [hrej, hnil]
    cases hp' : fromBytes ((initial ++ t).take maxHeaderSize) with
    | error e' =>
      obtain ⟨hrej', hnil'⟩ := hmemory.rejected hp'
      exact ⟨hrej'.symm, hnil'.symm⟩
    | ok p =>
      obtain ⟨h, n⟩ := p
      obtain ⟨hrej', hnil'⟩ := (hmemory.rejected_iff ha hp').mpr fun hcase =>
        hcut ⟨initial, i', e, h, n, hread, hp, hp', hcase⟩
      exact ⟨hrej'.symm, hnil'.symm⟩

theorem HeaderCut.not_readsAlike {env : Env H} (ha : env.aead.Documented) {handles : List H}
    {minProfile : Option PyStr} {rt : Runtime} {sink : ω} {i : ι} {s : Bytes}
    (hi : Delivers i s) (hcut : HeaderCut env handles minProfile rt sink i s) :
    ¬ReadsAlike env handles minProfile rt sink i s := by
  obtain ⟨initial, t, i', hread, rfl, ht, hsame⟩ := first_reads hi
  have hstream := decryptStream_streamRun env handles minProfile hread ht rt sink
  have hmemory := decryptStream_inMemory env handles minProfile rt sink (initial ++ t)
  obtain ⟨initial', i'', e, h, n, hread', hp, hp', hcase⟩ := hcut
  rw [hread] at hread'
  cases hread'
  obtain ⟨hrej, hnil⟩ := hstream.rejected hp
  intro halike
  have hrej' := halike.1.symm.trans hrej
  have hnil' := halike.2.symm.trans hnil
  exact (hmemory.rejected_iff ha hp').mp ⟨hrej', hnil'⟩ hcase

/-- Reading in other pieces makes no difference unless the first read cuts the header of a stream
that would get past its first frame. -/
theorem decryptStream_readsAlike_iff (env : Env H) (ha : env.aead.Documented) (handles : List H)
    (minProfile : Option PyStr) (rt : Runtime) (sink : ω) (i : ι) (s : Bytes)
    (hi : Delivers i s) :
    ReadsAlike env handles minProfile rt sink i s ↔
      ¬HeaderCut env handles minProfile rt sink i s :=
  ⟨fun halike hcut => hcut.not_readsAlike ha hi halike, readsAlike_of_not_headerCut ha hi⟩

/-- A stream without chunks: the header of a key derived from the all-zero public key, and the
end mark. -/
def emptyStreamHeader : CryptoflexHeader :=
  { profileId := "classical_only", components := [("x25519", List.replicate 32 1)]
    nonce := some (List.replicate 12 0) }

def emptyStreamHeaderBytes : Bytes :=
  magic ++ [2, 14] ++ "classical_only".toByteArray.data.toList ++ [1, 6] ++
    "x25519".toByteArray.data.toList ++ [0, 32] ++ List.replicate 32 1 ++ List.replicate 12 0

def emptyStream : Bytes :=
  emptyStreamHeaderBytes ++ frameBytes frameTypeFinal (List.replicate 16 0)

theorem emptyStreamHeader_toBytes :
    emptyStreamHeader.toBytes = .ok emptyStreamHeaderBytes := by decide +kernel

def zeroHandle : PrivateHandle Bytes Bytes := .x25519 (List.replicate 32 0)

theorem emptyStream_unlock :
    ((unlock (xorEnv zeroTagAead) [zeroHandle] none emptyStreamHeader).run zeroRuntime).1 =
      .ok (List.replicate 12 0, List.replicate 32 1) := by
  decide +kernel

theorem emptyStream_reads : scanHeader.Reads emptyStreamHeaderBytes emptyStreamHeader := by
  apply reads_toBytes emptyStreamHeader_toBytes
  refine ⟨by decide, by decide, goodIds_nil.mpr ⟨by decide, by decide⟩⟩

/-- A stream of which a part has arrived, and the rest comes one byte a read. -/
structure Pipe where
  arrived : Bytes
  rest : Bytes

instance : Input Pipe where
  read n s :=
    if s.arrived = [] then (.ok (s.rest.take (min n 1)), ⟨[], s.rest.drop (min n 1)⟩)
    else (.ok (s.arrived.take n), ⟨s.arrived.drop n, s.rest⟩)

theorem pipe_delivers (arrived rest : Bytes) : Delivers (Pipe.mk arrived rest) (arrived ++ rest) := by
  refine ⟨fun i bs => i.arrived ++ i.rest = bs, ?_, rfl⟩
  rintro ⟨arrived, rest⟩ bs rfl n hn
  by_cases harrived : arrived = []
  · subst harrived
    obtain ⟨chunk, more, i', hread, hsplit, hle, hnil, hrest⟩ := (drip_delivers rest).read hn
    cases hread
    refine ⟨_, _, _, rfl, (List.take_append_drop (min n 1) rest).symm, hle, ?_, rfl⟩
    exact hnil
  · refine ⟨arrived.take n, arrived.drop n ++ rest, ⟨arrived.drop n, rest⟩, if_neg harrived, ?_, ?_,
      ?_, rfl⟩
    · rw [← List.append_assoc, List.take_append_drop]
    · rw [List.length_take]
      omega
    · intro hnil
      rw [List.take_eq_nil_iff] at hnil
      exact absurd hnil (by simp [harrived]; omega)

theorem decryptStream_readsAlike_pipe :
    ReadsAlike (xorEnv zeroTagAead) [zeroHandle] none zeroRuntime BytesSink.mk
      (Pipe.mk emptyStreamHeaderBytes (frameBytes frameTypeFinal (List.replicate 16 0)))
      emptyStream := by
  apply (decryptStream_readsAlike_iff (xorEnv zeroTagAead) zeroTagAead_correct.toDocumented
    [zeroHandle] none zeroRuntime BytesSink.mk _ emptyStream (pipe_delivers _ _)).mpr
  rintro ⟨initial, i', e, h, n, hread, hparse, -⟩
  cases hread
  have hheader := fromBytes_of_reads emptyStream_reads []
  rw [List.append_nil] at hheader
  rw [List.take_of_length_le (by decide), hheader] at hparse
  cases hparse

/-- A read of one byte cuts this header; an in-memory stream gives it whole. -/
theorem emptyStream_headerCut :
    HeaderCut (xorEnv zeroTagAead) [zeroHandle] none zeroRuntime BytesSink.mk
      (Drip.mk emptyStream) emptyStream := by
  have hfull : fromBytes (emptyStream.take maxHeaderSize) =
      .ok (emptyStreamHeader, emptyStreamHeaderBytes.length) := by
    rw [List.take_of_length_le (by decide)]
    exact fromBytes_of_reads emptyStream_reads _
  have hopens : (nextFrame 0 0).run (frameBytes frameTypeFinal (List.replicate 16 0)) =
      .ok (.final (List.replicate 16 0), []) := by
    have hvalid : (Frame.final (List.replicate 16 0)).Valid 0 0 := rfl
    have hrun := nextFrame_reads hvalid []
    rwa [List.append_nil] at hrun
  refine ⟨_, _, .headerParseError "missing or invalid cryptoflex header magic", _, _, rfl, rfl,
    hfull, Or.inr ⟨_, _, _, Prod.ext emptyStream_unlock rfl, Or.inr ⟨List.replicate 16 0, [], ?_, ?_⟩⟩⟩
  · rw [emptyStream, List.drop_left]
    exact hopens
  · rfl

theorem decryptStream_drip_emptyStream :
    Delivers (Drip.mk emptyStream) emptyStream ∧
      ¬ReadsAlike (xorEnv zeroTagAead) [zeroHandle] none zeroRuntime BytesSink.mk
        (Drip.mk emptyStream) emptyStream :=
  ⟨drip_delivers _, emptyStream_headerCut.not_readsAlike zeroTagAead_correct.toDocumented
    (drip_delivers _)⟩

end CryptoFlex
