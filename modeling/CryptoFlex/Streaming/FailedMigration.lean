import CryptoFlex.Streaming.Segmentation
import CryptoFlex.Streaming.Simulation

namespace CryptoFlex

open Lib World CryptoflexHeader

section Failed

variable {H : Type} (env : Env H)

/-- `decrypt_stream` raises on `s`, whatever it is to write to. -/
def Rejects (handles : List H) (s : Bytes) : Prop :=
  ∀ (ω : Type) [Output ω] (rt : Runtime) (sink : ω), ∃ e w,
    (decryptStream env handles none).run (World.start rt (MemoryStream.mk s) sink) =
      (.error e, w) ∧ e.isDecryptionError = true

/-- However `s` arrives and wherever the migration writes: what it has written when it raises is
rejected under the new keys. -/
def FailsClean (handles : List H) (minProfile : Option PyStr) (newBundle : PublicBundle)
    (newHandles : List H) (rt : Runtime) (s : Bytes) : Prop :=
  ∀ (ι ω : Type) [Input ι] [Output ω] (i : ι) (sink : ω), Delivers i s → FailsEarly ω →
    ∀ e w, (migrateStream env handles newBundle minProfile).run (World.start rt i sink) =
      (.error e, w) → Rejects env newHandles w.out

/-- `s` is a stream that `decrypt_stream` accepts, with at least one byte behind it. -/
def AcceptedWithTrailing (handles : List H) (minProfile : Option PyStr) (rt : Runtime)
    (s : Bytes) : Prop :=
  ∃ front rest w, s = front ++ rest ∧ rest ≠ [] ∧
    (decryptStream env handles minProfile).run
      (World.start rt (MemoryStream.mk front) BytesSink.mk) = (.ok (), w)

/-- The new key can be derived, and its header is one that `decrypt_stream` can read. -/
def Rekeys (newBundle : PublicBundle) (rt : Runtime) : Prop :=
  ∃ new : StreamKey, new.DerivedFrom env newBundle rt ∧ new.headerBytes.length ≤ maxHeaderSize

variable {env}

theorem rejects_unparsed {handles : List H} {s : Bytes} {e : Exc}
    (h : fromBytes (s.take maxHeaderSize) = .error e) : Rejects env handles s := by
  intro ω _ rt sink
  have hread : Input.read maxHeaderSize (MemoryStream.mk s) =
    (.ok (s.take maxHeaderSize), MemoryStream.mk (s.drop maxHeaderSize)) := rfl
  obtain ⟨m, w, hrun, -⟩ := decryptStream_noHeader env handles none hread h rt sink
  exact ⟨_, w, hrun, rfl⟩

theorem rejects_nil (handles : List H) : Rejects env handles [] :=
  rejects_unparsed (e := .headerParseError "missing or invalid cryptoflex header magic") rfl

/-- A header that is not there in full is no header. -/
theorem rejects_cutHeader {handles : List H} {c : Bytes} {h : CryptoflexHeader}
    (hr : scanHeader.Reads c h) {s : Bytes} {m : Nat} (hm : m < c.length)
    (hs : s.take maxHeaderSize = c.take m) : Rejects env handles s := by
  obtain ⟨e, he⟩ := scanHeader_exact.reject_cut hr hm
  obtain ⟨e', he'⟩ : ∃ e', fromBytes (c.take m) = .error e' := by
    cases hf : fromBytes (c.take m) with
    | error e' => exact ⟨e', rfl⟩
    | ok r =>
      obtain ⟨h', n⟩ := r
      obtain ⟨hn, hr'⟩ := fromBytes_eq_ok.mp hf
      have hrun := hr' ((c.take m).drop n)
      rw [List.take_append_drop, he] at hrun
      cases hrun
  rw [← hs] at he'
  exact rejects_unparsed he'

/-- What does not decode to an end mark behind a new header is rejected. -/
theorem Transcript.rejects (hw : env.profiles.WellFormed) (ha : env.aead.Documented)
    {bundle : PublicBundle} {rt : Runtime} {t : Transcript} (ht : t.From env bundle rt)
    (hsize : t.key.headerBytes.length ≤ maxHeaderSize) {handles : List H}
    (hm : env.HandlesFor bundle handles) {written : Bytes}
    (hnot : ∀ chunks, ¬Decodes env.aead t.key 0 0 written chunks (.ok [])) :
    Rejects env handles (t.key.headerBytes ++ written) := by
  intro ω _ rt' sink
  obtain ⟨profile, hreg, hmatch⟩ := hm
  have hmin : NotStronger env none profile := by simp [NotStronger]
  obtain ⟨chunks, ending, w, hdec, hrun, -⟩ :=
    decryptStream_own hw ha ht hsize hreg hmatch hmin written rt' sink
  have hne : ending ≠ .ok [] := by
    rintro rfl
    exact hnot chunks hdec
  cases hr : ((writeAll chunks sink).1 >>= fun _ => ending >>= noTrailing) with
  | error e =>
    rw [hr] at hrun
    exact ⟨e.collapse, w, hrun, Exc.collapse_isDecryptionError e⟩
  | ok u =>
    exfalso
    obtain ⟨_, -, hlast⟩ := bind_eq_ok.mp hr
    obtain ⟨rest, rfl, hrest⟩ := bind_eq_ok.mp hlast
    apply hne
    by_cases hnil : rest = []
    · rw [hnil]
    · rw [noTrailing, if_neg hnil] at hrest
      cases hrest

/-- What decodes to an end mark behind an unlocked header is accepted. -/
theorem accepts_of_decodes (ha : env.aead.Documented) {handles : List H}
    {minProfile : Option PyStr} {c : Bytes} {h : CryptoflexHeader} (hr : scanHeader.Reads c h)
    (hc : c.length ≤ maxHeaderSize) {rt rt' : Runtime} {nonce key : Bytes}
    (hu : (unlock env handles minProfile h).run rt = (.ok (nonce, key), rt')) {body : Bytes}
    {chunks : List Bytes} (hdec : Decodes env.aead ⟨key, c, nonce⟩ 0 0 body chunks (.ok [])) :
    ∃ w, (decryptStream env handles minProfile).run
      (World.start rt (MemoryStream.mk (c ++ body)) BytesSink.mk) = (.ok (), w) := by
  obtain ⟨chunks', ending, w, hdec', hrun, -⟩ :=
    decryptStream_unlocked hr (memoryStream_read hc body) (memoryStream_fills _).delivers hu
      (init_of_unlock ha hu) BytesSink.mk
  rw [List.take_append_drop] at hdec'
  obtain ⟨rfl, rfl⟩ := hdec.unique hdec'
  rw [writeAll_reliable bytesSink_reliable] at hrun
  exact ⟨w, hrun⟩

/-- An accepted stream is an unlocked header with frames up to an end mark. -/
theorem decodes_of_accepts {handles : List H} {minProfile : Option PyStr} {s : Bytes}
    {rt : Runtime} {w : World MemoryStream BytesSink}
    (h : (decryptStream env handles minProfile).run
      (World.start rt (MemoryStream.mk s) BytesSink.mk) = (.ok (), w)) :
    ∃ c header nonce key rt' body chunks, s = c ++ body ∧ c.length ≤ maxHeaderSize ∧
      scanHeader.Reads c header ∧
      (unlock env handles minProfile header).run rt = (.ok (nonce, key), rt') ∧
      Decodes env.aead ⟨key, c, nonce⟩ 0 0 body chunks (.ok []) := by
  have hrun := decryptStream_inMemory env handles minProfile rt BytesSink.mk s
  rw [h] at hrun
  generalize hr : (Except.ok () : Except Exc Unit) = r at hrun
  generalize w.out = out at hrun
  cases hrun with
  | noHeader _ => cases hr
  | locked _ _ => cases hr
  | uninit _ _ _ => cases hr
  | @unlocked header n nonce key rt' chunks ending parsed accepted _ decoded =>
    rw [writeAll_reliable bytesSink_reliable] at hr
    have hending := noTrailing_eq_ok hr.symm
    subst hending
    obtain ⟨hn, hreads⟩ := fromBytes_eq_ok.mp parsed
    rw [List.length_take] at hn
    rw [List.take_take, Nat.min_eq_left (by omega)] at hreads
    refine ⟨s.take n, header, nonce, key, rt', s.drop n, chunks, (List.take_append_drop n s).symm,
      ?_, hreads, accepted, decoded⟩
    rw [List.length_take]
    omega

variable {handles newHandles : List H} {minProfile : Option PyStr} {newBundle : PublicBundle}
  {rt : Runtime}

/-- A loop that raises leaves frames without a complete end mark, or has met bytes behind an
authentic one. -/
theorem LoopEnd.raised {ι ω : Type} [Output ω] {old : StreamKey} {t : Transcript} (ha : env.aead.Correct)
    (hv : t.Valid env.aead) {bs : Bytes} {q : Except Exc Bool} {w w' : World ι ω}
    (hF : FailsEarly ω) (h : LoopEnd env old t.key 0 0 0 bs w t.chunks t.final q w')
    (hq : q ≠ .ok true) :
    (∃ written, w'.out = w.out ++ written ∧
      ∀ chunks, ¬Decodes env.aead t.key 0 0 written chunks (.ok [])) ∨
    ∃ rest, rest ≠ [] ∧ Decodes env.aead old 0 0 bs t.plaintexts (.ok rest) := by
  cases h with
  | @decoded ending _ decoded marked emitted =>
    obtain ⟨written, hout, -, hall⟩ := emitted.out
    have hframes : written = t.frames := hall trivial
    cases hfinal : t.final with
    | none =>
      refine Or.inl ⟨written, hout, ?_⟩
      intro chunks hdec
      have hpre : written <+: t.frames := hframes ▸ List.prefix_rfl
      have hsome := (Transcript.complete_of_decodes ha hv (decoded.limits ha.toDocumented) hpre
        hdec).1
      rw [hfinal] at hsome
      cases hsome
    | some ct =>
      rw [hfinal] at marked
      obtain ⟨rest, rfl⟩ := marked.mp rfl
      refine Or.inr ⟨rest, ?_, decoded⟩
      rintro rfl
      exact hq rfl
  | stopped fails limits emitted cut =>
    obtain ⟨written, hout, hpre, -⟩ := emitted.out
    refine Or.inl ⟨written, hout, ?_⟩
    intro chunks hdec
    obtain ⟨hsome, hwhole, -⟩ := Transcript.complete_of_decodes ha hv limits hpre hdec
    obtain ⟨ct, hct⟩ := Option.isSome_iff_exists.mp hsome
    have hlen := (StreamKey.openCt_of_sealPt ha (hv.final ct hct)).1
    have hne : ct ≠ [] := by
      rintro rfl
      cases hlen
    have hshort := cut hF ct hct hne
    rw [hout, hwhole, List.length_append] at hshort
    exact absurd hshort (lt_irrefl _)

theorem LoopEnd.out {ι ω : Type} [Output ω] {old new : StreamKey} {seq newSeq total : Nat}
    {bs : Bytes} {chunks : List (Bytes × Bytes)} {final : Option Bytes} {q : Except Exc Bool}
    {w w' : World ι ω} (h : LoopEnd env old new seq newSeq total bs w chunks final q w') :
    ∃ written, w'.out = w.out ++ written := by
  cases h with
  | decoded _ _ emitted =>
    obtain ⟨written, hout, -⟩ := emitted.out
    exact ⟨written, hout⟩
  | stopped _ _ emitted _ =>
    obtain ⟨written, hout, -⟩ := emitted.out
    exact ⟨written, hout⟩

/-- What decodes to an end mark with bytes behind it is an accepted stream with trailing data. -/
theorem acceptedWithTrailing_of_decodes (ha : env.aead.Documented) {initial t rest : Bytes}
    (hlen : initial.length ≤ maxHeaderSize) {rt' : Runtime} {p : Prologue}
    (hp : (parsePrologue env handles minProfile initial).run rt = (.ok p, rt'))
    {chunks : List Bytes} (hrest : rest ≠ [])
    (hdec : Decodes env.aead ⟨p.rawRootKey, p.headerBytes, p.baseNonce⟩ 0 0
      (p.unconsumedInitial ++ t) chunks (.ok rest)) :
    AcceptedWithTrailing env handles minProfile rt (initial ++ t) := by
  obtain ⟨header, n, hparse, hunlock, hheader, hunconsumed⟩ := parsePrologue_eq_ok hp
  obtain ⟨hn, hreads⟩ := fromBytes_eq_ok.mp hparse
  obtain ⟨front, hfront, hdec'⟩ := hdec.front
  rw [← hheader] at hreads
  have hsize : p.headerBytes.length ≤ maxHeaderSize := by
    rw [hheader, List.length_take]
    omega
  obtain ⟨w, hrun⟩ := accepts_of_decodes ha hreads hsize hunlock hdec'
  refine ⟨p.headerBytes ++ front, rest, w, ?_, hrest, hrun⟩
  rw [List.append_assoc, ← hfront, hheader, hunconsumed, ← List.append_assoc,
    List.take_append_drop]

/-- The failures are clean where no accepted stream stands in front of further bytes. -/
theorem migrateStream_failsClean (hw : env.profiles.WellFormed) (ha : env.aead.Correct)
    (hm : env.HandlesFor newBundle newHandles) {s : Bytes}
    (hnot : ¬(AcceptedWithTrailing env handles minProfile rt s ∧ Rekeys env newBundle rt)) :
    FailsClean env handles minProfile newBundle newHandles rt s := by
  intro ι ω _ _ i sink hi hF e w hrun
  obtain ⟨initial, t, i', hread, rfl, hlen, -, ht⟩ := hi.read (by decide : 0 < maxHeaderSize)
  rcases hp : (parsePrologue env handles minProfile initial).run rt with ⟨_ | p, rt'⟩
  · obtain ⟨w', hrefused, hout⟩ := migrateStream_refused newBundle hread hp sink
    rw [hrun] at hrefused
    cases hrefused
    rw [hout]
    exact rejects_nil newHandles
  by_cases hnew : ∃ new : StreamKey, new.DerivedFrom env newBundle rt
  swap
  · obtain ⟨e', w', hunready, hout⟩ := migrateStream_unready hread hp hnew sink
    rw [hrun] at hunready
    cases hunready
    rw [hout]
    exact rejects_nil newHandles
  obtain ⟨new, hnew⟩ := hnew
  obtain ⟨d, rt₁, hderive, hbytes, -⟩ := id hnew
  obtain ⟨profile, encs, nonce, hd⟩ := deriveRootKey_eq_ok hderive
  have hreads : scanHeader.Reads new.headerBytes d.header := hd.reads hw hbytes
  have hne : new.headerBytes ≠ [] := by
    have hne := reads_ne_nil hreads []
    rwa [List.append_nil] at hne
  obtain ⟨r, w', hend, hcase⟩ := migrateStream_end ha.toDocumented hread ht hp hnew sink
  rw [hrun] at hend
  cases hend
  rcases hcase with ⟨o, o', n, e', hfailed, -, hout⟩ | ⟨chunks, final, q, w₁, w₂, hr, hfrom, hend, h₁, h₂⟩
  · have hn : n < new.headerBytes.length := hF _ _ _ _ _ hfailed hne
    apply rejects_cutHeader hreads (m := min maxHeaderSize n) (by omega)
    rw [hout, List.take_take]
  · rw [h₂]
    by_cases hsize : new.headerBytes.length ≤ maxHeaderSize
    · have hq : q ≠ .ok true := by
        rintro rfl
        cases hr
      rcases hend.raised (t := ⟨new, chunks, final⟩) ha hfrom.valid hF hq with
        ⟨written, hout, hframes⟩ | ⟨rest, hrest, hdec⟩
      · rw [hout, h₁]
        exact Transcript.rejects hw ha.toDocumented hfrom hsize hm hframes
      · have hcase := acceptedWithTrailing_of_decodes ha.toDocumented hlen hp hrest hdec
        exact absurd ⟨hcase, new, hnew, hsize⟩ hnot
    · obtain ⟨written, hout⟩ := hend.out
      apply rejects_cutHeader hreads (m := maxHeaderSize) (by omega)
      rw [hout, h₁, List.take_append_of_le_length (by omega)]

/-- Behind an accepted stream, further bytes are noticed when the new end mark is written. -/
theorem migrateStream_acceptedWithTrailing (hw : env.profiles.WellFormed) (ha : env.aead.Correct)
    (hm : env.HandlesFor newBundle newHandles) {s : Bytes}
    (hs : AcceptedWithTrailing env handles minProfile rt s) (hnew : Rekeys env newBundle rt) :
    ¬FailsClean env handles minProfile newBundle newHandles rt s := by
  intro hclean
  obtain ⟨front, rest, w, rfl, hrest, hfront⟩ := hs
  obtain ⟨new, hnew, hsize⟩ := hnew
  obtain ⟨c, header, nonce, key, rt', body, chunks, rfl, hc, hreads, hunlock, hdec⟩ :=
    decodes_of_accepts hfront
  have hp : (parsePrologue env handles minProfile
      (c ++ (body ++ rest).take (maxHeaderSize - c.length))).run rt =
      (.ok ⟨nonce, c, (body ++ rest).take (maxHeaderSize - c.length), key⟩, rt') := by
    rw [parsePrologue_of_reads env handles minProfile hreads, Eff.bind_ok hunlock]
    rfl
  have hread := memoryStream_read hc (body ++ rest)
  obtain ⟨sealed, final, ending, w', hmigrate, hdec', hfrom, hfinal, hout⟩ :=
    migrateStream_looped ha hread (memoryStream_fills _).delivers hp hnew bytesSink_reliable
      BytesSink.mk
  dsimp only at hdec'
  rw [List.take_append_drop] at hdec'
  obtain ⟨-, rfl⟩ := (hdec.append rest).unique hdec'
  have hraised : ((.ok ([] ++ rest) : Except Exc Bytes) >>= noTrailing).mapError Exc.collapse =
      .error trailingData := by
    rw [ok_bind, noTrailing, List.nil_append, if_neg hrest]
    rfl
  rw [hraised, ← List.append_assoc] at hmigrate
  have hrejects := hclean _ _ (MemoryStream.mk (c ++ body ++ rest)) BytesSink.mk
    (memoryStream_fills _).delivers bytesSink_reliable.failsEarly _ _ hmigrate
  obtain ⟨e, w₁, hrejected, -⟩ := hrejects BytesSink rt BytesSink.mk
  obtain ⟨profile, hreg, hmatch⟩ := hm
  have hmin : NotStronger env none profile := by simp [NotStronger]
  obtain ⟨w₂, hcomplete, -⟩ := decryptStream_complete hw ha hfrom hsize (hfinal.mpr ⟨_, rfl⟩)
    (hdec'.limits ha.toDocumented) hreg hmatch hmin rt bytesSink_reliable BytesSink.mk
  rw [hout, hcomplete] at hrejected
  cases hrejected

end Failed

/-- A failed migration never leaves a stream that the new keys accept, except where an accepted
stream stands in front of further bytes: the end mark is written before they are looked for. -/
theorem migrateStream_failsClean_iff {K₁ K₂ : Type} (x : X25519 K₁) (o : Oqs K₂) (hkdf : Hkdf)
    (aead : Aead) (ha : aead.Correct) (handles : List (PrivateHandle K₁ K₂))
    (minProfile : Option PyStr) (newBundle : PublicBundle)
    (newHandles : List (PrivateHandle K₁ K₂))
    (hm : (builtinEnv x o hkdf aead).HandlesFor newBundle newHandles) (rt : Runtime) (s : Bytes) :
    FailsClean (builtinEnv x o hkdf aead) handles minProfile newBundle newHandles rt s ↔
      ¬(AcceptedWithTrailing (builtinEnv x o hkdf aead) handles minProfile rt s ∧
        Rekeys (builtinEnv x o hkdf aead) newBundle rt) := by
  have hw := profileRegistry_wellFormed x o
  refine ⟨?_, migrateStream_failsClean hw ha hm⟩
  rintro hclean ⟨hs, hnew⟩
  exact migrateStream_acceptedWithTrailing hw ha hm hs hnew hclean

/-- The header of `emptyStream`, one chunk, and no end mark. -/
def cutStream : Bytes :=
  emptyStreamHeaderBytes ++ frameBytes frameTypeData (7 :: List.replicate 16 0)

theorem cutStream_decodes : ∃ e,
    Decodes zeroTagAead ⟨List.replicate 32 1, emptyStreamHeaderBytes, List.replicate 12 0⟩ 0 0
      (frameBytes frameTypeData (7 :: List.replicate 16 0)) [[7]] (.error e) := by
  have hvalid : (Frame.data (7 :: List.replicate 16 0)).Valid 0 0 :=
    ⟨by decide, by decide, by decide, by decide⟩
  have hread := nextFrame_reads hvalid []
  rw [List.append_nil] at hread
  have hend : (nextFrame 1 1).run [] = .error _ := rfl
  exact ⟨_, Decodes.data hread rfl (Decodes.malformed hend)⟩

theorem cutStream_notAccepted :
    ¬AcceptedWithTrailing (xorEnv zeroTagAead) [zeroHandle] none zeroRuntime cutStream := by
  rintro ⟨front, rest, w, hs, -, hrun⟩
  obtain ⟨c, header, nonce, key, rt', body, chunks, rfl, -, hreads, hunlock, hdec⟩ :=
    decodes_of_accepts hrun
  rw [List.append_assoc] at hs
  -- both readings of the header take the same bytes
  have hheader := emptyStream_reads (frameBytes frameTypeData (7 :: List.replicate 16 0))
  have hheader' := hreads (body ++ rest)
  rw [← hs, cutStream, hheader] at hheader'
  obtain ⟨rfl, hbody⟩ := Prod.mk.inj (Except.ok.inj hheader')
  rw [cutStream, hbody] at hs
  obtain rfl := List.append_cancel_right hs
  have hkey := emptyStream_unlock
  rw [hunlock] at hkey
  cases hkey
  obtain ⟨e, hcut⟩ := cutStream_decodes
  have hmore := hdec.append rest
  rw [← hbody] at hmore
  obtain ⟨-, hending⟩ := hcut.unique hmore
  cases hending

theorem migrateStream_failsClean_cutStream :
    FailsClean (xorEnv zeroTagAead) [zeroHandle] none zeroBundle zeroHandles zeroRuntime cutStream ∧
    ∃ e w, (migrateStream (xorEnv zeroTagAead) [zeroHandle] zeroBundle none).run
      (World.start zeroRuntime (MemoryStream.mk cutStream) BytesSink.mk) = (.error e, w) := by
  constructor
  · apply (migrateStream_failsClean_iff xorX25519 xorOqs xorHkdf zeroTagAead zeroTagAead_correct
      [zeroHandle] none zeroBundle zeroHandles (zeroHandles_for zeroTagAead) zeroRuntime
      cutStream).mpr
    rintro ⟨haccepted, -⟩
    exact cutStream_notAccepted haccepted
  · have hc : emptyStreamHeaderBytes.length ≤ maxHeaderSize := by decide
    have hunlock : (unlock (xorEnv zeroTagAead) [zeroHandle] none emptyStreamHeader).run
        zeroRuntime = (.ok (List.replicate 12 0, List.replicate 32 1), _) :=
      Prod.ext emptyStream_unlock rfl
    obtain ⟨chunks, final, ending, w, hrun, hdec, -⟩ := migrateStream_looped zeroTagAead_correct
      (memoryStream_read hc _) (memoryStream_fills _).delivers
      (parsePrologue_unlocked emptyStream_reads _ hunlock) (zeroKey_derivedFrom zeroTagAead)
      bytesSink_reliable BytesSink.mk
    dsimp only at hdec
    rw [List.take_append_drop] at hdec
    obtain ⟨e, hcut⟩ := cutStream_decodes
    obtain ⟨-, rfl⟩ := hdec.unique hcut
    exact ⟨_, w, hrun⟩

theorem emptyStream_decodes :
    Decodes zeroTagAead ⟨List.replicate 32 1, emptyStreamHeaderBytes, List.replicate 12 0⟩ 0 0
      (frameBytes frameTypeFinal (List.replicate 16 0)) [] (.ok []) := by
  have hvalid : (Frame.final (List.replicate 16 0)).Valid 0 0 := rfl
  have hread := nextFrame_reads hvalid []
  rw [List.append_nil] at hread
  exact Decodes.final hread rfl

/-- One byte behind an empty stream, and the migration that refuses it has finished its copy. -/
theorem migrateStream_emptyStream_trailing :
    ¬FailsClean (xorEnv zeroTagAead) [zeroHandle] none zeroBundle zeroHandles zeroRuntime
      (emptyStream ++ [0]) := by
  have hunlock := Prod.ext emptyStream_unlock rfl
  obtain ⟨w, hrun⟩ := accepts_of_decodes zeroTagAead_correct.toDocumented emptyStream_reads
    (by decide) hunlock emptyStream_decodes
  have haccepted : AcceptedWithTrailing (xorEnv zeroTagAead) [zeroHandle] none zeroRuntime
      (emptyStream ++ [0]) := ⟨emptyStream, [0], w, rfl, by simp, hrun⟩
  exact migrateStream_acceptedWithTrailing (profileRegistry_wellFormed _ _) zeroTagAead_correct
    (zeroHandles_for zeroTagAead) haccepted ⟨zeroKey, zeroKey_derivedFrom _, by decide⟩

end CryptoFlex
