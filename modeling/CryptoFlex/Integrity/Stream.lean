import CryptoFlex.Integrity.Blob
import Mathlib.Data.List.GetD

namespace CryptoFlex

open Lib World CryptoflexHeader

/-- Where the headers can be read back, the associated data tells header, place and tag apart. -/
theorem aadAt_injective {k k' : StreamKey} {h h' : CryptoflexHeader}
    (hk : scanHeader.Reads k.headerBytes h) (hk' : scanHeader.Reads k'.headerBytes h')
    {seq seq' : Nat} (hseq : seq < 256 ^ 4) (hseq' : seq' < 256 ^ 4) {tag tag' : Bytes}
    (heq : k.aadAt seq tag = k'.aadAt seq' tag') :
    k.headerBytes = k'.headerBytes ∧ seq = seq' ∧ tag = tag' := by
  simp only [StreamKey.aadAt, List.append_assoc] at heq
  have hpre : k.headerBytes <+: k'.headerBytes ++ (beEncode 4 seq' ++ tag') := by
    rw [← heq]
    exact List.prefix_append _ _
  have hpre' : k'.headerBytes <+: k'.headerBytes ++ (beEncode 4 seq' ++ tag') :=
    List.prefix_append _ _
  have hheader : k.headerBytes = k'.headerBytes := by
    rcases List.prefix_or_prefix_of_prefix hpre hpre' with hle | hle
    · exact hk.prefix_free hk' hle
    · exact (hk'.prefix_free hk hle).symm
  rw [hheader] at heq
  have hrest := List.append_cancel_left heq
  obtain ⟨hcounter, htag⟩ := List.append_inj hrest (by simp)
  exact ⟨hheader, beEncode_injective hseq hseq' hcounter, htag⟩

theorem SealedFrom.place_lt {aead : Aead} {k : StreamKey} {seq i : Nat}
    {chunks : List (Bytes × Bytes)} {pt ct : Bytes} (h : SealedFrom aead k seq chunks)
    (hi : chunks[i]? = some (pt, ct)) : seq + i < 256 ^ 4 := by
  induction h generalizing i with
  | nil => cases hi
  | cons sealed more ih =>
    cases i with
    | zero => exact (StreamKey.sealPt_eq_ok sealed).1
    | succ i =>
      have hlt := ih hi
      omega

/-- A frame that is sealed in a transcript stands there at its own place: its header and type
cannot be others. -/
structure Transcript.Holds (t : Transcript) (k : StreamKey) (seq : Nat) (tag pt ct : Bytes) :
    Prop where
  header : k.headerBytes = t.key.headerBytes
  data : tag = aadTagData → t.chunks[seq]? = some (pt, ct)
  final : tag = aadTagFinal → t.final = some ct ∧ seq = t.chunks.length

theorem Transcript.Valid.holds {aead : Aead} {t : Transcript} (hv : t.Valid aead)
    {k : StreamKey} {h h' : CryptoflexHeader} (hk : scanHeader.Reads k.headerBytes h)
    (ht : scanHeader.Reads t.key.headerBytes h') {seq : Nat} (hseq : seq < 256 ^ 4)
    {tag pt ct : Bytes} (hmem : k.sealOf seq tag pt ct ∈ t.seals) : t.Holds k seq tag pt ct := by
  have htags : aadTagData ≠ aadTagFinal := by decide
  rcases t.mem_seals hmem with ⟨i, pt', ct', hi, heq⟩ | ⟨ct', hct, heq⟩
  · have hplace := hv.chunks.place_lt hi
    rw [Nat.zero_add] at hplace
    obtain ⟨hheader, rfl, rfl⟩ := aadAt_injective hk ht hseq hplace (congrArg Seal.aad heq)
    have hpt : pt = pt' := congrArg Seal.plaintext heq
    have hct : ct = ct' := congrArg Seal.ciphertext heq
    subst hpt hct
    exact ⟨hheader, fun _ => hi, fun htag => absurd htag htags⟩
  · have hplace := (StreamKey.sealPt_eq_ok (hv.final ct' hct)).1
    obtain ⟨hheader, rfl, rfl⟩ := aadAt_injective hk ht hseq hplace (congrArg Seal.aad heq)
    have hsame : ct = ct' := congrArg Seal.ciphertext heq
    subst hsame
    exact ⟨hheader, fun htag => absurd htag.symm htags, fun _ => ⟨hct, rfl⟩⟩

/-- What opens under `k` was sealed in `t`. -/
def OpensOnly (aead : Aead) (k : StreamKey) (t : Transcript) : Prop :=
  ∀ seq tag ct pt, k.openCt aead seq tag ct = .ok pt → t.Holds k seq tag pt ct

/-- Whatever the bytes are, they decode to chunks of the transcript in their order, and reach an
end mark only as the transcript's own frames. -/
theorem Decodes.forced {aead : Aead} {k : StreamKey} {t : Transcript} (ho : OpensOnly aead k t)
    {seq total : Nat} {bs : Bytes} {chunks : List Bytes} {ending : Except Exc Bytes}
    (hd : Decodes aead k seq total bs chunks ending) :
    chunks <+: t.plaintexts.drop seq ∧ ∀ rest, ending = .ok rest →
      k.headerBytes = t.key.headerBytes ∧ t.final.isSome ∧ chunks = t.plaintexts.drop seq ∧
        bs = dataFrames (t.chunks.drop seq) ++ finalFrame t.final ++ rest := by
  induction hd with
  | malformed _ => exact ⟨List.nil_prefix, nofun⟩
  | rejected _ _ => exact ⟨List.nil_prefix, nofun⟩
  | @data seq total bs rest ct pt chunks ending frame opened more ih =>
    have hplace := (ho _ _ _ _ opened).data rfl
    obtain ⟨hlt, hget⟩ := List.getElem?_eq_some_iff.mp hplace
    have hdrop : t.chunks.drop seq = (pt, ct) :: t.chunks.drop (seq + 1) := by
      rw [← hget]
      exact List.drop_eq_getElem_cons hlt
    have hplain : t.plaintexts.drop seq = pt :: t.plaintexts.drop (seq + 1) := by
      simp only [Transcript.plaintexts, ← List.map_drop, hdrop, List.map_cons]
    obtain ⟨hbytes, -⟩ := nextFrame_eq_ok frame
    obtain ⟨hpre, hend⟩ := ih
    rw [hplain]
    refine ⟨List.cons_prefix_cons.mpr ⟨rfl, hpre⟩, ?_⟩
    intro rest' hrest
    obtain ⟨hheader, hfinal, hchunks, hrestBytes⟩ := hend rest' hrest
    refine ⟨hheader, hfinal, by rw [hchunks], ?_⟩
    rw [hbytes, hrestBytes, hdrop]
    simp [dataFrames, Frame.bytes]
  | @final seq total bs rest ct pt frame opened =>
    refine ⟨List.nil_prefix, ?_⟩
    intro rest' hrest
    cases hrest
    have hholds := ho _ _ _ _ opened
    obtain ⟨hfinal, rfl⟩ := hholds.final rfl
    obtain ⟨hbytes, -⟩ := nextFrame_eq_ok frame
    refine ⟨hholds.header, by simp [hfinal], by simp [Transcript.plaintexts], ?_⟩
    rw [hbytes, hfinal]
    simp [dataFrames, finalFrame, Frame.bytes]

/-- Bytes of which no frame opens decode to nothing. -/
theorem Decodes.closed {aead : Aead} {k : StreamKey}
    (hk : ∀ seq tag ct pt, k.openCt aead seq tag ct ≠ .ok pt) {seq total : Nat} {bs : Bytes}
    {chunks : List Bytes} {ending : Except Exc Bytes}
    (hd : Decodes aead k seq total bs chunks ending) : chunks = [] ∧ ∃ e, ending = .error e := by
  cases hd with
  | malformed _ => exact ⟨rfl, _, rfl⟩
  | rejected _ _ => exact ⟨rfl, _, rfl⟩
  | data _ opened _ => exact absurd opened (hk _ _ _ _)
  | final _ opened => exact absurd opened (hk _ _ _ _)

section History

variable {H : Type} {env : Env H} {history : List (Call H)}

/-- Under a header's key nothing opens but the frames of one run of the history, if any. -/
theorem opensOnly_of_ideal (hw : env.profiles.WellFormed) (hkeys : DistinctRootKeys env history)
    (hideal : IdealAead env history) {k : StreamKey} {h : CryptoflexHeader}
    (hk : scanHeader.Reads k.headerBytes h) :
    (∀ seq tag ct pt, k.openCt env.aead seq tag ct ≠ .ok pt) ∨
      ∃ c ∈ history, ∃ t, Call.Streams env c t ∧ OpensOnly env.aead k t := by
  by_cases hopen : ∃ seq tag ct pt, k.openCt env.aead seq tag ct = .ok pt
  · obtain ⟨seq, tag, ct, pt, hopen⟩ := hopen
    obtain ⟨-, hdecrypt⟩ := StreamKey.openCt_eq_ok hopen
    obtain ⟨c, hc, hsl⟩ := hideal _ _ _ _ _ hdecrypt
    rcases Call.seals_cases hw c hsl with ⟨p, s, -, hseal⟩ | ⟨t, hstream, hvalid, h', hread⟩
    · obtain ⟨header, hheader⟩ := hseal.header
      exact absurd hheader (aadAt_not_header hk)
    · refine Or.inr ⟨c, hc, t, hstream, ?_⟩
      intro seq' tag' ct' pt' hopen'
      obtain ⟨hseq', hdecrypt'⟩ := StreamKey.openCt_eq_ok hopen'
      obtain ⟨c', hc', hsl'⟩ := hideal _ _ _ _ _ hdecrypt'
      have hsame : c' = c := hkeys.same_call hc' hc hsl' hsl rfl
      rw [hsame, hstream.seals_eq] at hsl'
      exact hvalid.holds hk hread hseq' hsl'
  · refine Or.inl ?_
    intro seq tag ct pt h
    exact hopen ⟨seq, tag, ct, pt, h⟩

theorem Limits.singleton {seq total : Nat} {chunks : List Bytes} (h : Limits seq total chunks)
    {b : UInt8} (hb : chunks.flatten = [b]) : chunks = [[b]] := by
  cases h with
  | nil => cases hb
  | @cons _ _ pt chunks _ nonempty _ _ more =>
    obtain ⟨c, pt, rfl⟩ := List.exists_cons_of_ne_nil nonempty
    simp only [List.flatten_cons, List.cons_append, List.cons.injEq, List.append_eq_nil_iff] at hb
    obtain ⟨rfl, rfl, hrest⟩ := hb
    cases more with
    | nil => rfl
    | cons _ nonempty' _ _ _ =>
      rw [List.flatten_cons, List.append_eq_nil_iff] at hrest
      exact absurd hrest.1 nonempty'

theorem logAead_openCt {log : List Seal} {k : StreamKey} {seq : Nat} {tag pt ct : Bytes}
    (h : k.sealPt (logAead log) seq tag pt = .ok ct) (hmem : k.sealOf seq tag pt ct ∈ log) :
    ct.length = pt.length + 16 ∧ k.openCt (logAead log) seq tag ct = .ok pt := by
  have hsealed : k.sealPt zeroTagAead seq tag pt = .ok ct := h
  obtain ⟨hlen, hopen⟩ := StreamKey.openCt_of_sealPt zeroTagAead_correct hsealed
  refine ⟨hlen, ?_⟩
  obtain ⟨nonce, hn, hopen⟩ := bind_eq_ok.mp hopen
  obtain ⟨aad, ha, hdecrypt⟩ := bind_eq_ok.mp hopen
  obtain ⟨-, rfl⟩ := deriveChunkNonce_eq_ok hn
  obtain ⟨-, rfl⟩ := deriveChunkAad_eq_ok ha
  unfold StreamKey.openCt
  rw [hn, ok_bind, ha, ok_bind]
  simp only [logAead, hdecrypt, ok_bind]
  exact if_pos hmem

theorem logAead_encryptStream {ι ω : Type} [Input ι] [Output ω] (log : List Seal)
    (bundle : PublicBundle) (chunkSize : Int) :
    (encryptStream (xorEnv (logAead log)) bundle chunkSize : Eff Exc (World ι ω) Unit) =
      encryptStream (xorEnv zeroTagAead) bundle chunkSize := rfl

/-- A finished stream of one byte decodes where all its seals are in the log. -/
theorem Transcript.Valid.decodes_logged {log : List Seal} {t : Transcript}
    (hv : t.Valid (logAead log))
    (hlog : ∀ sl ∈ t.seals, sl ∈ log) {b : UInt8} (hb : t.plaintexts = [[b]]) {ct' : Bytes}
    (hfinal : t.final = some ct') : Decodes (logAead log) t.key 0 0 t.frames [[b]] (.ok []) := by
  obtain ⟨⟨pt, ct⟩, hchunks, rfl⟩ := List.map_eq_singleton_iff.mp hb
  have hseals : t.seals =
      [t.key.sealOf 0 aadTagData [b] ct, t.key.sealOf 1 aadTagFinal [] ct'] := by
    simp [Transcript.seals, chunkSeals, hchunks, hfinal]
  have hdata : t.key.sealPt (logAead log) 0 aadTagData [b] = .ok ct := by
    have hsealed := hv.chunks
    rw [hchunks] at hsealed
    cases hsealed with
    | cons sealed _ => exact sealed
  have hend : t.key.sealPt (logAead log) 1 aadTagFinal [] = .ok ct' := by
    have hsealed := hv.final ct' hfinal
    rw [hchunks] at hsealed
    exact hsealed
  obtain ⟨hlen, hopen⟩ := logAead_openCt hdata (hlog _ (by simp [hseals]))
  obtain ⟨hlen', hopen'⟩ := logAead_openCt hend (hlog _ (by simp [hseals]))
  have hvalid : (Frame.data ct).Valid 0 0 := by
    constructor <;> simp [hlen, maxStreamDataFrames, maxChunkCiphertextSize,
      maxChunkPlaintextSize, maxStreamPlaintextSize]
  have hvalid' : (Frame.final ct').Valid 1 1 := by simp [Frame.Valid, hlen']
  have hframes : t.frames = (Frame.data ct).bytes ++ ((Frame.final ct').bytes ++ []) := by
    simp [Transcript.frames, dataFrames, finalFrame, Frame.bytes, hchunks, hfinal]
  rw [hframes]
  exact Decodes.data (nextFrame_reads hvalid _) hopen
    (Decodes.final (nextFrame_reads hvalid' []) hopen')

/-- A call that streams one byte for the zero key set. -/
def byteCall : Call (PrivateHandle Bytes Bytes) :=
  .encryptStream zeroRuntime (MemoryStream.mk [7]) BytesSink.mk zeroBundle 2

/-- Under a cipher that logs its seals the call returns and what it wrote decrypts. -/
theorem byteCall_decrypts : ∃ (log : List Seal) (w w' : World MemoryStream BytesSink),
    byteCall.seals (xorEnv (logAead log)) = log ∧
    (encryptStream (xorEnv (logAead log)) zeroBundle 2).run
      (World.start zeroRuntime (MemoryStream.mk [7]) BytesSink.mk) = (.ok (), w) ∧
    (decryptStream (xorEnv (logAead log)) zeroHandles none).run
      (World.start zeroRuntime (MemoryStream.mk w.out) BytesSink.mk) = (.ok (), w') := by
  have hpos : (0 : Int) < 2 := by decide
  have htwo : (2 : Int) ≤ maxChunkPlaintextSize := by decide
  have hp : Delivers (MemoryStream.mk [7]) [7] := (memoryStream_fills _).delivers
  obtain ⟨w, hrun⟩ := encryptStream_returns bytesSink_reliable zeroTagAead_correct
    (zeroKey_derivedFrom zeroTagAead) hpos htwo hp (by decide) BytesSink.mk
  obtain ⟨r, w₁, hrun₁, hcase⟩ := encryptStream_run (xorEnv (logAead w.rt.seals)) zeroBundle 2
    zeroRuntime (MemoryStream.mk [7]) BytesSink.mk
  rw [logAead_encryptStream, hrun] at hrun₁
  cases hrun₁
  rcases hcase with ⟨⟨e, he⟩, -⟩ | ⟨t, ht, hseals, hwritten, hplain⟩
  · cases he
  obtain ⟨hfinal, hout⟩ := hwritten.whole rfl
  obtain ⟨ct, hct⟩ := Option.isSome_iff_exists.mp hfinal
  obtain ⟨hflat, hlimits⟩ := hplain hfinal [7] hp
  have hmem : ∀ sl ∈ t.seals, sl ∈ w.rt.seals := by
    intro sl hsl
    rw [hseals]
    exact List.mem_append_right _ hsl
  have hdec := ht.valid.decodes_logged hmem (hlimits.singleton hflat) hct
  obtain ⟨profile, hreg, hm⟩ := zeroHandles_for (logAead w.rt.seals)
  have hmin : NotStronger (xorEnv (logAead w.rt.seals)) none profile := nofun
  obtain ⟨d, rt₁, hderive, hbytes, -, -⟩ := ht.derived
  obtain ⟨chunks, ending, w', hdec', hdecrypt, -⟩ := decryptStream_own
    (profileRegistry_wellFormed _ _) (logAead_documented _) ht
    (zeroKey_headerSize _ d rt₁ _ hderive hbytes) hreg hm hmin t.frames zeroRuntime BytesSink.mk
  obtain ⟨rfl, rfl⟩ := hdec'.unique hdec
  rw [writeAll_reliable bytesSink_reliable] at hdecrypt
  refine ⟨w.rt.seals, w, w', ?_, ?_, ?_⟩
  · have hfresh : zeroRuntime.fresh = zeroRuntime := rfl
    simp only [byteCall, Call.seals, logAead_encryptStream, hfresh, hrun]
  · rw [logAead_encryptStream]
    exact hrun
  · rw [hout]
    exact hdecrypt

/-- The outcome of a decryption whose key opens only the frames of `t`. -/
theorem OpensOnly.outcome {ω : Type} [Output ω] {aead : Aead} {k : StreamKey} {t : Transcript}
    (ho : OpensOnly aead k t) {s bs : Bytes} (hs : s = k.headerBytes ++ bs) {chunks : List Bytes}
    {ending : Except Exc Bytes} (hd : Decodes aead k 0 0 bs chunks ending) (sink : ω) :
    (((writeAll chunks sink).1 >>= fun _ => ending >>= noTrailing).mapError Exc.collapse = .ok () →
      t.final.isSome ∧ s = t.wire ∧ (writeAll chunks sink).2 = t.plaintexts.flatten) ∧
      ∃ n b, (writeAll chunks sink).2 = (t.plaintexts.take n).flatten ++ b ∧
        b <+: t.plaintexts.getD n [] ∧ (AllOrNothing ω → b = []) := by
  obtain ⟨hpre, hend⟩ := hd.forced ho
  rw [List.drop_zero] at hpre hend
  constructor
  · intro hr
    cases hwrite : (writeAll chunks sink).1 with
    | error e =>
      rw [hwrite] at hr
      cases hr
    | ok u =>
    cases hending : ending with
    | error e =>
      rw [hwrite, hending] at hr
      cases hr
    | ok rest =>
    rw [hwrite, hending, ok_bind, ok_bind, noTrailing] at hr
    obtain ⟨hheader, hfinal, hchunks, hbytes⟩ := hend rest hending
    by_cases hnil : rest = []
    · refine ⟨hfinal, ?_, ?_⟩
      · rw [hs, hbytes, hheader, hnil, List.append_nil]
        rfl
      · rw [writeAll_flatten hwrite, hchunks]
    · rw [if_neg hnil] at hr
      cases hr
  · obtain ⟨n, b, hn, hout, hpart, hatomic⟩ := writeAll_out chunks sink
    obtain ⟨tail, htail⟩ := hpre
    have htake : t.plaintexts.take n = chunks.take n := by
      rw [← htail, List.take_append_of_le_length hn]
    have hnext : b <+: t.plaintexts.getD n [] := by
      rw [← htail]
      by_cases hlt : n < chunks.length
      · rw [List.getD_append _ _ _ _ hlt]
        exact hpart
      · rw [List.getD_eq_default _ _ (by omega), List.prefix_nil] at hpart
        rw [hpart]
        exact List.nil_prefix
    exact ⟨n, b, by rw [hout, htake], hnext, hatomic⟩

/-- Where AES-GCM opens only what it has sealed and no two calls share a root key, a stream that
decrypts is all of one stream of the history, and a failed decryption has written chunks of one
stream of the history, from its first one on. -/
theorem decryptStream_integrity {K₁ K₂ : Type} (x : X25519 K₁) (o : Oqs K₂) (hkdf : Hkdf)
    (aead : Aead) (history : List (Call (PrivateHandle K₁ K₂)))
    (hkeys : DistinctRootKeys (builtinEnv x o hkdf aead) history)
    (hideal : IdealAead (builtinEnv x o hkdf aead) history)
    (handles : List (PrivateHandle K₁ K₂)) (minProfile : Option PyStr) {ι ω : Type} [Input ι]
    [Output ω] (rt : Runtime) (i : ι) (s : Bytes) (hs : Delivers i s) (sink : ω)
    (r : Except Exc Unit) (w : World ι ω)
    (hrun : (decryptStream (builtinEnv x o hkdf aead) handles minProfile).run
      (World.start rt i sink) = (r, w)) :
    (r = .ok () → ∃ c ∈ history, ∃ t, Call.Streams (builtinEnv x o hkdf aead) c t ∧
      t.final.isSome ∧ s = t.wire ∧ w.out = t.plaintexts.flatten) ∧
    ∀ e, r = .error e → w.out = [] ∨
      ∃ c ∈ history, ∃ t k b, Call.Streams (builtinEnv x o hkdf aead) c t ∧
        w.out = (t.plaintexts.take k).flatten ++ b ∧ b <+: t.plaintexts.getD k [] ∧
        (AllOrNothing ω → b = []) := by
  have hpos : 0 < maxHeaderSize := by decide
  obtain ⟨initial, rest, i', hread, rfl, -, -, hrest⟩ := hs.read hpos
  have hrun' := decryptStream_streamRun (builtinEnv x o hkdf aead) handles minProfile hread hrest
    rt sink
  rw [hrun] at hrun'
  generalize hout : w.out = out at hrun'
  dsimp only at hrun'
  cases hrun' with
  | noHeader parsed => exact ⟨nofun, fun _ _ => Or.inl rfl⟩
  | locked parsed refused => exact ⟨nofun, fun _ _ => Or.inl rfl⟩
  | uninit parsed accepted refused => exact ⟨nofun, fun _ _ => Or.inl rfl⟩
  | @unlocked h n nonce key rt' chunks ending parsed accepted cipher decoded =>
    obtain ⟨hn, hread'⟩ := fromBytes_eq_ok.mp parsed
    have hheader : scanHeader.Reads ((initial ++ rest).take n) h := by
      rw [List.take_append_of_le_length hn]
      exact hread'
    have hk : scanHeader.Reads (StreamKey.mk key ((initial ++ rest).take n) nonce).headerBytes h :=
      hheader
    rcases opensOnly_of_ideal (profileRegistry_wellFormed x o) hkeys hideal hk with
      hclosed | ⟨c, hc, t, hstream, ho⟩
    · obtain ⟨rfl, e, rfl⟩ := decoded.closed hclosed
      exact ⟨nofun, fun _ _ => Or.inl rfl⟩
    · have hsplit : initial ++ rest = (initial ++ rest).take n ++ (initial ++ rest).drop n :=
        (List.take_append_drop n _).symm
      obtain ⟨hok, k, b, hout, hpart, hatomic⟩ := ho.outcome hsplit decoded sink
      refine ⟨?_, fun _ _ => Or.inr ⟨c, hc, t, k, b, hstream, hout, hpart, hatomic⟩⟩
      intro hr
      exact ⟨c, hc, t, hstream, hok hr⟩

end History

theorem decryptStream_integrity_byte : ∃ (log : List Seal) (w w' : World MemoryStream BytesSink),
    (decryptStream (xorEnv (logAead log)) zeroHandles none).run
      (World.start zeroRuntime (MemoryStream.mk w.out) BytesSink.mk) = (.ok (), w') ∧
    ∃ c ∈ [byteCall], ∃ t, Call.Streams (xorEnv (logAead log)) c t ∧ t.final.isSome ∧
      w.out = t.wire ∧ w'.out = t.plaintexts.flatten := by
  obtain ⟨log, w, w', hseals, -, hdecrypt⟩ := byteCall_decrypts
  have hkeys : DistinctRootKeys (xorEnv (logAead log)) [byteCall] := List.pairwise_singleton _ _
  have hideal : IdealAead (xorEnv (logAead log)) [byteCall] := by
    intro key nonce ct aad plaintext hopen
    refine ⟨byteCall, List.mem_singleton_self _, ?_⟩
    rw [hseals]
    exact logAead_decrypt hopen
  obtain ⟨hok, -⟩ := decryptStream_integrity xorX25519 xorOqs xorHkdf (logAead log) [byteCall] hkeys
    hideal zeroHandles none zeroRuntime _ w.out (memoryStream_fills _).delivers BytesSink.mk _ w'
    hdecrypt
  exact ⟨log, w, w', hdecrypt, hok rfl⟩

end CryptoFlex
