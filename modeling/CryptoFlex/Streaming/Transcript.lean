import CryptoFlex.Streaming.Decrypt

namespace CryptoFlex

open Lib

theorem deriveChunkNonce_eq_ok {baseNonce nonce : Bytes} {seq : Nat}
    (h : deriveChunkNonce baseNonce seq = .ok nonce) :
    seq < 256 ^ 4 ∧ nonce = baseNonce.take 8 ++ beEncode 4 seq := by
  unfold deriveChunkNonce at h
  split at h
  · cases h
  split at h
  · cases h
  · obtain ⟨counter, hc, h⟩ := bind_eq_ok.mp h
    cases h
    obtain ⟨hs, rfl⟩ := pack_eq_ok hc
    exact ⟨hs, rfl⟩

theorem deriveChunkAad_eq_ok {headerBytes tag aad : Bytes} {seq : Nat}
    (h : deriveChunkAad headerBytes seq tag = .ok aad) :
    seq < 256 ^ 4 ∧ aad = headerBytes ++ beEncode 4 seq ++ tag := by
  obtain ⟨counter, hc, h⟩ := bind_eq_ok.mp h
  cases h
  obtain ⟨hs, rfl⟩ := pack_eq_ok hc
  exact ⟨hs, rfl⟩

namespace StreamKey

/-- Seal `pt` at place `seq`. -/
def sealPt (aead : Aead) (k : StreamKey) (seq : Nat) (tag pt : Bytes) : Except Exc Bytes := do
  let nonce ← deriveChunkNonce k.baseNonce seq
  let aad ← deriveChunkAad k.headerBytes seq tag
  aead.encrypt k.aesgcm nonce pt aad

def nonceAt (k : StreamKey) (seq : Nat) : Bytes := k.baseNonce.take 8 ++ beEncode 4 seq

def aadAt (k : StreamKey) (seq : Nat) (tag : Bytes) : Bytes :=
  k.headerBytes ++ beEncode 4 seq ++ tag

/-- The seal that `sealPt` makes. -/
def sealOf (k : StreamKey) (seq : Nat) (tag pt ct : Bytes) : Seal :=
  { key := k.aesgcm, nonce := k.nonceAt seq, aad := k.aadAt seq tag, plaintext := pt
    ciphertext := ct }

variable {aead : Aead} {k : StreamKey} {seq : Nat} {tag pt ct : Bytes}

theorem sealPt_eq_ok (h : k.sealPt aead seq tag pt = .ok ct) :
    seq < 256 ^ 4 ∧ aead.encrypt k.aesgcm (k.nonceAt seq) pt (k.aadAt seq tag) = .ok ct := by
  obtain ⟨nonce, hn, h⟩ := bind_eq_ok.mp h
  obtain ⟨aad, ha, h⟩ := bind_eq_ok.mp h
  obtain ⟨hs, rfl⟩ := deriveChunkNonce_eq_ok hn
  obtain ⟨-, rfl⟩ := deriveChunkAad_eq_ok ha
  exact ⟨hs, h⟩

theorem openCt_eq_ok (h : k.openCt aead seq tag ct = .ok pt) :
    seq < 256 ^ 4 ∧ aead.decrypt k.aesgcm (k.nonceAt seq) ct (k.aadAt seq tag) = .ok pt := by
  obtain ⟨nonce, hn, h⟩ := bind_eq_ok.mp h
  obtain ⟨aad, ha, h⟩ := bind_eq_ok.mp h
  obtain ⟨hs, rfl⟩ := deriveChunkNonce_eq_ok hn
  obtain ⟨-, rfl⟩ := deriveChunkAad_eq_ok ha
  exact ⟨hs, h⟩

theorem openCt_of_sealPt (ha : aead.Correct) (h : k.sealPt aead seq tag pt = .ok ct) :
    ct.length = pt.length + 16 ∧ k.openCt aead seq tag ct = .ok pt := by
  obtain ⟨nonce, hn, h⟩ := bind_eq_ok.mp h
  obtain ⟨aad, haad, h⟩ := bind_eq_ok.mp h
  obtain ⟨hlen, hdec⟩ := ha.decrypt_encrypt _ _ _ _ _ h
  refine ⟨hlen, ?_⟩
  unfold openCt
  rw [hn, ok_bind, haad, ok_bind, hdec]

end StreamKey

/-- The stream limits, for chunks from place `seq` on behind `total` bytes. -/
inductive Limits : Nat → Nat → List Bytes → Prop
  | nil {seq total : Nat} : Limits seq total []
  | cons {seq total : Nat} {pt : Bytes} {chunks : List Bytes} (count : seq < maxStreamDataFrames)
    (nonempty : pt ≠ []) (size : pt.length ≤ maxChunkPlaintextSize)
    (fits : total + pt.length ≤ maxStreamPlaintextSize)
    (more : Limits (seq + 1) (total + pt.length) chunks) : Limits seq total (pt :: chunks)

theorem DataLimits.limits_cons {seq total : Nat} {pt ct : Bytes} {chunks : List Bytes}
    (h : DataLimits seq total ct) (hlen : ct.length = pt.length + 16)
    (more : Limits (seq + 1) (total + pt.length) chunks) : Limits seq total (pt :: chunks) := by
  have hpos := h.nonempty
  have hsize := h.size
  have htotal := h.total
  unfold maxChunkCiphertextSize at hsize
  refine Limits.cons h.count ?_ (by omega) (by omega) more
  intro hnil
  rw [hnil, List.length_nil] at hlen
  omega

/-- Chunks with their ciphertexts, sealed one after the other from place `seq` on. -/
inductive SealedFrom (aead : Aead) (k : StreamKey) : Nat → List (Bytes × Bytes) → Prop
  | nil {seq : Nat} : SealedFrom aead k seq []
  | cons {seq : Nat} {pt ct : Bytes} {chunks : List (Bytes × Bytes)}
    (sealed : k.sealPt aead seq aadTagData pt = .ok ct)
    (more : SealedFrom aead k (seq + 1) chunks) : SealedFrom aead k seq ((pt, ct) :: chunks)

def dataFrames (chunks : List (Bytes × Bytes)) : Bytes :=
  (chunks.map fun c => frameBytes frameTypeData c.2).flatten

/-- The bytes of an end mark that may not have been sealed. -/
def finalFrame (final : Option Bytes) : Bytes :=
  (final.toList.map (frameBytes frameTypeFinal)).flatten

def chunkSeals (k : StreamKey) : Nat → List (Bytes × Bytes) → List Seal
  | _, [] => []
  | seq, (pt, ct) :: chunks => k.sealOf seq aadTagData pt ct :: chunkSeals k (seq + 1) chunks

/-- What a stream writer has sealed: its chunks, and the end mark if it came to that. -/
structure Transcript where
  key : StreamKey
  chunks : List (Bytes × Bytes)
  final : Option Bytes

theorem mem_chunkSeals {k : StreamKey} {seq : Nat} {chunks : List (Bytes × Bytes)} {sl : Seal}
    (h : sl ∈ chunkSeals k seq chunks) :
    ∃ i pt ct, chunks[i]? = some (pt, ct) ∧ sl = k.sealOf (seq + i) aadTagData pt ct := by
  induction chunks generalizing seq with
  | nil => cases h
  | cons c chunks ih =>
    simp only [chunkSeals, List.mem_cons] at h
    rcases h with rfl | hmore
    · exact ⟨0, c.1, c.2, rfl, rfl⟩
    · obtain ⟨i, pt, ct, hi, hsl⟩ := ih hmore
      refine ⟨i + 1, pt, ct, hi, ?_⟩
      rw [hsl, Nat.add_assoc, Nat.add_comm 1]

namespace Transcript

def seals (t : Transcript) : List Seal :=
  chunkSeals t.key 0 t.chunks ++
    t.final.toList.map fun ct => t.key.sealOf t.chunks.length aadTagFinal [] ct

/-- A seal of a stream is that of the chunk at its place, or that of the end mark. -/
theorem mem_seals {t : Transcript} {sl : Seal} (h : sl ∈ t.seals) :
    (∃ i pt ct, t.chunks[i]? = some (pt, ct) ∧ sl = t.key.sealOf i aadTagData pt ct) ∨
      ∃ ct, t.final = some ct ∧ sl = t.key.sealOf t.chunks.length aadTagFinal [] ct := by
  rcases List.mem_append.mp h with hchunk | hfinal
  · have hmem := mem_chunkSeals hchunk
    simp only [Nat.zero_add] at hmem
    exact Or.inl hmem
  · obtain ⟨ct, hct, rfl⟩ := List.mem_map.mp hfinal
    exact Or.inr ⟨ct, Option.mem_toList.mp hct, rfl⟩

def plaintexts (t : Transcript) : List Bytes := t.chunks.map Prod.fst

def frames (t : Transcript) : Bytes :=
  dataFrames t.chunks ++ finalFrame t.final

/-- The stream of which the writer has written all, or a first part if it failed. -/
def wire (t : Transcript) : Bytes := t.key.headerBytes ++ t.frames

structure Valid (aead : Aead) (t : Transcript) : Prop where
  chunks : SealedFrom aead t.key 0 t.chunks
  final : ∀ ct, t.final = some ct → t.key.sealPt aead t.chunks.length aadTagFinal [] = .ok ct

end Transcript

section Decoding

variable {aead : Aead} {k : StreamKey} {seq total : Nat}

/-- The frames of sealed chunks decode to the chunks, whatever follows them. -/
theorem SealedFrom.decodes (ha : aead.Correct) {chunks : List (Bytes × Bytes)}
    (hs : SealedFrom aead k seq chunks) (hl : Limits seq total (chunks.map Prod.fst))
    {tail : Bytes} {more : List Bytes} {ending : Except Exc Bytes}
    (htail : Decodes aead k (seq + chunks.length)
      (total + (chunks.map Prod.fst).flatten.length) tail more ending) :
    Decodes aead k seq total (dataFrames chunks ++ tail) (chunks.map Prod.fst ++ more) ending := by
  induction hs generalizing total with
  | nil => exact htail
  | @cons seq pt ct chunks sealed rest ih =>
    cases hl with
    | cons count nonempty size fits hmore =>
      dsimp only at nonempty size fits hmore
      obtain ⟨hlen, hopen⟩ := StreamKey.openCt_of_sealPt ha sealed
      have hpos := List.length_pos_iff.mpr nonempty
      have hvalid : (Frame.data ct).Valid seq total := by
        refine ⟨count, by omega, ?_, by omega⟩
        unfold maxChunkCiphertextSize
        omega
      have hread := nextFrame_reads hvalid (dataFrames chunks ++ tail)
      have hbytes : dataFrames ((pt, ct) :: chunks) ++ tail =
          (Frame.data ct).bytes ++ (dataFrames chunks ++ tail) := by
        simp [dataFrames, Frame.bytes]
      rw [hbytes]
      apply Decodes.data hread hopen
      apply ih hmore
      simp only [List.length_cons, List.map_cons, List.flatten_cons, List.length_append] at htail
      rw [Nat.add_assoc, Nat.add_comm 1, Nat.add_assoc]
      exact htail

theorem Decodes.limits (ha : aead.Documented) {bs : Bytes} {chunks : List Bytes}
    {ending : Except Exc Bytes} (h : Decodes aead k seq total bs chunks ending) :
    Limits seq total chunks := by
  induction h with
  | malformed _ => exact Limits.nil
  | rejected _ _ => exact Limits.nil
  | final _ _ => exact Limits.nil
  | @data seq total bs rest ct pt chunks ending frame opened more ih =>
    obtain ⟨-, hdec⟩ := StreamKey.openCt_eq_ok opened
    have hvalid : DataLimits seq total ct := (nextFrame_eq_ok frame).2
    exact hvalid.limits_cons (ha.decrypt_length _ _ _ _ _ hdec) ih

def missingFinal : Exc := .decryptionError "decryption failed: missing FINAL frame"

theorem nextFrame_append {bs rest : Bytes} {f : Frame}
    (h : (nextFrame seq total).run bs = .ok (f, rest)) (t : Bytes) :
    (nextFrame seq total).run (bs ++ t) = .ok (f, rest ++ t) := by
  obtain ⟨rfl, hvalid⟩ := nextFrame_eq_ok h
  rw [List.append_assoc]
  exact nextFrame_reads hvalid (rest ++ t)

/-- Bytes behind an end mark do not change what stands before it. -/
theorem Decodes.append {bs rest : Bytes} {chunks : List Bytes}
    (h : Decodes aead k seq total bs chunks (.ok rest)) (t : Bytes) :
    Decodes aead k seq total (bs ++ t) chunks (.ok (rest ++ t)) := by
  generalize hr : (Except.ok rest : Except Exc Bytes) = ending at h
  induction h with
  | malformed _ => cases hr
  | rejected _ _ => cases hr
  | data frame opened more ih => exact Decodes.data (nextFrame_append frame t) opened (ih hr)
  | final frame opened =>
    cases hr
    exact Decodes.final (nextFrame_append frame t) opened

/-- What stands before the rest is a stream of its own. -/
theorem Decodes.front {bs rest : Bytes} {chunks : List Bytes}
    (h : Decodes aead k seq total bs chunks (.ok rest)) :
    ∃ front, bs = front ++ rest ∧ Decodes aead k seq total front chunks (.ok []) := by
  generalize hr : (Except.ok rest : Except Exc Bytes) = ending at h
  induction h with
  | malformed _ => cases hr
  | rejected _ _ => cases hr
  | @data seq total bs rest' ct pt chunks ending frame opened more ih =>
    obtain ⟨front, rfl, hfront⟩ := ih hr
    obtain ⟨rfl, hvalid⟩ := nextFrame_eq_ok frame
    exact ⟨(Frame.data ct).bytes ++ front, by simp,
      Decodes.data (nextFrame_reads hvalid front) opened hfront⟩
  | @final seq total bs rest' ct pt frame opened =>
    cases hr
    obtain ⟨rfl, hvalid⟩ := nextFrame_eq_ok frame
    have hread := nextFrame_reads hvalid []
    rw [List.append_nil] at hread
    exact ⟨(Frame.final ct).bytes, rfl, Decodes.final hread opened⟩

end Decoding

namespace Transcript

variable {aead : Aead} {t : Transcript}

theorem decodes_complete (ha : aead.Correct) (hv : t.Valid aead) (hl : Limits 0 0 t.plaintexts)
    {ct : Bytes} (hf : t.final = some ct) :
    Decodes aead t.key 0 0 t.frames t.plaintexts (.ok []) := by
  obtain ⟨hlen, hopen⟩ := StreamKey.openCt_of_sealPt ha (hv.final ct hf)
  have hframe : (Frame.final ct).Valid (0 + t.chunks.length)
      (0 + (t.chunks.map Prod.fst).flatten.length) := hlen
  have hread := nextFrame_reads hframe []
  have hopen' : t.key.openCt aead (0 + t.chunks.length) aadTagFinal ct = .ok [] := by
    rw [Nat.zero_add]
    exact hopen
  have htail := Decodes.final hread hopen'
  have hdec := hv.chunks.decodes ha hl htail
  have hframes : t.frames = dataFrames t.chunks ++ ((Frame.final ct).bytes ++ []) := by
    simp [frames, finalFrame, hf, Frame.bytes]
  rw [List.append_nil (t.chunks.map Prod.fst)] at hdec
  rw [hframes]
  exact hdec

theorem decodes_unfinished (ha : aead.Correct) (hv : t.Valid aead) (hl : Limits 0 0 t.plaintexts)
    (hf : t.final = none) :
    Decodes aead t.key 0 0 t.frames t.plaintexts (.error missingFinal) := by
  have htail : Decodes aead t.key (0 + t.chunks.length)
      (0 + (t.chunks.map Prod.fst).flatten.length) [] [] (.error missingFinal) :=
    Decodes.malformed rfl
  have hdec := hv.chunks.decodes ha hl htail
  rw [List.append_nil (t.chunks.map Prod.fst)] at hdec
  have hframes : t.frames = dataFrames t.chunks ++ [] := by
    simp [frames, finalFrame, hf]
  rw [hframes]
  exact hdec

/-- A first part of a stream decodes only if it is all of it and the end mark is there. -/
theorem complete_of_decodes (ha : aead.Correct) (hv : t.Valid aead) (hl : Limits 0 0 t.plaintexts)
    {written : Bytes} (hw : written <+: t.frames) {chunks : List Bytes}
    (hd : Decodes aead t.key 0 0 written chunks (.ok [])) :
    t.final.isSome ∧ written = t.frames ∧ chunks = t.plaintexts := by
  obtain ⟨rest, hrest⟩ := hw
  have hall := hd.append rest
  rw [hrest] at hall
  cases hf : t.final with
  | none => cases (hall.unique (decodes_unfinished ha hv hl hf)).2
  | some ct =>
    obtain ⟨hchunks, hnil⟩ := hall.unique (decodes_complete ha hv hl hf)
    have hempty : rest = [] := Except.ok.inj hnil
    rw [hempty, List.append_nil] at hrest
    exact ⟨rfl, hrest, hchunks⟩

end Transcript

end CryptoFlex
