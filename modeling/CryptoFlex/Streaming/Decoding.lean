import CryptoFlex.Lib.Scanner
import CryptoFlex.Streaming.Frames

namespace CryptoFlex

open Lib World

/-- What a frame carries: a chunk or the end mark. -/
inductive Frame
  | data (ct : Bytes)
  | final (ct : Bytes)

section Scanners

open Scanner

def truncatedFrame : Exc := .decryptionError "decryption failed: truncated frame"

def scanFrameType : Scanner Exc UInt8 Nat := do
  let frameTypeBytes ← take 1 (.decryptionError "decryption failed: missing FINAL frame")
  ofExcept (index frameTypeBytes 0)

def scanDataFrame (sequenceNumber totalPlaintextBytes : Nat) :
    Scanner Exc UInt8 (Nat × Bytes) := do
  if maxStreamDataFrames ≤ sequenceNumber then
    fail (.decryptionError "decryption failed: stream DATA frame count limit exceeded") else
  let lengthBytes ← take 4 truncatedFrame
  let ctLen ← ofExcept (unpack 4 lengthBytes)
  if ctLen ≤ 16 ∨ maxChunkCiphertextSize < ctLen then
    fail (.decryptionError "decryption failed: invalid chunk size") else
  if maxStreamPlaintextSize < totalPlaintextBytes + (ctLen - 16) then
    fail (.decryptionError "decryption failed: stream plaintext size limit exceeded") else
  let ctWithTag ← take ctLen truncatedFrame
  return (ctLen - 16, ctWithTag)

def scanFinalFrame : Scanner Exc UInt8 Bytes := do
  let lengthBytes ← take 4 truncatedFrame
  let ctLen ← ofExcept (unpack 4 lengthBytes)
  if ctLen ≠ 16 then
    fail (.decryptionError "decryption failed: invalid FINAL frame size") else
  take ctLen truncatedFrame

/-- The next frame, under the limits of a stream that has had `sequenceNumber` chunks with
`totalPlaintextBytes` bytes. -/
def nextFrame (sequenceNumber totalPlaintextBytes : Nat) : Scanner Exc UInt8 Frame := do
  let frameType ← scanFrameType
  if frameType = frameTypeData then
    let (_, ct) ← scanDataFrame sequenceNumber totalPlaintextBytes
    return .data ct
  else if frameType = frameTypeFinal then
    let ct ← scanFinalFrame
    return .final ct
  else fail (invalidFrameType frameType)

end Scanners

/-- A frame as it stands in a stream. -/
def frameBytes (frameType : Nat) (ct : Bytes) : Bytes :=
  beEncode 1 frameType ++ (beEncode 4 ct.length ++ ct)

theorem scanFrameType_reads {frameType : Nat} (h : frameType < 256) :
    scanFrameType.Reads (beEncode 1 frameType) frameType := by
  intro t
  have htype : index (beEncode 1 frameType) 0 = .ok frameType := by
    simp [index, beEncode, Nat.mod_eq_of_lt h]
  unfold scanFrameType
  rw [(Scanner.Reads.take (beEncode_length 1 _) _).run_bind, htype]
  rfl

/-- What a DATA frame that passed the checks is known to satisfy. -/
structure DataLimits (seq total : Nat) (ct : Bytes) : Prop where
  count : seq < maxStreamDataFrames
  nonempty : 16 < ct.length
  size : ct.length ≤ maxChunkCiphertextSize
  total : total + (ct.length - 16) ≤ maxStreamPlaintextSize

theorem unpack_length {ct : Bytes} (h : ct.length ≤ maxChunkCiphertextSize) :
    unpack 4 (beEncode 4 ct.length) = .ok ct.length := by
  have hct : ct.length < 256 ^ 4 := by
    simp only [maxChunkCiphertextSize, maxChunkPlaintextSize] at h
    omega
  rw [unpack_of_length (beEncode_length 4 _), beDecode_encode 4 _ hct]

theorem scanDataFrame_reads {seq total : Nat} {ct : Bytes} (h : DataLimits seq total ct) :
    (scanDataFrame seq total).Reads (beEncode 4 ct.length ++ ct) (ct.length - 16, ct) := by
  have hcount := h.count
  have hnonempty := h.nonempty
  have hsize := h.size
  have htotal := h.total
  intro t
  unfold scanDataFrame
  rw [if_neg (by omega), List.append_assoc, (Scanner.Reads.take (beEncode_length 4 _) _).run_bind,
    unpack_length hsize, Scanner.run_bind, Scanner.run_ofExcept_ok]
  dsimp only
  rw [if_neg (by omega), if_neg (by omega), (Scanner.Reads.take rfl _).run_bind]
  rfl

theorem scanFinalFrame_reads {ct : Bytes} (h : ct.length = 16) :
    scanFinalFrame.Reads (beEncode 4 ct.length ++ ct) ct := by
  have hsize : ct.length ≤ maxChunkCiphertextSize := by
    rw [h]
    decide
  intro t
  unfold scanFinalFrame
  rw [List.append_assoc, (Scanner.Reads.take (beEncode_length 4 _) _).run_bind,
    unpack_length hsize, Scanner.run_bind, Scanner.run_ofExcept_ok]
  dsimp only
  rw [if_neg (not_not.mpr h)]
  exact Scanner.Reads.take rfl _ t

def Frame.bytes : Frame → Bytes
  | data ct => frameBytes frameTypeData ct
  | final ct => frameBytes frameTypeFinal ct

def Frame.Valid (seq total : Nat) : Frame → Prop
  | data ct => DataLimits seq total ct
  | final ct => ct.length = 16

theorem nextFrame_reads {seq total : Nat} {f : Frame} (h : f.Valid seq total) :
    (nextFrame seq total).Reads f.bytes f := by
  intro t
  unfold nextFrame
  cases f with
  | data ct =>
    unfold Frame.bytes frameBytes
    rw [List.append_assoc, (scanFrameType_reads (by decide)).run_bind, if_pos rfl,
      (scanDataFrame_reads h).run_bind]
    rfl
  | final ct =>
    unfold Frame.bytes frameBytes
    rw [List.append_assoc, (scanFrameType_reads (by decide)).run_bind, if_neg (by decide),
      if_pos rfl, (scanFinalFrame_reads h).run_bind]
    rfl

theorem scanFrameType_eq_ok {bs rest : Bytes} {frameType : Nat}
    (h : scanFrameType.run bs = .ok (frameType, rest)) :
    bs = beEncode 1 frameType ++ rest := by
  obtain ⟨typeBytes, d1, h1, h2⟩ := Scanner.bind_eq_ok.mp h
  obtain ⟨hlen, rfl⟩ := Scanner.take_eq_ok h1
  obtain ⟨htype, rfl⟩ := Scanner.ofExcept_eq_ok h2
  match typeBytes, hlen with
  | [t], _ =>
    cases htype
    simp [beEncode]

theorem unpack_eq_ok {lengthBytes ct : Bytes} {ctLen : Nat} (hl : lengthBytes.length = 4)
    (h : unpack 4 lengthBytes = .ok ctLen) (hct : ct.length = ctLen) :
    lengthBytes = beEncode 4 ct.length := by
  rw [unpack_of_length hl] at h
  rw [hct, ← Except.ok.inj h, ← hl, beEncode_decode]

theorem scanDataFrame_eq_ok {seq total : Nat} {bs rest : Bytes} {f : Nat × Bytes}
    (h : (scanDataFrame seq total).run bs = .ok (f, rest)) :
    bs = beEncode 4 f.2.length ++ f.2 ++ rest ∧ DataLimits seq total f.2 ∧
      f.1 = f.2.length - 16 := by
  obtain ⟨hcount, hbody⟩ := Scanner.ite_fail_eq_ok h
  obtain ⟨lengthBytes, d1, h1, hbody⟩ := Scanner.bind_eq_ok.mp hbody
  obtain ⟨ctLen, d2, h2, hbody⟩ := Scanner.bind_eq_ok.mp hbody
  obtain ⟨hll, rfl⟩ := Scanner.take_eq_ok h1
  obtain ⟨hlen, rfl⟩ := Scanner.ofExcept_eq_ok h2
  obtain ⟨hsize, hbody⟩ := Scanner.ite_fail_eq_ok hbody
  obtain ⟨htotal, hbody⟩ := Scanner.ite_fail_eq_ok hbody
  obtain ⟨ct, d3, h3, hret⟩ := Scanner.bind_eq_ok.mp hbody
  obtain ⟨hct, rfl⟩ := Scanner.take_eq_ok h3
  cases hret
  subst hct
  rw [unpack_eq_ok hll hlen rfl]
  refine ⟨by simp, ?_, rfl⟩
  dsimp only
  exact ⟨by omega, by omega, by omega, by omega⟩

theorem scanFinalFrame_eq_ok {bs rest ct : Bytes}
    (h : scanFinalFrame.run bs = .ok (ct, rest)) :
    bs = beEncode 4 ct.length ++ ct ++ rest ∧ ct.length = 16 := by
  obtain ⟨lengthBytes, d1, h1, hbody⟩ := Scanner.bind_eq_ok.mp h
  obtain ⟨ctLen, d2, h2, hbody⟩ := Scanner.bind_eq_ok.mp hbody
  obtain ⟨hll, rfl⟩ := Scanner.take_eq_ok h1
  obtain ⟨hlen, rfl⟩ := Scanner.ofExcept_eq_ok h2
  obtain ⟨hsize, hbody⟩ := Scanner.ite_fail_eq_ok hbody
  obtain ⟨hct, rfl⟩ := Scanner.take_eq_ok hbody
  rw [unpack_eq_ok hll hlen hct]
  exact ⟨by simp, by omega⟩

/-- Parsing undoes framing: what was read is the bytes of a valid frame. -/
theorem nextFrame_eq_ok {seq total : Nat} {bs rest : Bytes} {f : Frame}
    (h : (nextFrame seq total).run bs = .ok (f, rest)) :
    bs = f.bytes ++ rest ∧ f.Valid seq total := by
  obtain ⟨frameType, d1, h1, hbody⟩ := Scanner.bind_eq_ok.mp h
  have htype := scanFrameType_eq_ok h1
  by_cases hdata : frameType = frameTypeData
  · rw [if_pos hdata] at hbody
    obtain ⟨⟨ptLen, ct⟩, d2, h2, hret⟩ := Scanner.bind_eq_ok.mp hbody
    obtain ⟨hbs, hlimits, -⟩ := scanDataFrame_eq_ok h2
    cases hret
    rw [htype, hbs, hdata, Frame.bytes, frameBytes]
    exact ⟨by simp, hlimits⟩
  · rw [if_neg hdata] at hbody
    by_cases hfinal : frameType = frameTypeFinal
    · rw [if_pos hfinal] at hbody
      obtain ⟨ct, d2, h2, hret⟩ := Scanner.bind_eq_ok.mp hbody
      obtain ⟨hbs, hlen⟩ := scanFinalFrame_eq_ok h2
      cases hret
      rw [htype, hbs, hfinal, Frame.bytes, frameBytes]
      exact ⟨by simp, hlen⟩
    · rw [if_neg hfinal] at hbody
      cases hbody

/-- Run on a reader that holds `bs`, `x` does to it what `p` does to `bs`, and nothing else. -/
def Follows {ι ω α : Type} [Input ι] (x : Eff Exc (World ι ω) α) (p : Scanner Exc UInt8 α) :
    Prop :=
  ∀ w bs, w.reader.Holds bs → ∃ r', x.run w = ((p.run bs).map Prod.fst, { w with reader := r' }) ∧
    ∀ a rest, p.run bs = .ok (a, rest) → r'.Holds rest

namespace Follows

variable {ι ω α β : Type} [Input ι]

theorem pure (a : α) : Follows (Pure.pure a : Eff Exc (World ι ω) α) (Pure.pure a) := by
  intro w bs h
  refine ⟨w.reader, rfl, ?_⟩
  intro a' rest heq
  cases heq
  exact h

theorem raise (e : Exc) : Follows (Eff.raise e : Eff Exc (World ι ω) α) (Scanner.fail e) := by
  intro w bs _
  refine ⟨w.reader, rfl, ?_⟩
  intro a rest heq
  cases heq

theorem lift (x : Except Exc α) :
    Follows (Eff.lift x : Eff Exc (World ι ω) α) (Scanner.ofExcept x) := by
  cases x with
  | ok a => exact pure a
  | error e => exact raise e

theorem bind {x : Eff Exc (World ι ω) α} {p : Scanner Exc UInt8 α}
    {f : α → Eff Exc (World ι ω) β} {q : α → Scanner Exc UInt8 β} (hx : Follows x p)
    (hf : ∀ a, Follows (f a) (q a)) : Follows (x >>= f) (p >>= q) := by
  intro w bs h
  obtain ⟨r1, hrun, hr1⟩ := hx w bs h
  cases hp : p.run bs with
  | error e =>
    rw [hp] at hrun
    refine ⟨r1, ?_, ?_⟩
    · rw [Scanner.run_bind, hp]
      exact Eff.bind_error hrun f
    · intro b rest heq
      rw [Scanner.run_bind, hp] at heq
      cases heq
  | ok ar =>
    obtain ⟨a, rest⟩ := ar
    rw [hp] at hrun
    obtain ⟨r2, hrun2, hr2⟩ := hf a { w with reader := r1 } rest (hr1 a rest hp)
    refine ⟨r2, ?_, ?_⟩
    · rw [Scanner.run_bind, hp, Eff.bind_ok hrun]
      exact hrun2
    · intro b rest' heq
      rw [Scanner.run_bind, hp] at heq
      exact hr2 b rest' heq

theorem ite {P : Prop} [Decidable P] {x y : Eff Exc (World ι ω) α} {p q : Scanner Exc UInt8 α}
    (hx : Follows x p) (hy : Follows y q) :
    Follows (if P then x else y) (if P then p else q) := by
  split
  · exact hx
  · exact hy

theorem readExact (n : Nat) :
    Follows (onReader (StreamReader.readExact n) : Eff Exc (World ι ω) Bytes)
      (Scanner.take n (.decryptionError "decryption failed: truncated frame")) := by
  intro w bs h
  by_cases hn : bs.length < n
  · obtain ⟨r', hrun, hr'⟩ := StreamReader.readExact_truncated h hn
    refine ⟨r', ?_, ?_⟩
    · rw [Scanner.run_take_lt hn, onReader, Eff.run_zoom, hrun]
      rfl
    · intro a rest heq
      rw [Scanner.run_take_lt hn] at heq
      cases heq
  · have hle : n ≤ bs.length := by omega
    obtain ⟨r', hrun, hr'⟩ := StreamReader.readExact_ok h hle
    refine ⟨r', ?_, ?_⟩
    · rw [Scanner.run_take_le hle, onReader, Eff.run_zoom, hrun]
      rfl
    · intro a rest heq
      rw [Scanner.run_take_le hle] at heq
      cases heq
      exact hr'

theorem readFrameType :
    Follows (readFrameType false : Eff Exc (World ι ω) Nat) scanFrameType := by
  have htry : Follows (Eff.tryCatch (onReader (StreamReader.readExact 1)) fun e =>
        if e.isDecryptionError && !false then
          Eff.raise (.decryptionError "decryption failed: missing FINAL frame")
        else Eff.raise e : Eff Exc (World ι ω) Bytes)
      (Scanner.take 1 (.decryptionError "decryption failed: missing FINAL frame")) := by
    intro w bs h
    obtain ⟨r', hrun, hr'⟩ := readExact (ω := ω) 1 w bs h
    by_cases hn : bs.length < 1
    · rw [Scanner.run_take_lt hn] at hrun ⊢
      refine ⟨r', Eff.tryCatch_error hrun _, ?_⟩
      intro a rest heq
      cases heq
    · have hle : 1 ≤ bs.length := by omega
      rw [Scanner.run_take_le hle] at hrun hr' ⊢
      refine ⟨r', Eff.tryCatch_ok hrun _, ?_⟩
      intro a rest heq
      cases heq
      exact hr' _ _ rfl
  apply htry.bind
  intro frameTypeBytes
  exact lift _

theorem readDataFrame (seq total : Nat) :
    Follows (readDataFrame seq total : Eff Exc (World ι ω) (Nat × Bytes))
      (scanDataFrame seq total) := by
  apply (raise _).ite
  apply (readExact 4).bind
  intro lengthBytes
  apply (lift _).bind
  intro ctLen
  apply (raise _).ite
  apply (raise _).ite
  apply (readExact ctLen).bind
  intro ctWithTag
  exact pure _

theorem readFinalFrame :
    Follows (readFinalFrame : Eff Exc (World ι ω) Bytes) scanFinalFrame := by
  apply (readExact 4).bind
  intro lengthBytes
  apply (lift _).bind
  intro ctLen
  apply (raise _).ite
  exact readExact ctLen

end Follows

end CryptoFlex
