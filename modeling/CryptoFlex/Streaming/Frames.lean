import CryptoFlex.Header.Format
import CryptoFlex.Runtime
import CryptoFlex.Streaming.Reader

namespace CryptoFlex

open Lib

def defaultChunkSize : Int := 64 * 1024
def maxChunkPlaintextSize : Nat := 9 * 1024 * 1024
def maxChunkCiphertextSize : Nat := maxChunkPlaintextSize + 16
def maxHeaderSize : Nat := 64 * 1024
def maxStreamPlaintextSize : Nat := 64 * 1024 * 1024 * 1024
def maxStreamDataFrames : Nat := 1000000

def frameTypeData : Nat := 0x01
def frameTypeFinal : Nat := 0x02

/-- b"DATA" -/
def aadTagData : Bytes := [0x44, 0x41, 0x54, 0x41]
/-- b"FINAL" -/
def aadTagFinal : Bytes := [0x46, 0x49, 0x4E, 0x41, 0x4C]

/-- `_derive_chunk_nonce`. -/
def deriveChunkNonce (baseNonce : Bytes) (sequenceNumber : Nat) : Except Exc Bytes := do
  if baseNonce.length ≠ 12 then
    .error (.valueError "base_nonce must be exactly 12 bytes") else
  if 0xFFFFFFFF < sequenceNumber then
    .error (.overflowError "stream chunk limit exceeded (max 4,294,967,295 chunks)") else
  let counter ← pack 4 sequenceNumber
  return baseNonce.take 8 ++ counter

/-- `_derive_chunk_aad`. -/
def deriveChunkAad (headerBytes : Bytes) (sequenceNumber : Nat) (frameTag : Bytes) :
    Except Exc Bytes := do
  let counter ← pack 4 sequenceNumber
  return headerBytes ++ counter ++ frameTag

theorem deriveChunkNonce_eq {baseNonce : Bytes} (hb : baseNonce.length = nonceLen) {seq : Nat}
    (hs : seq ≤ maxStreamDataFrames) :
    deriveChunkNonce baseNonce seq = .ok (baseNonce.take 8 ++ beEncode 4 seq) := by
  have hseq : seq ≤ 1000000 := hs
  have hlen : baseNonce.length = 12 := hb
  unfold deriveChunkNonce
  rw [if_neg (not_not.mpr hlen), if_neg (by omega), pack_nat (by omega)]
  rfl

theorem deriveChunkAad_eq (headerBytes frameTag : Bytes) {seq : Nat}
    (hs : seq ≤ maxStreamDataFrames) :
    deriveChunkAad headerBytes seq frameTag =
      .ok (headerBytes ++ beEncode 4 seq ++ frameTag) := by
  have hseq : seq ≤ 1000000 := hs
  unfold deriveChunkAad
  rw [pack_nat (by omega)]
  rfl

/-- The process, the input stream under its reader, the output stream, and the bytes written to
the output stream so far. -/
structure World (ι ω : Type) where
  rt : Runtime
  reader : StreamReader ι
  sink : ω
  out : Bytes

namespace World

variable {ι ω : Type}

/-- A call's start: nothing buffered and nothing written. -/
def start (rt : Runtime) (input : ι) (sink : ω) : World ι ω :=
  { rt, reader := { buf := [], stream := input }, sink, out := [] }

def onRuntime {α : Type} (x : Eff Exc Runtime α) : Eff Exc (World ι ω) α :=
  Eff.zoom (·.rt) (fun rt w => { w with rt }) x

def onReader {α : Type} (x : Eff Exc (StreamReader ι) α) : Eff Exc (World ι ω) α :=
  Eff.zoom (·.reader) (fun reader w => { w with reader }) x

/-- `output_stream.write(b)`. -/
def write [Output ω] (b : Bytes) : Eff Exc (World ι ω) Unit := ⟨fun w =>
  match Output.write b w.sink with
  | (none, sink) => (.ok (), { w with sink, out := w.out ++ b })
  | (some (k, e), sink) => (.error e, { w with sink, out := w.out ++ b.take k })⟩

/-- `input_stream.read(n)`. -/
def readInput [Input ι] (n : Nat) : Eff Exc (World ι ω) Bytes :=
  onReader (StreamReader.readStream n)

/-- `reader = _StreamReader(initial, input_stream)`. -/
def newReader (initial : Bytes) : Eff Exc (World ι ω) Unit :=
  Eff.modify fun w => { w with reader := { w.reader with buf := initial } }

end World

section Buffers

open World

variable {ι ω : Type}

theorem newBuffer_run (b : Bytes) (w : World ι ω) :
    (onRuntime (Runtime.newBuffer b)).run w = (.ok w.rt.heap.length,
      { w with rt := { w.rt with heap := w.rt.heap ++ [b] } }) := rfl

theorem readBuffer_run {rt : Runtime} {a : Nat} {b : Bytes} (h : rt.heap.getD a [] = b)
    (w : World ι ω) (hw : w.rt = rt) :
    (onRuntime (Runtime.readBuffer a)).run w = (.ok b, w) := by
  subst hw
  subst h
  rfl

theorem heap_getD_append (heap : List Bytes) (b : Bytes) :
    (heap ++ [b]).getD heap.length [] = b := by
  simp

theorem onRuntime_ok {α : Type} {x : Eff Exc Runtime α} {rt rt' : Runtime} {a : α}
    (h : x.run rt = (.ok a, rt')) (w : World ι ω) (hw : w.rt = rt) :
    (onRuntime x).run w = (.ok a, { w with rt := rt' }) := by
  subst hw
  rw [onRuntime, Eff.run_zoom, h]

theorem onRuntime_error {α : Type} {x : Eff Exc Runtime α} {rt rt' : Runtime} {e : Exc}
    (h : x.run rt = (.error e, rt')) (w : World ι ω) (hw : w.rt = rt) :
    (onRuntime x).run w = (.error e, { w with rt := rt' }) := by
  subst hw
  rw [onRuntime, Eff.run_zoom, h]

end Buffers

section Frames

open World

variable {ι ω : Type}

/-- The three writes of a frame: type byte, length, ciphertext with tag. -/
def writeFrame [Output ω] (frameType : Nat) (ctWithTag : Bytes) : Eff Exc (World ι ω) Unit := do
  let typeByte ← Eff.lift (pack 1 frameType)
  write typeByte
  let length ← Eff.lift (pack 4 ctWithTag.length)
  write length
  write ctWithTag

/-- The frame type byte, or the complaint that the stream ended without FINAL. -/
def readFrameType [Input ι] (receivedFinal : Bool) : Eff Exc (World ι ω) Nat := do
  let frameTypeBytes ← Eff.tryCatch (onReader (StreamReader.readExact 1)) fun e =>
    if e.isDecryptionError && !receivedFinal then
      Eff.raise (.decryptionError "decryption failed: missing FINAL frame")
    else Eff.raise e
  Eff.lift (index frameTypeBytes 0)

/-- The rest of a DATA frame under the stream limits: plaintext length and ciphertext. -/
def readDataFrame [Input ι] (sequenceNumber totalPlaintextBytes : Nat) :
    Eff Exc (World ι ω) (Nat × Bytes) := do
  if maxStreamDataFrames ≤ sequenceNumber then
    Eff.raise (.decryptionError "decryption failed: stream DATA frame count limit exceeded") else
  let lengthBytes ← onReader (StreamReader.readExact 4)
  let ctLen ← Eff.lift (unpack 4 lengthBytes)
  if ctLen ≤ 16 ∨ maxChunkCiphertextSize < ctLen then
    Eff.raise (.decryptionError "decryption failed: invalid chunk size") else
  let ptLen := ctLen - 16
  if maxStreamPlaintextSize < totalPlaintextBytes + ptLen then
    Eff.raise (.decryptionError "decryption failed: stream plaintext size limit exceeded") else
  let ctWithTag ← onReader (StreamReader.readExact ctLen)
  return (ptLen, ctWithTag)

/-- `readDataFrame` refuses the frame after the last permitted one. -/
theorem readDataFrame_limit [Input ι] {seq total : Nat} {w w' : World ι ω} {r : Nat × Bytes}
    (h : (readDataFrame seq total).run w = (.ok r, w')) : seq < maxStreamDataFrames := by
  by_contra hmax
  unfold readDataFrame at h
  rw [if_pos (by omega)] at h
  cases h

/-- The rest of a FINAL frame. -/
def readFinalFrame [Input ι] : Eff Exc (World ι ω) Bytes := do
  let lengthBytes ← onReader (StreamReader.readExact 4)
  let ctLen ← Eff.lift (unpack 4 lengthBytes)
  if ctLen ≠ 16 then
    Eff.raise (.decryptionError "decryption failed: invalid FINAL frame size") else
  onReader (StreamReader.readExact ctLen)

/-- The complaint about any other frame type, which shows the byte in hexadecimal. -/
def invalidFrameType (frameType : Nat) : Exc :=
  let digits := String.ofList [Nat.digitChar (frameType / 16), Nat.digitChar (frameType % 16)]
  .decryptionError s!"decryption failed: invalid frame type 0x{digits}"

end Frames

end CryptoFlex
