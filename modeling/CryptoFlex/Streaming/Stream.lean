import CryptoFlex.Api
import CryptoFlex.Streaming.Frames

namespace CryptoFlex

open Lib World

variable {H ι ω : Type} [Input ι] [Output ω]

structure EncryptVars where
  sequenceNumber : Nat := 0
  totalPlaintextBytes : Nat := 0

def encryptStep (env : Env H) (aesgcm headerBytes baseNonce : Bytes) (chunkSize : Nat)
    (v : EncryptVars) : Eff Exc (World ι ω) (EncryptVars ⊕ EncryptVars) := do
  let chunk ← readInput chunkSize
  if chunk = [] then return .inr v else
  if maxStreamDataFrames ≤ v.sequenceNumber then
    Eff.raise (.valueError ("stream DATA frame limit exceeded: maximum " ++
      s!"{maxStreamDataFrames} frames allowed per stream")) else
  if maxStreamPlaintextSize < v.totalPlaintextBytes + chunk.length then
    Eff.raise (.valueError ("stream plaintext size limit exceeded: maximum " ++
      s!"{maxStreamPlaintextSize} bytes allowed per stream")) else
  let nonce ← Eff.lift (deriveChunkNonce baseNonce v.sequenceNumber)
  let aad ← Eff.lift (deriveChunkAad headerBytes v.sequenceNumber aadTagData)
  let ctWithTag ← onRuntime (aesgcmEncrypt env aesgcm nonce chunk aad)
  writeFrame frameTypeData ctWithTag
  return .inl {
    sequenceNumber := v.sequenceNumber + 1
    totalPlaintextBytes := v.totalPlaintextBytes + chunk.length }

theorem encryptStep_continue {env : Env H} {aesgcm headerBytes baseNonce : Bytes}
    {chunkSize : Nat} {v v' : EncryptVars} {w w' : World ι ω}
    (h : (encryptStep env aesgcm headerBytes baseNonce chunkSize v).run w = (.ok (.inl v'), w')) :
    v.sequenceNumber < maxStreamDataFrames ∧ v'.sequenceNumber = v.sequenceNumber + 1 := by
  unfold encryptStep at h
  obtain ⟨chunk, w1, -, h⟩ := Eff.bind_eq_ok.mp h
  by_cases hc : chunk = []
  · rw [if_pos hc] at h
    cases h
  rw [if_neg hc] at h
  by_cases hmax : maxStreamDataFrames ≤ v.sequenceNumber
  · rw [if_pos hmax] at h
    cases h
  rw [if_neg hmax] at h
  split at h
  · cases h
  obtain ⟨nonce, w2, -, h⟩ := Eff.bind_eq_ok.mp h
  obtain ⟨aad, w3, -, h⟩ := Eff.bind_eq_ok.mp h
  obtain ⟨ct, w4, -, h⟩ := Eff.bind_eq_ok.mp h
  obtain ⟨-, w5, -, h⟩ := Eff.bind_eq_ok.mp h
  cases h
  exact ⟨by omega, rfl⟩

def encryptLoop (env : Env H) (aesgcm headerBytes baseNonce : Bytes) (chunkSize : Nat) :
    Loop Exc (World ι ω) EncryptVars EncryptVars where
  step := encryptStep env aesgcm headerBytes baseNonce chunkSize
  rank v _ := maxStreamDataFrames - v.sequenceNumber
  decreases := by
    intro v w v' w' h
    have hseq := encryptStep_continue h
    omega

def encryptStream (env : Env H) (bundle : PublicBundle) (chunkSize : Int := defaultChunkSize) :
    Eff Exc (World ι ω) Unit := do
  let derived ← onRuntime (deriveRootKey env bundle)
  let headerBytes ← Eff.lift derived.header.toBytes
  match derived.header.nonce with
  | none => Eff.raise (.valueError
      "derive_root_key() produced a v1 header with no nonce — cannot stream-encrypt")
  | some baseNonce =>
  if chunkSize ≤ 0 ∨ (maxChunkPlaintextSize : Int) < chunkSize then
    Eff.raise (.valueError
      s!"chunk_size {chunkSize} must be between 1 and {maxChunkPlaintextSize}") else
  write headerBytes
  let rootKeyBuf ← onRuntime (Runtime.newBuffer derived.rootKey)
  Eff.tryFinally (do
    let key ← onRuntime (Runtime.readBuffer rootKeyBuf)
    let aesgcm ← Eff.lift (AESGCM env.aead key)
    let v ← (encryptLoop env aesgcm headerBytes baseNonce chunkSize.toNat).toEff {}
    let finalNonce ← Eff.lift (deriveChunkNonce baseNonce v.sequenceNumber)
    let finalAad ← Eff.lift (deriveChunkAad headerBytes v.sequenceNumber aadTagFinal)
    let finalCt ← onRuntime (aesgcmEncrypt env aesgcm finalNonce [] finalAad)
    writeFrame frameTypeFinal finalCt)
    (onRuntime (Runtime.zeroize rootKeyBuf))

structure Prologue where
  baseNonce : Bytes
  headerBytes : Bytes
  unconsumedInitial : Bytes
  rawRootKey : Bytes

/-- From the initial bytes to the recovered root key. -/
def parsePrologue (env : Env H) (privateHandles : List H) (minProfile : Option PyStr)
    (initialBytes : Bytes) : Eff Exc Runtime Prologue := do
  if initialBytes = [] then
    Eff.raise (.decryptionError "decryption failed: empty stream") else
  let (header, consumed) ←
    Eff.lift (parseHeader initialBytes "decryption failed: invalid header")
  Eff.lift (checkDowngrade env header minProfile)
  match header.nonce with
  | none => Eff.raise (.decryptionError
      "decryption failed: v1 header not supported in streaming mode")
  | some baseNonce =>
  let rawRootKey ← Eff.tryCatch (do
    let profile ← Eff.lift (getProfile env.profiles header.profileId)
    recoverRootKeyInternal env privateHandles header profile) fun e => Eff.raise e.collapse
  return {
    baseNonce
    headerBytes := initialBytes.take consumed
    unconsumedInitial := initialBytes.drop consumed
    rawRootKey }

def readPrologue (env : Env H) (privateHandles : List H) (minProfile : Option PyStr) :
    Eff Exc (World ι ω) Prologue := do
  let initialBytes ← readInput maxHeaderSize
  onRuntime (parsePrologue env privateHandles minProfile initialBytes)

structure DecryptVars where
  sequenceNumber : Nat := 0
  totalPlaintextBytes : Nat := 0
  receivedFinal : Bool := false

/-- One pass of the frame loop; it breaks with the value of `received_final`. -/
def decryptStep (env : Env H) (aesgcm headerBytes baseNonce : Bytes) (v : DecryptVars) :
    Eff Exc (World ι ω) (DecryptVars ⊕ Bool) := do
  let frameType ← readFrameType v.receivedFinal
  if v.receivedFinal then
    Eff.raise (.decryptionError "decryption failed: data after FINAL frame") else
  if frameType = frameTypeData then
    let (_, ctWithTag) ← readDataFrame v.sequenceNumber v.totalPlaintextBytes
    let nonce ← Eff.lift (deriveChunkNonce baseNonce v.sequenceNumber)
    let aad ← Eff.lift (deriveChunkAad headerBytes v.sequenceNumber aadTagData)
    let plaintext ← onRuntime (aesgcmDecrypt env aesgcm nonce ctWithTag aad)
    write plaintext
    return .inl { v with
      sequenceNumber := v.sequenceNumber + 1
      totalPlaintextBytes := v.totalPlaintextBytes + plaintext.length }
  else if frameType = frameTypeFinal then
    let finalCt ← readFinalFrame
    let finalNonce ← Eff.lift (deriveChunkNonce baseNonce v.sequenceNumber)
    let finalAad ← Eff.lift (deriveChunkAad headerBytes v.sequenceNumber aadTagFinal)
    let _ ← onRuntime (aesgcmDecrypt env aesgcm finalNonce finalCt finalAad)
    let receivedFinal := true
    let trailing ← onReader StreamReader.hasRemaining
    if trailing then
      Eff.raise (.decryptionError "decryption failed: trailing data after FINAL frame") else
    return .inr receivedFinal
  else Eff.raise (invalidFrameType frameType)

theorem decryptStep_continue {env : Env H} {aesgcm headerBytes baseNonce : Bytes}
    {v v' : DecryptVars} {w w' : World ι ω}
    (h : (decryptStep env aesgcm headerBytes baseNonce v).run w = (.ok (.inl v'), w')) :
    v.sequenceNumber < maxStreamDataFrames ∧ v'.sequenceNumber = v.sequenceNumber + 1 := by
  unfold decryptStep at h
  obtain ⟨frameType, w1, -, h⟩ := Eff.bind_eq_ok.mp h
  split at h
  · cases h
  split at h
  · obtain ⟨⟨ptLen, ct⟩, w2, hframe, h⟩ := Eff.bind_eq_ok.mp h
    obtain ⟨nonce, w3, -, h⟩ := Eff.bind_eq_ok.mp h
    obtain ⟨aad, w4, -, h⟩ := Eff.bind_eq_ok.mp h
    obtain ⟨plaintext, w5, -, h⟩ := Eff.bind_eq_ok.mp h
    obtain ⟨-, w6, -, h⟩ := Eff.bind_eq_ok.mp h
    cases h
    exact ⟨readDataFrame_limit hframe, rfl⟩
  split at h
  · obtain ⟨finalCt, w2, -, h⟩ := Eff.bind_eq_ok.mp h
    obtain ⟨finalNonce, w3, -, h⟩ := Eff.bind_eq_ok.mp h
    obtain ⟨finalAad, w4, -, h⟩ := Eff.bind_eq_ok.mp h
    obtain ⟨-, w5, -, h⟩ := Eff.bind_eq_ok.mp h
    obtain ⟨trailing, w6, -, h⟩ := Eff.bind_eq_ok.mp h
    split at h <;> cases h
  · cases h

def decryptLoop (env : Env H) (aesgcm headerBytes baseNonce : Bytes) :
    Loop Exc (World ι ω) DecryptVars Bool where
  step := decryptStep env aesgcm headerBytes baseNonce
  rank v _ := maxStreamDataFrames - v.sequenceNumber
  decreases := by
    intro v w v' w' h
    have hseq := decryptStep_continue h
    omega

def decryptStream (env : Env H) (privateHandles : List H) (minProfile : Option PyStr) :
    Eff Exc (World ι ω) Unit := do
  let p ← readPrologue env privateHandles minProfile
  let rootKeyBuf ← onRuntime (Runtime.newBuffer p.rawRootKey)
  Eff.tryFinally
    (Eff.tryCatch (do
      let key ← onRuntime (Runtime.readBuffer rootKeyBuf)
      let aesgcm ← Eff.lift (AESGCM env.aead key)
      newReader p.unconsumedInitial
      let receivedFinal ← (decryptLoop env aesgcm p.headerBytes p.baseNonce).toEff {}
      if !receivedFinal then
        Eff.raise (.decryptionError "decryption failed: missing FINAL frame")) fun e =>
      Eff.raise e.collapse)
    (onRuntime (Runtime.zeroize rootKeyBuf))

structure MigrateVars where
  sequenceNumber : Nat := 0
  newSequenceNumber : Nat := 0
  totalPlaintextBytes : Nat := 0
  receivedFinal : Bool := false

def sequenceDivergence : Exc :=
  .decryptionError "decryption failed: sequence counter divergence during migration"

def migrateStep (env : Env H) (oldAesgcm oldHeaderBytes oldBaseNonce : Bytes)
    (newAesgcm newHeaderBytes newBaseNonce : Bytes) (v : MigrateVars) :
    Eff Exc (World ι ω) (MigrateVars ⊕ Bool) := do
  let frameType ← readFrameType v.receivedFinal
  if v.receivedFinal then
    Eff.raise (.decryptionError "decryption failed: data after FINAL frame") else
  if frameType = frameTypeData then
    if v.sequenceNumber ≠ v.newSequenceNumber then Eff.raise sequenceDivergence else
    let (ptLen, ctWithTag) ← readDataFrame v.sequenceNumber v.totalPlaintextBytes
    let oldNonce ← Eff.lift (deriveChunkNonce oldBaseNonce v.sequenceNumber)
    let oldAad ← Eff.lift (deriveChunkAad oldHeaderBytes v.sequenceNumber aadTagData)
    let chunkPt ← onRuntime (aesgcmDecrypt env oldAesgcm oldNonce ctWithTag oldAad)
    let chunkPtBuf ← onRuntime (Runtime.newBuffer chunkPt)
    Eff.tryFinally (do
      let newNonce ← Eff.lift (deriveChunkNonce newBaseNonce v.newSequenceNumber)
      let newAad ← Eff.lift (deriveChunkAad newHeaderBytes v.newSequenceNumber aadTagData)
      let pt ← onRuntime (Runtime.readBuffer chunkPtBuf)
      let newCtWithTag ← onRuntime (aesgcmEncrypt env newAesgcm newNonce pt newAad)
      writeFrame frameTypeData newCtWithTag)
      (onRuntime (Runtime.zeroize chunkPtBuf))
    return .inl { v with
      sequenceNumber := v.sequenceNumber + 1
      newSequenceNumber := v.newSequenceNumber + 1
      totalPlaintextBytes := v.totalPlaintextBytes + ptLen }
  else if frameType = frameTypeFinal then
    if v.sequenceNumber ≠ v.newSequenceNumber then Eff.raise sequenceDivergence else
    let finalCt ← readFinalFrame
    let finalNonce ← Eff.lift (deriveChunkNonce oldBaseNonce v.sequenceNumber)
    let finalAad ← Eff.lift (deriveChunkAad oldHeaderBytes v.sequenceNumber aadTagFinal)
    let _ ← onRuntime (aesgcmDecrypt env oldAesgcm finalNonce finalCt finalAad)
    let receivedFinal := true
    let newFinalNonce ← Eff.lift (deriveChunkNonce newBaseNonce v.newSequenceNumber)
    let newFinalAad ← Eff.lift (deriveChunkAad newHeaderBytes v.newSequenceNumber aadTagFinal)
    let newFinalCt ← onRuntime (aesgcmEncrypt env newAesgcm newFinalNonce [] newFinalAad)
    writeFrame frameTypeFinal newFinalCt
    let trailing ← onReader StreamReader.hasRemaining
    if trailing then
      Eff.raise (.decryptionError "decryption failed: trailing data after FINAL frame") else
    return .inr receivedFinal
  else Eff.raise (invalidFrameType frameType)

theorem migrateStep_continue {env : Env H} {oldAesgcm oldHeaderBytes oldBaseNonce : Bytes}
    {newAesgcm newHeaderBytes newBaseNonce : Bytes} {v v' : MigrateVars} {w w' : World ι ω}
    (h : (migrateStep env oldAesgcm oldHeaderBytes oldBaseNonce newAesgcm newHeaderBytes
      newBaseNonce v).run w = (.ok (.inl v'), w')) :
    v.sequenceNumber < maxStreamDataFrames ∧ v'.sequenceNumber = v.sequenceNumber + 1 ∧
      v'.newSequenceNumber = v.newSequenceNumber + 1 := by
  unfold migrateStep at h
  obtain ⟨frameType, w1, -, h⟩ := Eff.bind_eq_ok.mp h
  split at h
  · cases h
  split at h
  · split at h
    · cases h
    obtain ⟨⟨ptLen, ct⟩, w2, hframe, h⟩ := Eff.bind_eq_ok.mp h
    obtain ⟨oldNonce, w3, -, h⟩ := Eff.bind_eq_ok.mp h
    obtain ⟨oldAad, w4, -, h⟩ := Eff.bind_eq_ok.mp h
    obtain ⟨chunkPt, w5, -, h⟩ := Eff.bind_eq_ok.mp h
    obtain ⟨buf, w6, -, h⟩ := Eff.bind_eq_ok.mp h
    obtain ⟨-, w7, -, h⟩ := Eff.bind_eq_ok.mp h
    cases h
    exact ⟨readDataFrame_limit hframe, rfl, rfl⟩
  split at h
  · split at h
    · cases h
    obtain ⟨finalCt, w2, -, h⟩ := Eff.bind_eq_ok.mp h
    obtain ⟨finalNonce, w3, -, h⟩ := Eff.bind_eq_ok.mp h
    obtain ⟨finalAad, w4, -, h⟩ := Eff.bind_eq_ok.mp h
    obtain ⟨-, w5, -, h⟩ := Eff.bind_eq_ok.mp h
    obtain ⟨newFinalNonce, w6, -, h⟩ := Eff.bind_eq_ok.mp h
    obtain ⟨newFinalAad, w7, -, h⟩ := Eff.bind_eq_ok.mp h
    obtain ⟨newFinalCt, w8, -, h⟩ := Eff.bind_eq_ok.mp h
    obtain ⟨-, w9, -, h⟩ := Eff.bind_eq_ok.mp h
    obtain ⟨trailing, w10, -, h⟩ := Eff.bind_eq_ok.mp h
    split at h <;> cases h
  · cases h

def migrateLoop (env : Env H) (oldAesgcm oldHeaderBytes oldBaseNonce : Bytes)
    (newAesgcm newHeaderBytes newBaseNonce : Bytes) :
    Loop Exc (World ι ω) MigrateVars Bool where
  step := migrateStep env oldAesgcm oldHeaderBytes oldBaseNonce newAesgcm newHeaderBytes
    newBaseNonce
  rank v _ := maxStreamDataFrames - v.sequenceNumber
  decreases := by
    intro v w v' w' h
    have hseq := migrateStep_continue h
    omega

def migrateStream (env : Env H) (privateHandles : List H) (newBundle : PublicBundle)
    (minProfile : Option PyStr) : Eff Exc (World ι ω) Unit := do
  let p ← readPrologue env privateHandles minProfile
  let oldRootKeyBuf ← onRuntime (Runtime.newBuffer p.rawRootKey)
  let newDerived ← onRuntime (deriveRootKey env newBundle)
  let newHeaderBytes ← Eff.lift newDerived.header.toBytes
  match newDerived.header.nonce with
  | none => Eff.raise (.valueError
      "derive_root_key() produced a v1 header with no nonce — cannot stream-migrate")
  | some newBaseNonce =>
  let newRootKeyBuf ← onRuntime (Runtime.newBuffer newDerived.rootKey)
  write newHeaderBytes
  Eff.tryFinally
    (Eff.tryCatch (do
      let oldKey ← onRuntime (Runtime.readBuffer oldRootKeyBuf)
      let oldAesgcm ← Eff.lift (AESGCM env.aead oldKey)
      let newKey ← onRuntime (Runtime.readBuffer newRootKeyBuf)
      let newAesgcm ← Eff.lift (AESGCM env.aead newKey)
      newReader p.unconsumedInitial
      let receivedFinal ← (migrateLoop env oldAesgcm p.headerBytes p.baseNonce newAesgcm
        newHeaderBytes newBaseNonce).toEff {}
      if !receivedFinal then
        Eff.raise (.decryptionError "decryption failed: missing FINAL frame")) fun e =>
      Eff.raise e.collapse)
    (do
      onRuntime (Runtime.zeroize oldRootKeyBuf)
      onRuntime (Runtime.zeroize newRootKeyBuf))

end CryptoFlex
