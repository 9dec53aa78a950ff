import CryptoFlex.Keystore.Failures
import CryptoFlex.Keystore.RoundTrip
import CryptoFlex.Streaming.Sequence

namespace CryptoFlex

open Lib World

variable {H ι ω : Type}

theorem SameCalls.deriveWrappingKey (kdf : PasswordKdf) (password : Password) (salt : Bytes)
    (kdfType : KdfType) : Eff.Keeps SameCalls (deriveWrappingKey kdf password salt kdfType) := by
  intro rt
  rw [deriveWrappingKey_frame]
  exact SameCalls.stable.refl rt

/-- A key goes into a buffer of its own, and the buffer is wiped in the end. -/
theorem SameCalls.bracket {α : Type} (key : Bytes) {body : Nat → Eff Exc Runtime α}
    (hbody : ∀ buf, Eff.Keeps SameCalls (body buf)) :
    Eff.Keeps SameCalls (Runtime.newBuffer key >>= fun buf =>
      Eff.tryFinally (body buf) (Runtime.zeroize buf)) := by
  have hnew : Eff.Keeps SameCalls (Runtime.newBuffer key) := fun _ => rfl
  have hwipe : ∀ buf, Eff.Keeps SameCalls (Runtime.zeroize buf) := fun _ _ => rfl
  apply Eff.Keeps.bind SameCalls.stable.trans hnew
  intro buf
  exact Eff.Keeps.tryFinally SameCalls.stable.trans (hbody buf) (hwipe buf)

theorem SameCalls.useKey {α : Type} (env : Env H) (buf : Nat) {body : Bytes → Eff Exc Runtime α}
    (hbody : ∀ aesgcm, Eff.Keeps SameCalls (body aesgcm)) :
    Eff.Keeps SameCalls (do
      let key ← Runtime.readBuffer buf
      let aesgcm ← Eff.lift (AESGCM env.aead key)
      body aesgcm) := by
  have hread : Eff.Keeps SameCalls (Runtime.readBuffer buf) := fun _ => rfl
  apply Eff.Keeps.bind SameCalls.stable.trans hread
  intro key
  apply Eff.Keeps.bind SameCalls.stable.trans (Eff.Keeps.lift SameCalls.stable.refl _)
  exact hbody

theorem Stable.generateKeypairs {K : Runtime → Runtime → Prop} (hK : Stable K)
    (ss : List (Source H)) : Eff.Keeps K (generateKeypairs ss) := by
  induction ss with
  | nil => exact Eff.Keeps.pure hK.refl _
  | cons s ss ih =>
    apply Eff.Keeps.bind hK.trans (hK.sample _)
    intro pair
    apply Eff.Keeps.bind hK.trans ih
    intro pairs
    exact Eff.Keeps.pure hK.refl _

theorem Stable.establishKeys {K : Runtime → Runtime → Prop} (hK : Stable K) (env : Env H)
    (engine : PolicyEngine) (constraint : Constraint) (requireQuantumSafe : Bool) :
    Eff.Keeps K (establishKeys env engine constraint requireQuantumSafe) := by
  apply Eff.Keeps.bind hK.trans (Eff.Keeps.lift hK.refl _)
  intro decision
  apply Eff.Keeps.bind hK.trans (hK.generateKeypairs _)
  intro pairs
  exact Eff.Keeps.pure hK.refl _

theorem Stable.recoverRootKey {K : Runtime → Runtime → Prop} (hK : Stable K) (env : Env H)
    (handles : List H) (header : CryptoflexHeader) (minProfile : Option PyStr) :
    Eff.Keeps K (recoverRootKey env handles header minProfile) := by
  have hbody : ∀ profile, Eff.Keeps K
      (Eff.tryCatch (recoverRootKeyInternal env handles header profile) fun e =>
        Eff.raise e.collapse) := by
    intro profile
    apply Eff.Keeps.tryCatch hK.trans (hK.recoverRootKeyInternal env handles header profile)
    intro e
    exact Eff.Keeps.raise hK.refl _
  unfold CryptoFlex.recoverRootKey
  split
  · exact Eff.Keeps.raise hK.refl _
  · split
    · exact hbody _
    · split
      · exact Eff.Keeps.raise hK.refl _
      · split
        · exact Eff.Keeps.raise hK.refl _
        · exact hbody _

theorem SameCalls.decrypt (env : Env H) (handles : List H) (blob : Bytes)
    (minProfile : Option PyStr) : Eff.Keeps SameCalls (decrypt env handles blob minProfile) := by
  have hK : Stable SameCalls := SameCalls.stable
  apply Eff.Keeps.bind hK.trans (Eff.Keeps.lift hK.refl _)
  intro parsed
  apply Eff.Keeps.bind hK.trans (Eff.Keeps.lift hK.refl _)
  intro _
  split
  · exact Eff.Keeps.raise hK.refl _
  apply Eff.Keeps.tryCatch hK.trans
  · apply Eff.Keeps.bind hK.trans (Eff.Keeps.lift hK.refl _)
    intro profile
    apply Eff.Keeps.bind hK.trans (hK.recoverRootKeyInternal env handles _ profile)
    intro rawRootKey
    apply SameCalls.bracket
    intro buf
    exact SameCalls.useKey env buf fun _ => SameCalls.aesgcmDecrypt env _ _ _ _
  · intro e
    exact Eff.Keeps.raise hK.refl _

theorem SameCalls.importKeysetBytes (env : Env H) (kdf : PasswordKdf) (data : Bytes)
    (password : Password) : Eff.Keeps SameCalls (importKeysetBytes env kdf data password) := by
  have hK : Stable SameCalls := SameCalls.stable
  unfold CryptoFlex.importKeysetBytes
  split
  · exact Eff.Keeps.raise hK.refl _
  split
  · exact Eff.Keeps.raise hK.refl _
  apply Eff.Keeps.bind hK.trans (Eff.Keeps.lift hK.refl _)
  intro kdfType
  apply Eff.Keeps.bind hK.trans (SameCalls.deriveWrappingKey kdf password _ kdfType)
  intro key
  rw [← Eff.bind_assoc]
  apply Eff.Keeps.bind hK.trans
  · apply SameCalls.bracket
    intro buf
    apply Eff.Keeps.tryCatch hK.trans
    · apply SameCalls.useKey env buf
      intro aesgcm
      apply Eff.Keeps.bind hK.trans (SameCalls.aesgcmDecrypt env _ _ _ _)
      intro plaintext
      exact Eff.Keeps.lift hK.refl _
    · intro e
      exact Eff.Keeps.raise hK.refl _
  · intro payload
    exact Eff.Keeps.lift hK.refl _

section Streams

/-- The same of a stream function: it may write, but does not encrypt. -/
def SameStreamCalls (w w' : World ι ω) : Prop := SameCalls w.rt w'.rt

namespace SameStreamCalls

theorem refl (w : World ι ω) : SameStreamCalls w w := rfl

theorem trans (w w' w'' : World ι ω) (h : SameStreamCalls w w') (h' : SameStreamCalls w' w'') :
    SameStreamCalls w w'' := SameCalls.stable.trans _ _ _ h h'

theorem onlyReads {α : Type} {x : Eff Exc (World ι ω) α} (hx : Eff.Keeps OnlyReads x) :
    Eff.Keeps SameStreamCalls x := hx.mono fun _ _ h => by
  show SameCalls _ _
  rw [h.1]
  exact SameCalls.stable.refl _

theorem onRuntime {α : Type} {x : Eff Exc Runtime α} (hx : Eff.Keeps SameCalls x) :
    Eff.Keeps SameStreamCalls (onRuntime x : Eff Exc (World ι ω) α) := fun w => hx w.rt

theorem write [Output ω] (b : Bytes) :
    Eff.Keeps SameStreamCalls (write b : Eff Exc (World ι ω) Unit) := by
  intro w
  obtain ⟨r, w', written, hrun, hrt, -⟩ := Appends.write b w
  rw [hrun]
  show SameCalls w.rt w'.rt
  rw [hrt]
  exact SameCalls.stable.refl _

end SameStreamCalls

variable [Input ι] [Output ω]

theorem decryptStep_sameCalls (env : Env H) (aesgcm headerBytes baseNonce : Bytes)
    (v : DecryptVars) :
    Eff.Keeps SameStreamCalls (decryptStep env aesgcm headerBytes baseNonce v :
      Eff Exc (World ι ω) (DecryptVars ⊕ Bool)) := by
  have hopen : ∀ nonce ct aad, Eff.Keeps SameStreamCalls
      (onRuntime (aesgcmDecrypt env aesgcm nonce ct aad) : Eff Exc (World ι ω) Bytes) :=
    fun _ _ _ => SameStreamCalls.onRuntime (SameCalls.aesgcmDecrypt env _ _ _ _)
  apply Eff.Keeps.bind SameStreamCalls.trans
    (SameStreamCalls.onlyReads (OnlyReads.readFrameType _))
  intro frameType
  split
  · exact Eff.Keeps.raise SameStreamCalls.refl _
  split
  · apply Eff.Keeps.bind SameStreamCalls.trans
      (SameStreamCalls.onlyReads (OnlyReads.readDataFrame _ _))
    rintro ⟨ptLen, ctWithTag⟩
    apply Eff.Keeps.bind SameStreamCalls.trans (Eff.Keeps.lift SameStreamCalls.refl _)
    intro nonce
    apply Eff.Keeps.bind SameStreamCalls.trans (Eff.Keeps.lift SameStreamCalls.refl _)
    intro aad
    apply Eff.Keeps.bind SameStreamCalls.trans (hopen _ _ _)
    intro plaintext
    apply Eff.Keeps.bind SameStreamCalls.trans (SameStreamCalls.write _)
    intro _
    exact Eff.Keeps.pure SameStreamCalls.refl _
  split
  · apply Eff.Keeps.bind SameStreamCalls.trans
      (SameStreamCalls.onlyReads OnlyReads.readFinalFrame)
    intro finalCt
    apply Eff.Keeps.bind SameStreamCalls.trans (Eff.Keeps.lift SameStreamCalls.refl _)
    intro finalNonce
    apply Eff.Keeps.bind SameStreamCalls.trans (Eff.Keeps.lift SameStreamCalls.refl _)
    intro finalAad
    apply Eff.Keeps.bind SameStreamCalls.trans (hopen _ _ _)
    intro _
    apply Eff.Keeps.bind SameStreamCalls.trans
      (SameStreamCalls.onlyReads (OnlyReads.onReader _))
    intro trailing
    split
    · exact Eff.Keeps.raise SameStreamCalls.refl _
    · exact Eff.Keeps.pure SameStreamCalls.refl _
  · exact Eff.Keeps.raise SameStreamCalls.refl _

theorem decryptStream_sameCalls (env : Env H) (handles : List H) (minProfile : Option PyStr) :
    Eff.Keeps SameStreamCalls (decryptStream env handles minProfile :
      Eff Exc (World ι ω) Unit) := by
  have hnew : ∀ key, Eff.Keeps SameStreamCalls
      (onRuntime (Runtime.newBuffer key) : Eff Exc (World ι ω) Nat) :=
    fun _ => SameStreamCalls.onRuntime fun _ => rfl
  have hbuffer : ∀ buf, Eff.Keeps SameStreamCalls
      (onRuntime (Runtime.readBuffer buf) : Eff Exc (World ι ω) Bytes) :=
    fun _ => SameStreamCalls.onRuntime fun _ => rfl
  have hwipe : ∀ buf, Eff.Keeps SameStreamCalls
      (onRuntime (Runtime.zeroize buf) : Eff Exc (World ι ω) Unit) :=
    fun _ => SameStreamCalls.onRuntime fun _ => rfl
  have hreader : ∀ initial, Eff.Keeps SameStreamCalls
      (newReader initial : Eff Exc (World ι ω) Unit) := fun _ _ => rfl
  apply Eff.Keeps.bind SameStreamCalls.trans
  · apply Eff.Keeps.bind SameStreamCalls.trans
      (SameStreamCalls.onlyReads (OnlyReads.onReader _))
    intro initial
    exact SameStreamCalls.onRuntime
      (SameCalls.stable.toRecording.parsePrologue env handles minProfile initial)
  intro p
  apply Eff.Keeps.bind SameStreamCalls.trans (hnew _)
  intro buf
  apply Eff.Keeps.tryFinally SameStreamCalls.trans _ (hwipe buf)
  apply Eff.Keeps.tryCatch SameStreamCalls.trans
  · apply Eff.Keeps.bind SameStreamCalls.trans (hbuffer buf)
    intro key
    apply Eff.Keeps.bind SameStreamCalls.trans (Eff.Keeps.lift SameStreamCalls.refl _)
    intro aesgcm
    apply Eff.Keeps.bind SameStreamCalls.trans (hreader _)
    intro _
    apply Eff.Keeps.bind SameStreamCalls.trans
      (Loop.run_keeps _ SameStreamCalls.trans (decryptStep_sameCalls env _ _ _) _)
    intro receivedFinal
    split
    · exact Eff.Keeps.raise SameStreamCalls.refl _
    · exact Eff.Keeps.pure SameStreamCalls.refl _
  · intro e
    exact Eff.Keeps.raise SameStreamCalls.refl _

end Streams

/-- `AESGCM.encrypt` is called once at most. -/
def OneCall (rt rt' : Runtime) : Prop :=
  ∃ calls, rt'.encryptCalls = rt.encryptCalls ++ calls ∧ calls.length ≤ 1

namespace OneCall

variable {α β : Type}

theorem of_same {rt rt' : Runtime} (h : SameCalls rt rt') : OneCall rt rt' := by
  have hcalls : rt'.encryptCalls = rt.encryptCalls := h
  exact ⟨[], by simp [hcalls], by simp⟩

theorem aesgcmEncrypt (env : Env H) (key nonce data aad : Bytes) :
    Eff.Keeps OneCall (aesgcmEncrypt env key nonce data aad) := by
  intro rt
  refine ⟨[{ key, nonce, aad, plaintext := data }], ?_, by simp⟩
  simp [aesgcmEncrypt_run, Runtime.encryptCalls, Event.encryptCall?]

/-- Behind a part that does not encrypt. -/
theorem after {x : Eff Exc Runtime α} {f : α → Eff Exc Runtime β} (hx : Eff.Keeps SameCalls x)
    (hf : ∀ a, Eff.Keeps OneCall (f a)) : Eff.Keeps OneCall (x >>= f) := by
  intro rt
  rcases hrun : x.run rt with ⟨e | a, rt₁⟩
  · rw [Eff.bind_error hrun]
    exact of_same (hx.of_eq hrun)
  · rw [Eff.bind_ok hrun]
    have hcalls : rt₁.encryptCalls = rt.encryptCalls := hx.of_eq hrun
    obtain ⟨calls, hnew, hlen⟩ := hf a rt₁
    exact ⟨calls, by rw [hnew, hcalls], hlen⟩

/-- In front of a part that does not encrypt. -/
theorem before {x : Eff Exc Runtime α} {f : α → Eff Exc Runtime β} (hx : Eff.Keeps OneCall x)
    (hf : ∀ a, Eff.Keeps SameCalls (f a)) : Eff.Keeps OneCall (x >>= f) := by
  intro rt
  rcases hrun : x.run rt with ⟨e | a, rt₁⟩
  · rw [Eff.bind_error hrun]
    exact hx.of_eq hrun
  · rw [Eff.bind_ok hrun]
    obtain ⟨calls, hnew, hlen⟩ := hx.of_eq hrun
    have hcalls : ((f a).run rt₁).2.encryptCalls = rt₁.encryptCalls := hf a rt₁
    exact ⟨calls, by rw [hcalls, hnew], hlen⟩

theorem close {x : Eff Exc Runtime α} {fin : Eff Exc Runtime Unit} (hx : Eff.Keeps OneCall x)
    (hfin : Eff.Keeps SameCalls fin) : Eff.Keeps OneCall (Eff.tryFinally x fin) := by
  intro rt
  rcases hrun : x.run rt with ⟨r, rt₁⟩
  rcases hend : fin.run rt₁ with ⟨r', rt₂⟩
  obtain ⟨calls, hnew, hlen⟩ := hx.of_eq hrun
  have hcalls : rt₂.encryptCalls = rt₁.encryptCalls := hfin.of_eq hend
  have hkept : OneCall rt rt₂ := ⟨calls, by rw [hcalls, hnew], hlen⟩
  cases r' with
  | error e => rwa [Eff.tryFinally_error hrun hend]
  | ok _ => rwa [Eff.tryFinally_run hrun hend]

/-- A key in a buffer of its own, one encryption under it, and the wiping. -/
theorem sealInBuffer (env : Env H) (key nonce data aad : Bytes) :
    Eff.Keeps OneCall (Runtime.newBuffer key >>= fun buf =>
      Eff.tryFinally (do
        let key ← Runtime.readBuffer buf
        let aesgcm ← Eff.lift (AESGCM env.aead key)
        CryptoFlex.aesgcmEncrypt env aesgcm nonce data aad) (Runtime.zeroize buf)) := by
  have hnew : Eff.Keeps SameCalls (Runtime.newBuffer key) := fun _ => rfl
  have hread : ∀ buf, Eff.Keeps SameCalls (Runtime.readBuffer buf) := fun _ _ => rfl
  have hwipe : ∀ buf, Eff.Keeps SameCalls (Runtime.zeroize buf) := fun _ _ => rfl
  apply after hnew
  intro buf
  apply close _ (hwipe buf)
  apply after (hread buf)
  intro key
  apply after (Eff.Keeps.lift SameCalls.stable.refl _)
  intro aesgcm
  exact aesgcmEncrypt env aesgcm nonce data aad

theorem ephemeralEncrypt (env : Env H) (bundle : PublicBundle) (plaintext : Bytes) :
    Eff.Keeps OneCall (ephemeralEncrypt env bundle plaintext) := by
  have hraise : ∀ {α : Type} (e : Exc), Eff.Keeps OneCall (Eff.raise e : Eff Exc Runtime α) :=
    fun _ _ => of_same rfl
  apply after (SameCalls.stable.deriveRootKey env bundle)
  intro derived
  apply after (Eff.Keeps.lift SameCalls.stable.refl _)
  intro headerBytes
  split
  · exact hraise _
  rw [← Eff.bind_assoc]
  apply before (sealInBuffer env _ _ _ _)
  intro ct
  exact Eff.Keeps.pure SameCalls.stable.refl _

theorem encrypt (env : Env H) (bundle : PublicBundle) (plaintext : Bytes) :
    Eff.Keeps OneCall (encrypt env bundle plaintext) := by
  intro rt
  have h := ephemeralEncrypt env bundle plaintext rt
  obtain ⟨heap, hrun⟩ := ephemeralEncrypt_run env bundle plaintext rt
  rw [hrun] at h
  exact h

theorem migrate (env : Env H) (handles : List H) (blob : Bytes) (newBundle : PublicBundle)
    (minProfile : Option PyStr) :
    Eff.Keeps OneCall (migrate env handles blob newBundle minProfile) :=
  after (SameCalls.decrypt env handles blob minProfile) fun plaintext =>
    encrypt env newBundle plaintext

theorem exportKeysetBytes (env : Env H) (kdf : PasswordKdf) (keyset : KeySet H)
    (password : Password) (useArgon2 : Bool) :
    Eff.Keeps OneCall (exportKeysetBytes env kdf keyset password useArgon2) := by
  have hK : Stable SameCalls := SameCalls.stable
  apply after (Eff.Keeps.lift hK.refl _)
  intro plaintext
  apply after (hK.sample _)
  intro salt
  apply after (hK.sample _)
  intro nonce
  apply after (SameCalls.deriveWrappingKey kdf password salt _)
  intro key
  rw [← Eff.bind_assoc]
  apply before (sealInBuffer env _ _ _ _)
  intro ct
  exact Eff.Keeps.pure hK.refl _

end OneCall

/-- Encryptions under one key, with a nonce of its own for each. -/
structure Episode (calls : List EncryptCall) : Prop where
  oneKey : ∀ c ∈ calls, ∀ c' ∈ calls, c.key = c'.key
  nonces : (calls.map (·.nonce)).Nodup

theorem Episode.nil : Episode [] := ⟨by simp, by simp⟩

theorem Episode.of_length {calls : List EncryptCall} (h : calls.length ≤ 1) : Episode calls := by
  match calls, h with
  | [], _ => exact Episode.nil
  | [c], _ => exact ⟨by simp, by simp⟩

theorem dataCalls_key (k : StreamKey) (seq : Nat) (pts : List Bytes) :
    ∀ c ∈ dataCalls k seq pts, c.key = k.aesgcm := by
  induction pts generalizing seq with
  | nil => simp [dataCalls]
  | cons pt pts ih => simpa [dataCalls, StreamKey.callAt] using ih (seq + 1)

theorem streamCalls_key (k : StreamKey) (pts : List Bytes) (ended : Bool) :
    ∀ c ∈ streamCalls k pts ended, c.key = k.aesgcm := by
  intro c hc
  rcases List.mem_append.mp hc with hc | hc
  · exact dataCalls_key k 0 pts c hc
  · cases ended with
    | false => simp at hc
    | true =>
      have hlast : c = k.callAt pts.length aadTagFinal [] := by simpa using hc
      rw [hlast, StreamKey.callAt]

theorem streamCalls_episode (k : StreamKey) {pts : List Bytes} (ended : Bool)
    (hcount : pts.length ≤ maxStreamDataFrames) : Episode (streamCalls k pts ended) where
  oneKey c hc c' hc' := by rw [streamCalls_key k pts ended c hc, streamCalls_key k pts ended c' hc']
  nonces := streamCalls_nodup k ended hcount

/-- What a step of the process adds to the encryptions is an episode. -/
def Extends (rt rt' : Runtime) : Prop :=
  ∃ calls, rt'.encryptCalls = rt.encryptCalls ++ calls ∧ Episode calls

theorem SameCalls.extends {rt rt' : Runtime} (h : SameCalls rt rt') : Extends rt rt' := by
  have hcalls : rt'.encryptCalls = rt.encryptCalls := h
  exact ⟨[], by simp [hcalls], Episode.nil⟩

theorem OneCall.extends {rt rt' : Runtime} (h : OneCall rt rt') : Extends rt rt' := by
  obtain ⟨calls, hnew, hlen⟩ := h
  exact ⟨calls, hnew, Episode.of_length hlen⟩

theorem Obeys.extends {env : Env H} {sized : Prop} {bundle : PublicBundle} {rt : Runtime}
    {r : Except Exc Unit} {w : World ι ω} (h : Obeys env sized bundle rt r w) :
    Extends rt w.rt := by
  rcases h with ⟨-, hsame, -⟩ | ⟨k, -, chunks, final, pts, ended, hcalls, hd⟩
  · exact hsame.extends
  · exact ⟨streamCalls k pts ended, hcalls, streamCalls_episode k ended hd.count⟩

/-- The calls of the package that a program makes in one process. -/
inductive ApiCall (H : Type) : Type 1
  | establishKeys (engine : PolicyEngine) (constraint : Constraint) (requireQuantumSafe : Bool)
  | deriveRootKey (bundle : PublicBundle)
  | recoverRootKey (handles : List H) (header : CryptoflexHeader) (minProfile : Option PyStr)
  | encrypt (bundle : PublicBundle) (plaintext : Bytes)
  | decrypt (handles : List H) (blob : Bytes) (minProfile : Option PyStr)
  | migrate (handles : List H) (blob : Bytes) (newBundle : PublicBundle)
    (minProfile : Option PyStr)
  | ephemeralEncrypt (bundle : PublicBundle) (plaintext : Bytes)
  | ephemeralDecrypt (handles : List H) (message : WireMessage) (minProfile : Option PyStr)
  | encryptStream {ι ω : Type} [Input ι] [Output ω] (input : ι) (sink : ω)
    (bundle : PublicBundle) (chunkSize : Int)
  | decryptStream {ι ω : Type} [Input ι] [Output ω] (input : ι) (sink : ω) (handles : List H)
    (minProfile : Option PyStr)
  | migrateStream {ι ω : Type} [Input ι] [Output ω] (input : ι) (sink : ω) (handles : List H)
    (newBundle : PublicBundle) (minProfile : Option PyStr)
  | exportKeysetBytes (keyset : KeySet H) (password : Password) (useArgon2 : Bool)
  | importKeysetBytes (data : Bytes) (password : Password)

section Process

variable (env : Env H) (kdf : PasswordKdf)

/-- The state of the process behind the call, whether it returns or raises. -/
def ApiCall.perform (rt : Runtime) : ApiCall H → Runtime
  | establishKeys engine constraint requireQuantumSafe =>
    ((CryptoFlex.establishKeys env engine constraint requireQuantumSafe).run rt).2
  | deriveRootKey bundle => ((CryptoFlex.deriveRootKey env bundle).run rt).2
  | recoverRootKey handles header minProfile =>
    ((CryptoFlex.recoverRootKey env handles header minProfile).run rt).2
  | encrypt bundle plaintext => ((CryptoFlex.encrypt env bundle plaintext).run rt).2
  | decrypt handles blob minProfile => ((CryptoFlex.decrypt env handles blob minProfile).run rt).2
  | migrate handles blob newBundle minProfile =>
    ((CryptoFlex.migrate env handles blob newBundle minProfile).run rt).2
  | ephemeralEncrypt bundle plaintext =>
    ((CryptoFlex.ephemeralEncrypt env bundle plaintext).run rt).2
  | ephemeralDecrypt handles message minProfile =>
    ((CryptoFlex.ephemeralDecrypt env handles message minProfile).run rt).2
  | encryptStream input sink bundle chunkSize =>
    ((CryptoFlex.encryptStream env bundle chunkSize).run (World.start rt input sink)).2.rt
  | decryptStream input sink handles minProfile =>
    ((CryptoFlex.decryptStream env handles minProfile).run (World.start rt input sink)).2.rt
  | migrateStream input sink handles newBundle minProfile =>
    ((CryptoFlex.migrateStream env handles newBundle minProfile).run
      (World.start rt input sink)).2.rt
  | exportKeysetBytes keyset password useArgon2 =>
    ((CryptoFlex.exportKeysetBytes env kdf keyset password useArgon2).run rt).2
  | importKeysetBytes data password =>
    ((CryptoFlex.importKeysetBytes env kdf data password).run rt).2

variable {env}

theorem ApiCall.perform_extends (hd : env.aead.Documented) (call : ApiCall H) (rt : Runtime) :
    Extends rt (call.perform env kdf rt) := by
  cases call with
  | establishKeys engine constraint requireQuantumSafe =>
    exact SameCalls.extends
      (SameCalls.stable.establishKeys env engine constraint requireQuantumSafe rt)
  | deriveRootKey bundle => exact (SameCalls.stable.deriveRootKey env bundle rt).extends
  | recoverRootKey handles header minProfile =>
    exact SameCalls.extends (SameCalls.stable.recoverRootKey env handles header minProfile rt)
  | encrypt bundle plaintext => exact (OneCall.encrypt env bundle plaintext rt).extends
  | decrypt handles blob minProfile =>
    exact (SameCalls.decrypt env handles blob minProfile rt).extends
  | migrate handles blob newBundle minProfile =>
    exact (OneCall.migrate env handles blob newBundle minProfile rt).extends
  | ephemeralEncrypt bundle plaintext =>
    exact (OneCall.ephemeralEncrypt env bundle plaintext rt).extends
  | ephemeralDecrypt handles message minProfile =>
    exact (SameCalls.decrypt env handles message.encryptedBlob minProfile rt).extends
  | encryptStream input sink bundle chunkSize =>
    exact Obeys.extends (encryptStream_obeys env bundle chunkSize rt input sink)
  | decryptStream input sink handles minProfile =>
    have hsame := decryptStream_sameCalls env handles minProfile (World.start rt input sink)
    exact SameCalls.extends hsame
  | migrateStream input sink handles newBundle minProfile =>
    exact Obeys.extends (migrateStream_obeys hd handles newBundle minProfile rt input sink)
  | exportKeysetBytes keyset password useArgon2 =>
    exact (OneCall.exportKeysetBytes env kdf keyset password useArgon2 rt).extends
  | importKeysetBytes data password =>
    exact (SameCalls.importKeysetBytes env kdf data password rt).extends

variable (env)

/-- The process after the calls of its history. -/
def performAll (rt : Runtime) : List (ApiCall H) → Runtime
  | [] => rt
  | call :: history => performAll (call.perform env kdf rt) history

/-- The encryptions of each call of a history. -/
def episodes (rt : Runtime) : List (ApiCall H) → List (List EncryptCall)
  | [] => []
  | call :: history =>
    (call.perform env kdf rt).encryptCalls.drop rt.encryptCalls.length ::
      episodes (call.perform env kdf rt) history

/-- Encryptions of different calls are under different keys. -/
def KeysApart (calls calls' : List EncryptCall) : Prop :=
  ∀ c ∈ calls, ∀ c' ∈ calls', c.key ≠ c'.key

/-- Keys are compared byte for byte. -/
instance KeysApart.decidable (calls calls' : List EncryptCall) :
    Decidable (KeysApart calls calls') :=
  inferInstanceAs (Decidable (∀ c ∈ calls, ∀ c' ∈ calls', c.key ≠ c'.key))

/-- What must be different of any two encryptions. -/
def EncryptCall.keyNonce (c : EncryptCall) : Bytes × Bytes := (c.key, c.nonce)

theorem Episode.nodup {calls : List EncryptCall} (h : Episode calls) :
    (calls.map EncryptCall.keyNonce).Nodup := by
  have hnonces : ((calls.map EncryptCall.keyNonce).map Prod.snd).Nodup := by
    simpa [List.map_map, Function.comp_def, EncryptCall.keyNonce] using h.nonces
  exact hnonces.of_map

theorem KeysApart.disjoint {calls : List EncryptCall} {later : List (List EncryptCall)}
    (h : ∀ calls' ∈ later, KeysApart calls calls') :
    (calls.map EncryptCall.keyNonce).Disjoint (later.flatten.map EncryptCall.keyNonce) := by
  intro pair hpair hlater
  obtain ⟨c, hc, rfl⟩ := List.mem_map.mp hpair
  obtain ⟨c', hc', hsame⟩ := List.mem_map.mp hlater
  obtain ⟨calls', hmem, hc'⟩ := List.mem_flatten.mp hc'
  exact h calls' hmem c hc c' hc' (Prod.mk.inj hsame).1.symm

/-- In no history of a process, whatever raises in it, is a nonce used twice under one key, given
that different calls work under different keys. -/
theorem nonces_neverReused (hd : env.aead.Documented) (history : List (ApiCall H)) (rt : Runtime)
    (hkeys : (episodes env kdf rt history).Pairwise KeysApart) :
    (performAll env kdf rt history).encryptCalls =
        rt.encryptCalls ++ (episodes env kdf rt history).flatten ∧
      ((episodes env kdf rt history).flatten.map EncryptCall.keyNonce).Nodup := by
  induction history generalizing rt with
  | nil => exact ⟨by simp [performAll, episodes], by simp [episodes]⟩
  | cons call history ih =>
    obtain ⟨hapart, hrest⟩ := List.pairwise_cons.mp hkeys
    obtain ⟨calls, hcalls, hepisode⟩ := call.perform_extends kdf hd rt
    obtain ⟨htrace, hnodup⟩ := ih _ hrest
    have hnew : (call.perform env kdf rt).encryptCalls.drop rt.encryptCalls.length = calls := by
      rw [hcalls]
      simp
    rw [hnew] at hapart
    refine ⟨?_, ?_⟩
    · rw [performAll, htrace, hcalls, episodes, hnew, List.flatten_cons, List.append_assoc]
    · rw [episodes, hnew, List.flatten_cons, List.map_append]
      exact hepisode.nodup.append hnodup (KeysApart.disjoint hapart)

end Process

/-- A message to the holder of the all-zero keys, and a keystore of these keys. -/
def zeroHistory : List (ApiCall (PrivateHandle Bytes Bytes)) :=
  [.encrypt zeroBundle [7], .exportKeysetBytes zeroKeyset (.bytes [1]) true]

theorem nonces_neverReused_zero :
    (performAll (xorEnv zeroTagAead) padKdf zeroRuntime zeroHistory).encryptCalls =
        zeroRuntime.encryptCalls ++
          (episodes (xorEnv zeroTagAead) padKdf zeroRuntime zeroHistory).flatten ∧
      ((episodes (xorEnv zeroTagAead) padKdf zeroRuntime zeroHistory).flatten.map
        EncryptCall.keyNonce).Nodup :=
  nonces_neverReused (xorEnv zeroTagAead) padKdf zeroTagAead_correct.toDocumented zeroHistory
    zeroRuntime (by decide +kernel)

end CryptoFlex
