import CryptoFlex.Api.Blob
import CryptoFlex.Keystore.Import
import CryptoFlex.Streaming.DecryptRun
import CryptoFlex.Streaming.Migrate

namespace CryptoFlex

open Lib World

variable {H ι ω : Type}

def AllZero (b : Bytes) : Prop := ∀ x ∈ b, x = 0

theorem allZero_replicate (n : Nat) : AllZero (List.replicate n 0) :=
  fun _ hx => List.eq_of_mem_replicate hx

/-- A frame condition: the old bytearrays are as they were, and the new ones hold zeros only. -/
def Wipes (rt rt' : Runtime) : Prop := ∃ left, rt'.heap = rt.heap ++ left ∧ ∀ b ∈ left, AllZero b

namespace Wipes

theorem of_sameHeap {rt rt' : Runtime} (h : SameHeap rt rt') : Wipes rt rt' := by
  have hheap : rt'.heap = rt.heap := h
  exact ⟨[], by rw [hheap, List.append_nil], nofun⟩

/-- Without any wiping the frame holds just if the new buffers were made of zeros. -/
theorem iff_of_heap {rt rt' : Runtime} {left : List Bytes}
    (h : rt'.heap = rt.heap ++ left) : Wipes rt rt' ↔ ∀ b ∈ left, AllZero b := by
  constructor
  · rintro ⟨left', hheap, hleft⟩
    rw [h] at hheap
    rw [List.append_cancel_left hheap]
    exact hleft
  · intro hleft
    exact ⟨left, h, hleft⟩

theorem stable : Stable Wipes where
  refl _ := of_sameHeap rfl
  trans := by
    rintro rt rt' rt'' ⟨left, hheap, hleft⟩ ⟨left', hheap', hleft'⟩
    refine ⟨left ++ left', by rw [hheap', hheap, List.append_assoc], ?_⟩
    intro b hb
    rcases List.mem_append.mp hb with hb | hb
    · exact hleft b hb
    · exact hleft' b hb
  sample _ _ := of_sameHeap rfl
  record _ _ _ := of_sameHeap rfl

/-- Wiping the buffer that was created first closes the frame. -/
theorem close {rt rt' : Runtime} {b : Bytes} (h : Wipes { rt with heap := rt.heap ++ [b] } rt') :
    Wipes rt ((Runtime.zeroize rt.heap.length).run rt').2 := by
  obtain ⟨left, hheap, hleft⟩ := h
  have hsplit : rt'.heap = rt.heap ++ b :: left := by rw [hheap, List.append_assoc]; rfl
  refine ⟨List.replicate b.length 0 :: left, ?_, ?_⟩
  · rw [Runtime.zeroize_run, hsplit, Runtime.modify_append_cons]
  · rw [List.forall_mem_cons]
    exact ⟨allZero_replicate _, hleft⟩

/-- `buf = bytearray(b)` and `try: ... finally: zeroize(buf)` with nothing between them. -/
theorem bracket {α : Type} (b : Bytes) {body : Nat → Eff Exc Runtime α}
    (hbody : ∀ buf, Eff.Keeps Wipes (body buf)) :
    Eff.Keeps Wipes (Runtime.newBuffer b >>= fun buf =>
      Eff.tryFinally (body buf) (Runtime.zeroize buf)) := by
  intro rt
  rw [Eff.bind_ok (Runtime.newBuffer_run b rt)]
  rcases hrun : (body rt.heap.length).run { rt with heap := rt.heap ++ [b] } with ⟨r, rt'⟩
  rw [Eff.tryFinally_run hrun (Runtime.zeroize_run _ _)]
  exact close ((hbody _).of_eq hrun)

theorem aesgcmEncrypt (env : Env H) (key nonce data aad : Bytes) :
    Eff.Keeps Wipes (aesgcmEncrypt env key nonce data aad) := fun _ => of_sameHeap rfl

theorem aesgcmDecrypt (env : Env H) (key nonce data aad : Bytes) :
    Eff.Keeps Wipes (aesgcmDecrypt env key nonce data aad) := fun _ => of_sameHeap rfl

theorem readBuffer (buf : Nat) : Eff.Keeps Wipes (Runtime.readBuffer buf) := stable.refl

/-- The body that every blob function runs between the buffer and its wiping. -/
theorem useKey {α : Type} (env : Env H) (buf : Nat) {body : Bytes → Eff Exc Runtime α}
    (hbody : ∀ aesgcm, Eff.Keeps Wipes (body aesgcm)) :
    Eff.Keeps Wipes (do
      let key ← Runtime.readBuffer buf
      let aesgcm ← Eff.lift (AESGCM env.aead key)
      body aesgcm) := by
  apply Eff.Keeps.bind stable.trans (readBuffer buf)
  intro key
  apply Eff.Keeps.bind stable.trans (Eff.Keeps.lift stable.refl _)
  exact hbody

end Wipes

theorem decrypt_wipes (env : Env H) (handles : List H) (blob : Bytes)
    (minProfile : Option PyStr) : Eff.Keeps Wipes (decrypt env handles blob minProfile) := by
  have hK : Stable Wipes := Wipes.stable
  apply Eff.Keeps.bind hK.trans (Eff.Keeps.lift hK.refl _)
  intro p
  apply Eff.Keeps.bind hK.trans (Eff.Keeps.lift hK.refl _)
  intro _
  split
  · exact Eff.Keeps.raise hK.refl _
  apply Eff.Keeps.tryCatch hK.trans
  · apply Eff.Keeps.bind hK.trans (Eff.Keeps.lift hK.refl _)
    intro profile
    apply Eff.Keeps.bind hK.trans (hK.recoverRootKeyInternal env handles _ profile)
    intro rawRootKey
    apply Wipes.bracket
    intro buf
    exact Wipes.useKey env buf fun _ => Wipes.aesgcmDecrypt env _ _ _ _
  · intro e
    exact Eff.Keeps.raise hK.refl _

theorem ephemeralEncrypt_wipes (env : Env H) (bundle : PublicBundle) (plaintext : Bytes) :
    Eff.Keeps Wipes (ephemeralEncrypt env bundle plaintext) := by
  have hK : Stable Wipes := Wipes.stable
  apply Eff.Keeps.bind hK.trans (hK.deriveRootKey env bundle)
  intro derived
  apply Eff.Keeps.bind hK.trans (Eff.Keeps.lift hK.refl _)
  intro headerBytes
  split
  · exact Eff.Keeps.raise hK.refl _
  rw [← Eff.bind_assoc]
  apply Eff.Keeps.bind hK.trans
  · apply Wipes.bracket
    intro buf
    exact Wipes.useKey env buf fun _ => Wipes.aesgcmEncrypt env _ _ _ _
  · intro ct
    exact Eff.Keeps.pure hK.refl _

/-- Of the derived root key `key` no cipher object can be made. -/
structure RootKeyExposed (env : Env H) (bundle : PublicBundle) (rt : Runtime) (key : Bytes) :
    Prop where
  derived : ∃ k : StreamKey, k.DerivedFrom env bundle rt ∧ k.aesgcm = key
  refused : ∃ e, env.aead.init key = .error e
  nonzero : ¬AllZero key

/-- `encrypt` makes its cipher object between filling the buffer and the `try`: the buffer is wiped
if that does not raise. -/
theorem encrypt_heap (env : Env H) (bundle : PublicBundle) (plaintext : Bytes) (rt : Runtime) :
    (((encrypt env bundle plaintext).run rt).2.heap = rt.heap ∧
      ¬∃ k : StreamKey, k.DerivedFrom env bundle rt) ∨
    ∃ k : StreamKey, k.DerivedFrom env bundle rt ∧
      match env.aead.init k.aesgcm with
      | .error _ => ((encrypt env bundle plaintext).run rt).2.heap = rt.heap ++ [k.aesgcm]
      | .ok _ => ((encrypt env bundle plaintext).run rt).2.heap =
          rt.heap ++ [List.replicate k.aesgcm.length 0] := by
  unfold encrypt
  rcases hderive : (deriveRootKey env bundle).run rt with ⟨e | d, rt₁⟩
  · rw [Eff.bind_error hderive]
    refine Or.inl ⟨(SameHeap.stable.deriveRootKey env bundle).of_eq hderive, ?_⟩
    rintro ⟨k, d, rt', hderive', -⟩
    rw [hderive] at hderive'
    cases hderive'
  have hheap : rt₁.heap = rt.heap := (SameHeap.stable.deriveRootKey env bundle).of_eq hderive
  rw [Eff.bind_ok hderive]
  cases hheader : d.header.toBytes with
  | error e =>
    refine Or.inl ⟨hheap, ?_⟩
    rintro ⟨k, d', rt', hderive', hbytes, -⟩
    rw [hderive] at hderive'
    cases hderive'
    rw [hheader] at hbytes
    cases hbytes
  | ok headerBytes =>
  obtain ⟨profile, encs, nonce, hd⟩ := deriveRootKey_eq_ok hderive
  have hnonce : d.header.nonce = some nonce := by rw [hd.header]
  refine Or.inr ⟨⟨d.rootKey, headerBytes, nonce⟩, ⟨d, rt₁, hderive, hheader, hnonce, rfl⟩, ?_⟩
  rw [Eff.run_lift_ok_bind, hnonce]
  dsimp only
  rw [Eff.bind_ok (Runtime.newBuffer_run d.rootKey rt₁),
    Eff.bind_ok (Runtime.readBuffer_new d.rootKey rt₁)]
  cases hinit : env.aead.init d.rootKey with
  | error e =>
    rw [AESGCM_of_error hinit, Eff.run_lift_error_bind, ← hheap]
  | ok u =>
    let rt₂ : Runtime := { rt₁ with heap := rt₁.heap ++ [d.rootKey] }
    have hseal := aesgcmEncrypt_run env d.rootKey nonce plaintext headerBytes rt₂
    have hall := Eff.tryFinally_run hseal (Runtime.zeroize_run rt₁.heap.length _)
    have hwiped : (rt₁.heap ++ [d.rootKey]).modify rt₁.heap.length
        (fun b => List.replicate b.length 0) = rt.heap ++ [List.replicate d.rootKey.length 0] := by
      rw [Runtime.modify_append_cons, hheap]
    rw [AESGCM_of_init hinit, Eff.run_lift_ok_bind]
    cases he : env.aead.encrypt d.rootKey nonce plaintext headerBytes with
    | error e =>
      rw [he] at hall
      rw [Eff.bind_error hall]
      exact hwiped
    | ok ct =>
      rw [he] at hall
      rw [Eff.bind_ok hall]
      exact hwiped

theorem encrypt_leaves {env : Env H} {bundle : PublicBundle} {rt : Runtime} {key : Bytes}
    (h : RootKeyExposed env bundle rt key) (plaintext : Bytes) :
    ((encrypt env bundle plaintext).run rt).2.heap = rt.heap ++ [key] := by
  obtain ⟨k, hk, rfl⟩ := h.derived
  obtain ⟨e, he⟩ := h.refused
  rcases encrypt_heap env bundle plaintext rt with ⟨-, hnone⟩ | ⟨k', hk', hheap⟩
  · exact absurd ⟨k, hk⟩ hnone
  · rw [hk'.unique rfl hk, he] at hheap
    exact hheap

theorem encrypt_wipes_iff (env : Env H) (bundle : PublicBundle) (plaintext : Bytes)
    (rt : Runtime) : Wipes rt ((encrypt env bundle plaintext).run rt).2 ↔
      ∀ key, ¬RootKeyExposed env bundle rt key := by
  rcases encrypt_heap env bundle plaintext rt with ⟨hheap, hnone⟩ | ⟨k, hk, hheap⟩
  · refine iff_of_true (Wipes.of_sameHeap hheap) ?_
    intro key h
    obtain ⟨k, hk, -⟩ := h.derived
    exact hnone ⟨k, hk⟩
  cases hinit : env.aead.init k.aesgcm with
  | error e =>
    rw [hinit] at hheap
    rw [Wipes.iff_of_heap hheap, List.forall_mem_singleton]
    constructor
    · intro hzero key h
      obtain ⟨k', hk', rfl⟩ := h.derived
      rw [hk'.unique rfl hk] at h
      exact h.nonzero hzero
    · intro hnone
      by_contra hzero
      exact hnone k.aesgcm ⟨⟨k, hk, rfl⟩, ⟨e, hinit⟩, hzero⟩
  | ok u =>
    rw [hinit] at hheap
    refine iff_of_true ?_ ?_
    · rw [Wipes.iff_of_heap hheap, List.forall_mem_singleton]
      exact allZero_replicate _
    · intro key h
      obtain ⟨k', hk', rfl⟩ := h.derived
      obtain ⟨e, he⟩ := h.refused
      rw [hk'.unique rfl hk, hinit] at he
      cases he

/-- AES-GCM takes every key of 32 bytes, which root keys are. -/
theorem encrypt_wipes {env : Env H} (ha : env.aead.Documented) (bundle : PublicBundle)
    (plaintext : Bytes) : Eff.Keeps Wipes (encrypt env bundle plaintext) := by
  intro rt
  rw [encrypt_wipes_iff]
  intro key h
  obtain ⟨k, hk, rfl⟩ := h.derived
  obtain ⟨e, he⟩ := h.refused
  rw [ha.init_ok _ hk.lengths.1] at he
  cases he

theorem deriveWrappingKey_wipes (kdf : PasswordKdf) (password : Password) (salt : Bytes)
    (kdfType : KdfType) : Eff.Keeps Wipes (deriveWrappingKey kdf password salt kdfType) := by
  intro rt
  rw [deriveWrappingKey_frame]
  exact Wipes.stable.refl rt

theorem exportKeysetBytes_wipes (env : Env H) (kdf : PasswordKdf) (keyset : KeySet H)
    (password : Password) (useArgon2 : Bool) :
    Eff.Keeps Wipes (exportKeysetBytes env kdf keyset password useArgon2) := by
  have hK : Stable Wipes := Wipes.stable
  apply Eff.Keeps.bind hK.trans (Eff.Keeps.lift hK.refl _)
  intro plaintext
  apply Eff.Keeps.bind hK.trans (hK.sample _)
  intro salt
  apply Eff.Keeps.bind hK.trans (hK.sample _)
  intro nonce
  apply Eff.Keeps.bind hK.trans (deriveWrappingKey_wipes kdf password salt _)
  intro key
  rw [← Eff.bind_assoc]
  apply Eff.Keeps.bind hK.trans
  · apply Wipes.bracket
    intro buf
    exact Wipes.useKey env buf fun _ => Wipes.aesgcmEncrypt env _ _ _ _
  · intro ct
    exact Eff.Keeps.pure hK.refl _

theorem importKeysetBytes_wipes (env : Env H) (kdf : PasswordKdf) (data : Bytes)
    (password : Password) : Eff.Keeps Wipes (importKeysetBytes env kdf data password) := by
  have hK : Stable Wipes := Wipes.stable
  unfold importKeysetBytes
  split
  · exact Eff.Keeps.raise hK.refl _
  split
  · exact Eff.Keeps.raise hK.refl _
  apply Eff.Keeps.bind hK.trans (Eff.Keeps.lift hK.refl _)
  intro kdfType
  apply Eff.Keeps.bind hK.trans (deriveWrappingKey_wipes kdf password _ kdfType)
  intro key
  rw [← Eff.bind_assoc]
  apply Eff.Keeps.bind hK.trans
  · apply Wipes.bracket
    intro buf
    apply Eff.Keeps.tryCatch hK.trans
    · apply Wipes.useKey env buf
      intro aesgcm
      apply Eff.Keeps.bind hK.trans (Wipes.aesgcmDecrypt env _ _ _ _)
      intro plaintext
      exact Eff.Keeps.lift hK.refl _
    · intro e
      exact Eff.Keeps.raise hK.refl _
  · intro payload
    exact Eff.Keeps.lift hK.refl _

/-- The same frame for a stream function. -/
def StreamWipes (w w' : World ι ω) : Prop := Wipes w.rt w'.rt

namespace StreamWipes

theorem refl (w : World ι ω) : StreamWipes w w := Wipes.stable.refl w.rt

theorem trans (w w' w'' : World ι ω) (h : StreamWipes w w') (h' : StreamWipes w' w'') :
    StreamWipes w w'' := Wipes.stable.trans _ _ _ h h'

theorem of_rt_eq {w w' : World ι ω} (h : w'.rt = w.rt) : StreamWipes w w' :=
  Wipes.of_sameHeap (congrArg Runtime.heap h)

theorem onlyReads {α : Type} {x : Eff Exc (World ι ω) α} (hx : Eff.Keeps OnlyReads x) :
    Eff.Keeps StreamWipes x := Eff.Keeps.mono (fun _ _ h => of_rt_eq h.1) hx

theorem onRuntime {α : Type} {x : Eff Exc Runtime α} (hx : Eff.Keeps Wipes x) :
    Eff.Keeps StreamWipes (onRuntime x : Eff Exc (World ι ω) α) := fun w => hx w.rt

theorem write [Output ω] (b : Bytes) :
    Eff.Keeps StreamWipes (write b : Eff Exc (World ι ω) Unit) := by
  intro w
  unfold World.write
  dsimp only
  split <;> exact of_rt_eq rfl

theorem writeFrame [Output ω] (frameType : Nat) (ct : Bytes) :
    Eff.Keeps StreamWipes (writeFrame frameType ct : Eff Exc (World ι ω) Unit) := by
  apply Eff.Keeps.bind trans (Eff.Keeps.lift refl _)
  intro typeByte
  apply Eff.Keeps.bind trans (write _)
  intro _
  apply Eff.Keeps.bind trans (Eff.Keeps.lift refl _)
  intro length
  apply Eff.Keeps.bind trans (write _)
  intro _
  exact write _

theorem newReader (initial : Bytes) :
    Eff.Keeps StreamWipes (newReader initial : Eff Exc (World ι ω) Unit) :=
  fun _ => of_rt_eq rfl

theorem bracket {α : Type} (b : Bytes) {body : Nat → Eff Exc (World ι ω) α}
    (hbody : ∀ buf, Eff.Keeps StreamWipes (body buf)) :
    Eff.Keeps StreamWipes (World.onRuntime (Runtime.newBuffer b) >>= fun buf =>
      Eff.tryFinally (body buf) (World.onRuntime (Runtime.zeroize buf))) := by
  intro w
  rw [Eff.bind_ok (newBuffer_run b w)]
  rcases hrun : (body w.rt.heap.length).run
    { w with rt := { w.rt with heap := w.rt.heap ++ [b] } } with ⟨r, w'⟩
  have hzero := onRuntime_ok (Runtime.zeroize_run w.rt.heap.length w'.rt) w' rfl
  rw [Eff.tryFinally_run hrun hzero]
  exact Wipes.close ((hbody _).of_eq hrun)

theorem useKey {α : Type} (env : Env H) (buf : Nat) {body : Bytes → Eff Exc (World ι ω) α}
    (hbody : ∀ aesgcm, Eff.Keeps StreamWipes (body aesgcm)) :
    Eff.Keeps StreamWipes (do
      let key ← World.onRuntime (Runtime.readBuffer buf)
      let aesgcm ← Eff.lift (AESGCM env.aead key)
      body aesgcm) := by
  apply Eff.Keeps.bind trans (onRuntime (Wipes.readBuffer buf))
  intro key
  apply Eff.Keeps.bind trans (Eff.Keeps.lift refl _)
  exact hbody

theorem nonceAndAad {α : Type} (headerBytes baseNonce : Bytes) (seq : Nat) (tag : Bytes)
    {f : Bytes → Bytes → Eff Exc (World ι ω) α}
    (hf : ∀ nonce aad, Eff.Keeps StreamWipes (f nonce aad)) :
    Eff.Keeps StreamWipes (do
      let nonce ← Eff.lift (deriveChunkNonce baseNonce seq)
      let aad ← Eff.lift (deriveChunkAad headerBytes seq tag)
      f nonce aad) := by
  apply Eff.Keeps.bind trans (Eff.Keeps.lift refl _)
  intro nonce
  apply Eff.Keeps.bind trans (Eff.Keeps.lift refl _)
  exact hf nonce

theorem refuseTrailing [Input ι] {α : Type} (e : Exc) (a : α) :
    Eff.Keeps StreamWipes (do
      let trailing ← onReader StreamReader.hasRemaining
      if trailing then Eff.raise e else return a : Eff Exc (World ι ω) α) := by
  apply Eff.Keeps.bind trans (onlyReads (OnlyReads.onReader _))
  intro trailing
  split
  · exact Eff.Keeps.raise refl _
  · exact Eff.Keeps.pure refl _

end StreamWipes

section Streams

variable [Input ι] [Output ω]

theorem encryptStep_wipes (env : Env H) (aesgcm headerBytes baseNonce : Bytes) (chunkSize : Nat)
    (v : EncryptVars) : Eff.Keeps StreamWipes (encryptStep env aesgcm headerBytes baseNonce
      chunkSize v : Eff Exc (World ι ω) (EncryptVars ⊕ EncryptVars)) := by
  apply Eff.Keeps.bind StreamWipes.trans (StreamWipes.onlyReads (OnlyReads.onReader _))
  intro chunk
  split
  · exact Eff.Keeps.pure StreamWipes.refl _
  split
  · exact Eff.Keeps.raise StreamWipes.refl _
  split
  · exact Eff.Keeps.raise StreamWipes.refl _
  apply StreamWipes.nonceAndAad
  intro nonce aad
  apply Eff.Keeps.bind StreamWipes.trans
    (StreamWipes.onRuntime (Wipes.aesgcmEncrypt env _ _ _ _))
  intro ct
  apply Eff.Keeps.bind StreamWipes.trans (StreamWipes.writeFrame _ _)
  intro _
  exact Eff.Keeps.pure StreamWipes.refl _

theorem encryptStream_wipes (env : Env H) (bundle : PublicBundle) (chunkSize : Int) :
    Eff.Keeps StreamWipes (encryptStream env bundle chunkSize : Eff Exc (World ι ω) Unit) := by
  apply Eff.Keeps.bind StreamWipes.trans
    (StreamWipes.onRuntime (Wipes.stable.deriveRootKey env bundle))
  intro derived
  apply Eff.Keeps.bind StreamWipes.trans (Eff.Keeps.lift StreamWipes.refl _)
  intro headerBytes
  split
  · exact Eff.Keeps.raise StreamWipes.refl _
  split
  · exact Eff.Keeps.raise StreamWipes.refl _
  apply Eff.Keeps.bind StreamWipes.trans (StreamWipes.write _)
  intro _
  apply StreamWipes.bracket
  intro buf
  apply StreamWipes.useKey env
  intro aesgcm
  apply Eff.Keeps.bind StreamWipes.trans
    (Loop.run_keeps _ StreamWipes.trans (encryptStep_wipes env _ _ _ _) _)
  intro v
  apply StreamWipes.nonceAndAad
  intro finalNonce finalAad
  apply Eff.Keeps.bind StreamWipes.trans
    (StreamWipes.onRuntime (Wipes.aesgcmEncrypt env _ _ _ _))
  intro finalCt
  exact StreamWipes.writeFrame _ _

omit [Output ω] in
theorem readPrologue_wipes (env : Env H) (handles : List H) (minProfile : Option PyStr) :
    Eff.Keeps StreamWipes (readPrologue env handles minProfile :
      Eff Exc (World ι ω) Prologue) := by
  apply Eff.Keeps.bind StreamWipes.trans (StreamWipes.onlyReads (OnlyReads.onReader _))
  intro initial
  exact StreamWipes.onRuntime (Wipes.stable.toRecording.parsePrologue env handles minProfile
    initial)

theorem decryptStep_wipes (env : Env H) (aesgcm headerBytes baseNonce : Bytes) (v : DecryptVars) :
    Eff.Keeps StreamWipes (decryptStep env aesgcm headerBytes baseNonce v :
      Eff Exc (World ι ω) (DecryptVars ⊕ Bool)) := by
  apply Eff.Keeps.bind StreamWipes.trans (StreamWipes.onlyReads (OnlyReads.readFrameType _))
  intro frameType
  split
  · exact Eff.Keeps.raise StreamWipes.refl _
  split
  · apply Eff.Keeps.bind StreamWipes.trans (StreamWipes.onlyReads (OnlyReads.readDataFrame _ _))
    rintro ⟨ptLen, ctWithTag⟩
    apply StreamWipes.nonceAndAad
    intro nonce aad
    apply Eff.Keeps.bind StreamWipes.trans
      (StreamWipes.onRuntime (Wipes.aesgcmDecrypt env _ _ _ _))
    intro plaintext
    apply Eff.Keeps.bind StreamWipes.trans (StreamWipes.write _)
    intro _
    exact Eff.Keeps.pure StreamWipes.refl _
  split
  · apply Eff.Keeps.bind StreamWipes.trans (StreamWipes.onlyReads OnlyReads.readFinalFrame)
    intro finalCt
    apply StreamWipes.nonceAndAad
    intro finalNonce finalAad
    apply Eff.Keeps.bind StreamWipes.trans
      (StreamWipes.onRuntime (Wipes.aesgcmDecrypt env _ _ _ _))
    intro _
    exact StreamWipes.refuseTrailing _ _
  · exact Eff.Keeps.raise StreamWipes.refl _

theorem decryptStream_wipes (env : Env H) (handles : List H) (minProfile : Option PyStr) :
    Eff.Keeps StreamWipes (decryptStream env handles minProfile : Eff Exc (World ι ω) Unit) := by
  apply Eff.Keeps.bind StreamWipes.trans (readPrologue_wipes env handles minProfile)
  intro p
  apply StreamWipes.bracket
  intro buf
  apply Eff.Keeps.tryCatch StreamWipes.trans
  · apply StreamWipes.useKey env
    intro aesgcm
    apply Eff.Keeps.bind StreamWipes.trans (StreamWipes.newReader _)
    intro _
    apply Eff.Keeps.bind StreamWipes.trans
      (Loop.run_keeps _ StreamWipes.trans (decryptStep_wipes env _ _ _) _)
    intro receivedFinal
    split
    · exact Eff.Keeps.raise StreamWipes.refl _
    · exact Eff.Keeps.pure StreamWipes.refl _
  · intro e
    exact Eff.Keeps.raise StreamWipes.refl _

end Streams

end CryptoFlex
