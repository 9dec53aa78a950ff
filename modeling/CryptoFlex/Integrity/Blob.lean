import CryptoFlex.Integrity.History
import CryptoFlex.Streaming.RoundTrip

namespace CryptoFlex

open Lib CryptoflexHeader

/-- The associated data of a frame is never a header. -/
theorem aadAt_not_header {k : StreamKey} {header : CryptoflexHeader}
    (hk : scanHeader.Reads k.headerBytes header) {seq : Nat} {tag : Bytes}
    {h : CryptoflexHeader} : ¬scanHeader.Reads (k.aadAt seq tag) h := by
  intro hread
  have hpre : k.headerBytes <+: k.aadAt seq tag := by simp [StreamKey.aadAt]
  have hlen := congrArg List.length (hk.prefix_free hread hpre)
  simp only [StreamKey.aadAt, List.length_append, beEncode_length] at hlen
  omega

/-- A seal whose associated data is a header is that of a blob of the history. -/
theorem Call.returns_of_header {H : Type} {env : Env H} (hw : env.profiles.WellFormed)
    {c : Call H} {sl : Seal} (hsl : sl ∈ c.seals env) {header : CryptoflexHeader}
    (hheader : scanHeader.Reads sl.aad header) :
    ∃ p s, Returns env c p s ∧ BlobSeal sl p s := by
  rcases seals_cases hw c hsl with hblob | ⟨t, hstream, -, h, hread⟩
  · exact hblob
  · rw [hstream.seals_eq] at hsl
    rcases t.mem_seals hsl with ⟨_, _, _, -, rfl⟩ | ⟨_, -, rfl⟩
    · exact absurd hheader (aadAt_not_header hread)
    · exact absurd hheader (aadAt_not_header hread)

/-- The cipher of zero tags that opens nothing but what is in the log. -/
def logAead (log : List Seal) : Aead where
  init := zeroTagAead.init
  encrypt := zeroTagAead.encrypt
  decrypt key nonce ct aad := do
    let plaintext ← zeroTagAead.decrypt key nonce ct aad
    if { key, nonce, aad, plaintext, ciphertext := ct } ∈ log then return plaintext
    else .error .invalidTag

theorem logAead_decrypt {log : List Seal} {key nonce ct aad plaintext : Bytes}
    (h : (logAead log).decrypt key nonce ct aad = .ok plaintext) :
    { key, nonce, aad, plaintext, ciphertext := ct } ∈ log := by
  obtain ⟨p, -, h⟩ := bind_eq_ok.mp h
  split at h
  · next hmem =>
    cases h
    exact hmem
  · cases h

theorem logAead_documented (log : List Seal) : (logAead log).Documented where
  init_ok := zeroTagAead_correct.init_ok
  init_raises := zeroTagAead_correct.init_raises
  decrypt_length := by
    intro key nonce ct aad pt h
    obtain ⟨p, hp, h⟩ := bind_eq_ok.mp h
    split at h <;> cases h
    exact zeroTagAead_correct.decrypt_length _ _ _ _ _ hp
  decrypt_raises := by
    intro key nonce ct aad e h
    rcases bind_eq_error.mp h with h | ⟨p, -, h⟩
    · exact zeroTagAead_correct.decrypt_raises _ _ _ _ _ h
    · split at h <;> cases h
      rfl

theorem logAead_opens {log : List Seal} {sl : Seal} (hmem : sl ∈ log)
    (hsealed : zeroTagAead.encrypt sl.key sl.nonce sl.plaintext sl.aad = .ok sl.ciphertext) :
    (logAead log).decrypt sl.key sl.nonce sl.ciphertext sl.aad = .ok sl.plaintext := by
  have hopen := (zeroTagAead_correct.decrypt_encrypt _ _ _ _ _ hsealed).2
  simp only [logAead, hopen, ok_bind]
  exact if_pos hmem

/-- What `encrypt` seals for the zero key set. -/
def zeroSeal : Seal where
  key := List.replicate 32 0
  nonce := List.replicate 12 0
  aad := zeroHeaderBytes
  plaintext := [7]
  ciphertext := 7 :: List.replicate 16 0

/-- Where AES-GCM opens only what it has sealed, `decrypt` and `ephemeral_decrypt` open only the
blobs that were made, each as its plaintext. -/
theorem decrypt_integrity {K₁ K₂ : Type} (x : X25519 K₁) (o : Oqs K₂) (hkdf : Hkdf) (aead : Aead)
    (history : List (Call (PrivateHandle K₁ K₂)))
    (hideal : IdealAead (builtinEnv x o hkdf aead) history)
    (handles : List (PrivateHandle K₁ K₂)) (minProfile : Option PyStr) (rt : Runtime)
    (s p : Bytes)
    (h : ((decrypt (builtinEnv x o hkdf aead) handles s minProfile).run rt).1 = .ok p ∨
      ((ephemeralDecrypt (builtinEnv x o hkdf aead) handles ⟨s⟩ minProfile).run rt).1 = .ok p) :
    ∃ c ∈ history, c.Returns (builtinEnv x o hkdf aead) p s := by
  have hdecrypt : ((decrypt (builtinEnv x o hkdf aead) handles s minProfile).run rt).1 = .ok p :=
    h.elim id id
  obtain ⟨header, n, key, nonce, hparse, hopen⟩ := decrypt_eq_ok (Prod.ext hdecrypt rfl)
  obtain ⟨-, hread⟩ := fromBytes_eq_ok.mp hparse
  obtain ⟨c, hc, hsl⟩ := hideal _ _ _ _ _ hopen
  obtain ⟨p', s', hreturns, hseal⟩ :=
    Call.returns_of_header (profileRegistry_wellFormed x o) hsl hread
  have hp : p = p' := hseal.plaintext
  have hs : s' = s := by
    rw [hseal.blob]
    exact List.take_append_drop n s
  rw [hp, ← hs]
  exact ⟨c, hc, hreturns⟩

theorem decrypt_integrity_zero : ∃ c, c ∈ [Call.encrypt zeroRuntime zeroBundle [7]] ∧
    c.Returns (xorEnv (logAead [zeroSeal])) [7] (zeroHeaderBytes ++ zeroSeal.ciphertext) := by
  have hseals : (Call.encrypt zeroRuntime zeroBundle [7]).seals (xorEnv (logAead [zeroSeal])) =
    [zeroSeal] := by decide +kernel
  apply decrypt_integrity xorX25519 xorOqs xorHkdf (logAead [zeroSeal])
    [Call.encrypt zeroRuntime zeroBundle [7]] ?_ zeroHandles (some "classical_only") zeroRuntime
  · exact Or.inl (by decide +kernel)
  · intro key nonce ct aad plaintext hopen
    refine ⟨_, List.mem_singleton_self _, ?_⟩
    rw [show builtinEnv xorX25519 xorOqs xorHkdf (logAead [zeroSeal]) = xorEnv _ from rfl, hseals]
    exact logAead_decrypt hopen

end CryptoFlex
