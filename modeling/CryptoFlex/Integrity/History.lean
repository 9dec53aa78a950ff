import CryptoFlex.Api.Blob
import CryptoFlex.Streaming.MigrateRun
import Mathlib.Data.List.Pairwise

namespace CryptoFlex

open Lib World CryptoflexHeader

variable {H : Type}

/-- A call of a function that seals, with the process state it starts in and the streams it is
given. -/
inductive Call (H : Type) : Type 1
  | encrypt (rt : Runtime) (bundle : PublicBundle) (plaintext : Bytes)
  | ephemeralEncrypt (rt : Runtime) (bundle : PublicBundle) (plaintext : Bytes)
  | migrate (rt : Runtime) (handles : List H) (blob : Bytes) (newBundle : PublicBundle)
    (minProfile : Option PyStr)
  | encryptStream {ι ω : Type} [Input ι] [Output ω] (rt : Runtime) (input : ι) (sink : ω)
    (bundle : PublicBundle) (chunkSize : Int)
  | migrateStream {ι ω : Type} [Input ι] [Output ω] (rt : Runtime) (input : ι) (sink : ω)
    (handles : List H) (newBundle : PublicBundle) (minProfile : Option PyStr)

/-- The process state with nothing recorded yet. -/
def Runtime.fresh (rt : Runtime) : Runtime := { rt with trace := [] }

theorem Runtime.seals_fresh (rt : Runtime) : rt.fresh.seals = [] := rfl

/-- A seal that a blob writer has made is that of the blob it returned. -/
theorem BlobRun.of_mem {plaintext : Bytes} {rt rt' : Runtime} {r : Except Exc Bytes}
    (h : BlobRun plaintext rt.fresh r rt') {sl : Seal} (hsl : sl ∈ rt'.seals) :
    ∃ s, r = .ok s ∧ BlobSeal sl plaintext s := by
  cases h with
  | raised seals =>
    rw [seals, Runtime.seals_fresh] at hsl
    cases hsl
  | @returned sl' s _ sealed seals =>
    rw [seals, Runtime.seals_fresh, List.nil_append, List.mem_singleton] at hsl
    subst hsl
    exact ⟨s, rfl, sealed⟩

namespace Call

/-- The outputs of `AESGCM.encrypt` in the call, whether it returns or raises. -/
def seals (env : Env H) : Call H → List Seal
  | encrypt rt bundle plaintext =>
    ((CryptoFlex.encrypt env bundle plaintext).run rt.fresh).2.seals
  | ephemeralEncrypt rt bundle plaintext =>
    ((CryptoFlex.ephemeralEncrypt env bundle plaintext).run rt.fresh).2.seals
  | migrate rt handles blob newBundle minProfile =>
    ((CryptoFlex.migrate env handles blob newBundle minProfile).run rt.fresh).2.seals
  | encryptStream rt input sink bundle chunkSize =>
    ((CryptoFlex.encryptStream env bundle chunkSize).run
      (World.start rt.fresh input sink)).2.rt.seals
  | migrateStream rt input sink handles newBundle minProfile =>
    ((CryptoFlex.migrateStream env handles newBundle minProfile).run
      (World.start rt.fresh input sink)).2.rt.seals

/-- The call returned the blob `s`, and `p` is its plaintext. -/
inductive Returns (env : Env H) : Call H → Bytes → Bytes → Prop
  | encrypt {rt : Runtime} {bundle : PublicBundle} {p s : Bytes}
    (run : ((CryptoFlex.encrypt env bundle p).run rt.fresh).1 = .ok s) :
    Returns env (.encrypt rt bundle p) p s
  | ephemeralEncrypt {rt : Runtime} {bundle : PublicBundle} {p s : Bytes}
    (run : ((CryptoFlex.ephemeralEncrypt env bundle p).run rt.fresh).1 = .ok ⟨s⟩) :
    Returns env (.ephemeralEncrypt rt bundle p) p s
  | migrate {rt : Runtime} {handles : List H} {blob : Bytes} {newBundle : PublicBundle}
    {minProfile : Option PyStr} {p s : Bytes}
    (decrypted : ((CryptoFlex.decrypt env handles blob minProfile).run rt.fresh).1 = .ok p)
    (run : ((CryptoFlex.migrate env handles blob newBundle minProfile).run rt.fresh).1 = .ok s) :
    Returns env (.migrate rt handles blob newBundle minProfile) p s

/-- The call writes the stream of the transcript `t`: its seals are those of `t`, it has written
that stream as far as it got, and where `t` is finished its chunks are the plaintext that was
there to read. -/
inductive Streams (env : Env H) : Call H → Transcript → Prop
  | encryptStream {ι ω : Type} [Input ι] [Output ω] {rt : Runtime} {input : ι} {sink : ω}
    {bundle : PublicBundle} {chunkSize : Int} {t : Transcript} {r : Except Exc Unit}
    {w : World ι ω}
    (run : (CryptoFlex.encryptStream env bundle chunkSize).run
      (World.start rt.fresh input sink) = (r, w))
    (seals : w.rt.seals = t.seals) (written : t.Written r w.out)
    (plaintext : t.final.isSome → ∀ p, Delivers input p → t.plaintexts.flatten = p) :
    Streams env (.encryptStream rt input sink bundle chunkSize) t
  | migrateStream {ι ω : Type} [Input ι] [Output ω] {rt : Runtime} {input : ι} {sink : ω}
    {handles : List H} {newBundle : PublicBundle} {minProfile : Option PyStr} {t : Transcript}
    {r : Except Exc Unit} {w : World ι ω}
    (run : (CryptoFlex.migrateStream env handles newBundle minProfile).run
      (World.start rt.fresh input sink) = (r, w))
    (seals : w.rt.seals = t.seals) (written : t.Written r w.out) :
    Streams env (.migrateStream rt input sink handles newBundle minProfile) t

theorem Streams.seals_eq {env : Env H} {c : Call H} {t : Transcript} (h : Streams env c t) :
    c.seals env = t.seals := by
  cases h with
  | encryptStream run seals _ _ =>
    rw [Call.seals, run]
    exact seals
  | migrateStream run seals _ =>
    rw [Call.seals, run]
    exact seals

variable {env : Env H}

theorem seals_cases (hw : env.profiles.WellFormed) (c : Call H) {sl : Seal}
    (h : sl ∈ c.seals env) :
    (∃ p s, Returns env c p s ∧ BlobSeal sl p s) ∨
      ∃ t : Transcript, Streams env c t ∧ t.Valid env.aead ∧
        ∃ header, scanHeader.Reads t.key.headerBytes header := by
  cases c with
  | encrypt rt bundle plaintext =>
    obtain ⟨r, rt', hrun, hblob⟩ := encrypt_run hw bundle plaintext rt.fresh
    rw [seals, hrun] at h
    obtain ⟨s, rfl, hsealed⟩ := BlobRun.of_mem hblob h
    exact Or.inl ⟨plaintext, s, Returns.encrypt (by rw [hrun]), hsealed⟩
  | ephemeralEncrypt rt bundle plaintext =>
    obtain ⟨r, rt', hrun, hblob⟩ := encrypt_run hw bundle plaintext rt.fresh
    obtain ⟨heap, hephemeral⟩ := ephemeralEncrypt_run env bundle plaintext rt.fresh
    rw [hrun] at hephemeral
    rw [seals, hephemeral] at h
    obtain ⟨s, rfl, hsealed⟩ := BlobRun.of_mem hblob h
    exact Or.inl ⟨plaintext, s, Returns.ephemeralEncrypt (by rw [hephemeral]; rfl), hsealed⟩
  | migrate rt handles blob newBundle minProfile =>
    obtain ⟨r, rt', hrun, hcase⟩ :=
      migrate_run hw handles blob newBundle minProfile rt.fresh
    rw [seals, hrun] at h
    rcases hcase with ⟨-, hseals⟩ | ⟨plaintext, rt₁, hdecrypt, hblob⟩
    · rw [hseals, Runtime.seals_fresh] at h
      cases h
    · obtain ⟨s, rfl, hsealed⟩ := BlobRun.of_mem hblob h
      exact Or.inl ⟨plaintext, s, Returns.migrate (by rw [hdecrypt]) (by rw [hrun]), hsealed⟩
  | encryptStream rt input sink bundle chunkSize =>
    obtain ⟨r, w, hrun, hcase⟩ :=
      encryptStream_run env bundle chunkSize rt.fresh input sink
    rw [seals, hrun] at h
    rcases hcase with ⟨-, hseals⟩ | ⟨t, hfrom, hseals, hwritten, hplain⟩
    · rw [hseals, Runtime.seals_fresh] at h
      cases h
    · rw [Runtime.seals_fresh, List.nil_append] at hseals
      exact Or.inr ⟨t, Streams.encryptStream hrun hseals hwritten fun hf p hp => (hplain hf p hp).1,
        hfrom.valid, hfrom.derived.reads hw⟩
  | migrateStream rt input sink handles newBundle minProfile =>
    obtain ⟨r, w, hrun, hcase⟩ :=
      migrateStream_run env handles newBundle minProfile rt.fresh input sink
    rw [seals, hrun] at h
    rcases hcase with ⟨-, hseals⟩ | ⟨t, rt₁, hfrom, hseals, hwritten⟩
    · rw [hseals, Runtime.seals_fresh] at h
      cases h
    · rw [Runtime.seals_fresh, List.nil_append] at hseals
      exact Or.inr ⟨t, Streams.migrateStream hrun hseals hwritten, hfrom.valid,
        hfrom.derived.reads hw⟩

end Call

/-- AES-GCM opens nothing but what some call of the history has sealed. -/
def IdealAead (env : Env H) (history : List (Call H)) : Prop :=
  ∀ key nonce ct aad plaintext, env.aead.decrypt key nonce ct aad = .ok plaintext →
    ∃ c ∈ history, { key, nonce, aad, plaintext, ciphertext := ct } ∈ c.seals env

/-- No seal of the one call shares its key with a seal of the other. -/
def ApartKeys (env : Env H) (c c' : Call H) : Prop :=
  ∀ sl ∈ c.seals env, ∀ sl' ∈ c'.seals env, sl.key ≠ sl'.key

instance (env : Env H) : Std.Symm (ApartKeys env) where
  symm _ _ h sl hsl sl' hsl' := (h sl' hsl' sl hsl).symm

/-- Different calls have sealed under different keys. -/
def DistinctRootKeys (env : Env H) (history : List (Call H)) : Prop :=
  history.Pairwise (ApartKeys env)

theorem DistinctRootKeys.same_call {env : Env H} {history : List (Call H)}
    (h : DistinctRootKeys env history) {c c' : Call H} (hc : c ∈ history) (hc' : c' ∈ history)
    {sl sl' : Seal} (hsl : sl ∈ c.seals env) (hsl' : sl' ∈ c'.seals env)
    (hkey : sl.key = sl'.key) : c = c' := by
  by_contra hne
  have hapart : ApartKeys env c c' := List.Pairwise.forall h hc hc' hne
  exact hapart sl hsl sl' hsl' hkey

end CryptoFlex
