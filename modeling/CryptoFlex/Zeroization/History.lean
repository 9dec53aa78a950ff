import CryptoFlex.Integrity.Process
import CryptoFlex.Zeroization.Migrate

namespace CryptoFlex

open Lib World

variable {H ι ω : Type}

/-- A frame condition: the old bytearrays are as they were. -/
def KeepsBuffers (rt rt' : Runtime) : Prop := rt.heap <+: rt'.heap

theorem Wipes.keepsBuffers {rt rt' : Runtime} (h : Wipes rt rt') : KeepsBuffers rt rt' := by
  obtain ⟨left, hheap, -⟩ := h
  exact ⟨left, hheap.symm⟩

theorem Wipes.trans_iff {rt rt' rt'' : Runtime} (h : KeepsBuffers rt rt')
    (h' : KeepsBuffers rt' rt'') : Wipes rt rt'' ↔ Wipes rt rt' ∧ Wipes rt' rt'' := by
  obtain ⟨left, hheap⟩ := h
  obtain ⟨left', hheap'⟩ := h'
  have hboth : rt''.heap = rt.heap ++ (left ++ left') := by
    rw [← hheap', ← hheap, List.append_assoc]
  rw [Wipes.iff_of_heap hheap.symm, Wipes.iff_of_heap hheap'.symm, Wipes.iff_of_heap hboth]
  simp only [List.mem_append, or_imp, forall_and]

theorem encrypt_keepsBuffers (env : Env H) (bundle : PublicBundle) (plaintext : Bytes) :
    Eff.Keeps KeepsBuffers (encrypt env bundle plaintext) := by
  intro rt
  by_cases h : ∃ key, RootKeyExposed env bundle rt key
  · obtain ⟨key, hkey⟩ := h
    exact ⟨[key], (encrypt_leaves hkey plaintext).symm⟩
  · exact ((encrypt_wipes_iff env bundle plaintext rt).mpr (not_exists.mp h)).keepsBuffers

/-- `migrate` decrypts, which wipes, and encrypts the plaintext for the new bundle. -/
theorem migrate_wipes_iff (env : Env H) (handles : List H) (blob : Bytes)
    (newBundle : PublicBundle) (minProfile : Option PyStr) (rt : Runtime) :
    Wipes rt ((migrate env handles blob newBundle minProfile).run rt).2 ↔
      ∀ plaintext rt₁ key, (decrypt env handles blob minProfile).run rt = (.ok plaintext, rt₁) →
        ¬RootKeyExposed env newBundle rt₁ key := by
  unfold migrate
  rcases hrun : (decrypt env handles blob minProfile).run rt with ⟨e | plaintext, rt₁⟩
  · rw [Eff.bind_error hrun]
    refine iff_of_true ((decrypt_wipes env handles blob minProfile).of_eq hrun) ?_
    intro _ _ _ h
    cases h
  · have hwipes : Wipes rt rt₁ := (decrypt_wipes env handles blob minProfile).of_eq hrun
    rw [Eff.bind_ok hrun, Wipes.trans_iff hwipes.keepsBuffers
      (encrypt_keepsBuffers env newBundle plaintext rt₁), encrypt_wipes_iff]
    constructor
    · rintro ⟨-, hnone⟩ _ _ key h
      cases h
      exact hnone key
    · intro hnone
      exact ⟨hwipes, fun key => hnone plaintext rt₁ key rfl⟩

section Migrate

variable [Input ι] [Output ω] {env : Env H} {newBundle : PublicBundle}

/-- A call that raises before its `try` leaves the old root key, and the new one if there is one. -/
theorem migrateFrom_leaves {p : Prologue} {w : World ι ω}
    (h : GapFails env newBundle p.rawRootKey w.rt w.sink) : ∃ left,
    ((migrateFrom env newBundle p).run w).2.rt.heap = w.rt.heap ++ p.rawRootKey :: left := by
  obtain ⟨r, rt₂, hderive, hnew⟩ := migrateFrom_run env newBundle p w
  have hheap : rt₂.heap = w.rt.heap ++ [p.rawRootKey] :=
    (SameHeap.stable.deriveRootKey env newBundle).of_eq hderive
  have hpool : (p.before w.rt).entropy = w.rt.entropy := rfl
  rcases hnew with ⟨e, hraise, -⟩ | ⟨new, hderived, hunder⟩
  · rw [hraise]
    exact ⟨[], hheap⟩
  · have hderived' : new.DerivedFrom env newBundle w.rt := hderived.of_entropy hpool
    cases h with
    | underived noKey _ => exact absurd ⟨new, hderived'⟩ noKey
    | @unwritten new' n e sink' derived failed _ =>
      rw [derived.unique rfl hderived'] at failed
      let rt₃ : Runtime := { rt₂ with heap := rt₂.heap ++ [new.aesgcm] }
      have hwrite : (write new.headerBytes).run ({ w with rt := rt₃ } : World ι ω) =
          (.error e, { w with rt := rt₃, sink := sink', out := w.out ++ new.headerBytes.take n }) :=
        write_error failed
      rw [hunder]
      unfold migrateUnder
      rw [Eff.bind_ok (newBuffer_run _ _)]
      dsimp only
      rw [Eff.bind_error hwrite]
      refine ⟨[new.aesgcm], ?_⟩
      change rt₂.heap ++ [new.aesgcm] = _
      rw [hheap, List.append_assoc]
      rfl

theorem migrateStream_leaves {handles : List H} {minProfile : Option PyStr} {w w' : World ι ω}
    {p : Prologue} (hp : (readPrologue env handles minProfile).run w = (.ok p, w'))
    (h : GapFails env newBundle p.rawRootKey w.rt w.sink) : ∃ left,
    ((migrateStream env handles newBundle minProfile).run w).2.rt.heap =
      w.rt.heap ++ p.rawRootKey :: left := by
  obtain ⟨hheap, hpool, hsink⟩ := (readPrologue_keeps env handles minProfile).of_eq hp
  have hgap : GapFails env newBundle p.rawRootKey w'.rt w'.sink := by
    rw [hsink]
    exact h.of_entropy hpool.symm
  rw [migrateStream_eq, Eff.bind_ok hp, ← hheap]
  exact migrateFrom_leaves hgap

end Migrate

section Process

variable (env : Env H) (kdf : PasswordKdf)

/-- The call leaves `key` behind: it is a `migrate_stream` that has recovered `key` as the old root
key and raises before its `try`, or it encrypts a blob under `key` and raises before the `try`. -/
inductive ApiCall.LeavesKey (rt : Runtime) : ApiCall H → Bytes → Prop
  | encrypt {bundle : PublicBundle} {plaintext key : Bytes}
    (exposed : RootKeyExposed env bundle rt key) : LeavesKey rt (.encrypt bundle plaintext) key
  | migrate {handles : List H} {blob : Bytes} {newBundle : PublicBundle}
    {minProfile : Option PyStr} {plaintext key : Bytes} {rt₁ : Runtime}
    (decrypted : (CryptoFlex.decrypt env handles blob minProfile).run rt = (.ok plaintext, rt₁))
    (exposed : RootKeyExposed env newBundle rt₁ key) :
    LeavesKey rt (.migrate handles blob newBundle minProfile) key
  | migrateStream {ι ω : Type} [Input ι] [Output ω] {input : ι} {sink : ω} {handles : List H}
    {newBundle : PublicBundle} {minProfile : Option PyStr} {p : Prologue} {w : World ι ω}
    (recovered : (readPrologue env handles minProfile).run (World.start rt input sink) = (.ok p, w))
    (gap : GapFails env newBundle p.rawRootKey rt sink) :
    LeavesKey rt (.migrateStream input sink handles newBundle minProfile) p.rawRootKey

variable {env}

theorem ApiCall.LeavesKey.heap {rt : Runtime} {call : ApiCall H} {key : Bytes}
    (h : call.LeavesKey env rt key) : ∃ before after,
    (call.perform env kdf rt).heap = rt.heap ++ (before ++ key :: after) := by
  cases h with
  | @encrypt bundle plaintext _ exposed =>
    exact ⟨[], [], encrypt_leaves exposed plaintext⟩
  | @migrate handles blob newBundle minProfile plaintext _ rt₁ decrypted exposed =>
    obtain ⟨before, hheap, -⟩ := (decrypt_wipes env handles blob minProfile).of_eq decrypted
    refine ⟨before, [], ?_⟩
    change ((CryptoFlex.migrate env handles blob newBundle minProfile).run rt).2.heap = _
    unfold CryptoFlex.migrate
    rw [Eff.bind_ok decrypted, encrypt_leaves exposed plaintext, hheap, List.append_assoc]
  | migrateStream recovered gap =>
    obtain ⟨after, hheap⟩ := migrateStream_leaves recovered gap
    exact ⟨[], after, hheap⟩

/-- Every call wipes the bytearrays it makes, unless it leaves a key behind. -/
theorem ApiCall.perform_wipes_iff (call : ApiCall H) (rt : Runtime) :
    Wipes rt (call.perform env kdf rt) ↔ ∀ key, ¬call.LeavesKey env rt key := by
  cases call with
  | establishKeys engine constraint requireQuantumSafe =>
    refine iff_of_true ?_ fun _ h => nomatch h
    exact Wipes.stable.establishKeys env engine constraint requireQuantumSafe rt
  | deriveRootKey bundle =>
    refine iff_of_true ?_ fun _ h => nomatch h
    exact Wipes.stable.deriveRootKey env bundle rt
  | recoverRootKey handles header minProfile =>
    refine iff_of_true ?_ fun _ h => nomatch h
    exact Wipes.stable.recoverRootKey env handles header minProfile rt
  | encrypt bundle plaintext =>
    refine (encrypt_wipes_iff env bundle plaintext rt).trans ?_
    constructor
    · intro hnone key h
      cases h with
      | encrypt exposed => exact hnone key exposed
    · intro hnone key hexposed
      exact hnone key (.encrypt hexposed)
  | decrypt handles blob minProfile =>
    exact iff_of_true (decrypt_wipes env handles blob minProfile rt) fun _ h => nomatch h
  | migrate handles blob newBundle minProfile =>
    refine (migrate_wipes_iff env handles blob newBundle minProfile rt).trans ?_
    constructor
    · intro hnone key h
      cases h with
      | migrate decrypted exposed => exact hnone _ _ key decrypted exposed
    · intro hnone plaintext rt₁ key hdecrypted hexposed
      exact hnone key (.migrate hdecrypted hexposed)
  | ephemeralEncrypt bundle plaintext =>
    exact iff_of_true (ephemeralEncrypt_wipes env bundle plaintext rt) fun _ h => nomatch h
  | ephemeralDecrypt handles message minProfile =>
    refine iff_of_true ?_ fun _ h => nomatch h
    exact decrypt_wipes env handles message.encryptedBlob minProfile rt
  | encryptStream input sink bundle chunkSize =>
    refine iff_of_true ?_ fun _ h => nomatch h
    exact encryptStream_wipes env bundle chunkSize (World.start rt input sink)
  | decryptStream input sink handles minProfile =>
    refine iff_of_true ?_ fun _ h => nomatch h
    exact decryptStream_wipes env handles minProfile (World.start rt input sink)
  | migrateStream input sink handles newBundle minProfile =>
    have hwipes := migrateStream_wipes_iff env handles newBundle minProfile
      (World.start rt input sink)
    refine hwipes.trans ?_
    constructor
    · intro hexposed key h
      cases h with
      | migrateStream recovered gap => exact hexposed ⟨_, _, recovered, gap⟩
    · rintro hnone ⟨p, w, hp, hgap⟩
      exact hnone p.rawRootKey (.migrateStream hp hgap)
  | exportKeysetBytes keyset password useArgon2 =>
    refine iff_of_true ?_ fun _ h => nomatch h
    exact exportKeysetBytes_wipes env kdf keyset password useArgon2 rt
  | importKeysetBytes data password =>
    refine iff_of_true ?_ fun _ h => nomatch h
    exact importKeysetBytes_wipes env kdf data password rt

theorem ApiCall.perform_keepsBuffers (call : ApiCall H) (rt : Runtime) :
    KeepsBuffers rt (call.perform env kdf rt) := by
  by_cases h : ∃ key, call.LeavesKey env rt key
  · obtain ⟨key, hkey⟩ := h
    obtain ⟨before, after, hheap⟩ := hkey.heap kdf
    exact ⟨before ++ key :: after, hheap.symm⟩
  · have hwipes := (call.perform_wipes_iff kdf rt).mpr (not_exists.mp h)
    exact hwipes.keepsBuffers

theorem performAll_keepsBuffers (history : List (ApiCall H)) (rt : Runtime) :
    KeepsBuffers rt (performAll env kdf rt history) := by
  induction history generalizing rt with
  | nil => exact List.prefix_rfl
  | cons call history ih => exact (call.perform_keepsBuffers kdf rt).trans (ih _)

theorem performAll_append (before after : List (ApiCall H)) (rt : Runtime) :
    performAll env kdf rt (before ++ after) =
      performAll env kdf (performAll env kdf rt before) after := by
  induction before generalizing rt with
  | nil => rfl
  | cons call before ih => exact ih _

theorem performAll_wipes_iff (history : List (ApiCall H)) (rt : Runtime) :
    Wipes rt (performAll env kdf rt history) ↔ ∀ before call after,
      history = before ++ call :: after →
        ∀ key, ¬call.LeavesKey env (performAll env kdf rt before) key := by
  induction history generalizing rt with
  | nil =>
    refine iff_of_true (Wipes.stable.refl rt) ?_
    intro before call after h
    simp at h
  | cons first history ih =>
    rw [performAll, Wipes.trans_iff (first.perform_keepsBuffers kdf rt)
      (performAll_keepsBuffers kdf history _), first.perform_wipes_iff kdf rt, ih]
    constructor
    · rintro ⟨hfirst, hrest⟩ before call after h
      cases before with
      | nil =>
        cases h
        exact hfirst
      | cons other before =>
        cases h
        exact hrest before call after rfl
    · intro h
      refine ⟨h [] first history rfl, ?_⟩
      intro before call after heq
      exact h (first :: before) call after (by rw [heq]; rfl)

/-- In every history of a process, whatever raises in it: the bytearrays that its calls have made
hold zeros only, exactly if no call of `migrate_stream`, `encrypt` or `migrate` has raised between
its first buffer and its `try`. The root key of such a call stays in memory from then on. -/
theorem history_wipes_iff (env : Env H) (kdf : PasswordKdf) (history : List (ApiCall H))
    (rt : Runtime) :
    (Wipes rt (performAll env kdf rt history) ↔ ∀ before call after,
      history = before ++ call :: after →
        ∀ key, ¬call.LeavesKey env (performAll env kdf rt before) key) ∧
    ∀ before call after key, history = before ++ call :: after →
      call.LeavesKey env (performAll env kdf rt before) key →
        key ∈ (performAll env kdf rt history).heap := by
  refine ⟨performAll_wipes_iff kdf history rt, ?_⟩
  intro before call after key h hleft
  obtain ⟨first, last, hheap⟩ := hleft.heap kdf
  have hkept : KeepsBuffers (call.perform env kdf (performAll env kdf rt before))
      (performAll env kdf (call.perform env kdf (performAll env kdf rt before)) after) :=
    performAll_keepsBuffers kdf after _
  obtain ⟨later, hlater⟩ := hkept
  have hall : performAll env kdf rt history =
      performAll env kdf (call.perform env kdf (performAll env kdf rt before)) after := by
    rw [h, performAll_append]
    rfl
  rw [hall, ← hlater, hheap]
  simp

end Process

end CryptoFlex
