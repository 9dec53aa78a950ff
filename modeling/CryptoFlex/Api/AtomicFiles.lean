import CryptoFlex.Api.MigrateFile

namespace CryptoFlex

open Lib Host

variable {H : Type}

section Migrate

variable (env : Env H) (privateHandles : List H) (inputPath outputPath : Destination)
  (newBundle : PublicBundle) (minProfile : Option PyStr) (stream : Bool)

/-- The steps of `migrate_file` behind its check. -/
def migrateReplacement : Replacement Path Exc Host where
  disk := Host.disk
  create := onDisk (Disk.mkstemp osErrors outputPath.temp)
  restrict := onDisk (tolerating Disk.call)
  body fd tempPath := do
    migrateInto env privateHandles inputPath newBundle minProfile stream fd tempPath
    onDisk (Disk.replace osErrors tempPath outputPath.path)
  clean tempPath := onDisk (discard tempPath)

theorem migrateFile_eq :
    migrateFile env privateHandles inputPath outputPath newBundle minProfile stream = (do
      refuseSameFile inputPath outputPath
      (migrateReplacement env privateHandles inputPath outputPath newBundle minProfile
        stream).toEff) := rfl

theorem migrateReplacement_sound (s : Host) :
    (migrateReplacement env privateHandles inputPath outputPath newBundle minProfile stream).Sound
      outputPath.IsTemp outputPath.path
      (MigratedContent env privateHandles newBundle minProfile inputPath stream s) s where
  created := by
    apply onDisk_post
    apply (mkstemp_post outputPath s.disk).mono
    rintro (e | ⟨fd, temp⟩) d₁ hmade
    · rw [hmade]
      rfl
    · obtain ⟨hname, hfresh, -, rfl⟩ := hmade
      refine ⟨hname, hfresh, Disk.OnlyTouches.of_update rfl, ?_⟩
      change (Function.update s.disk.files temp (some []) temp).isSome
      rw [Function.update_self]
      rfl
  restricted := by
    intro s₁
    change ((tolerating Disk.call).run s₁.disk).2.files = s₁.disk.files
    rw [tolerating_call_run]
  filled := by
    rintro ⟨fd, temp⟩ s₁ s₂ hcreate hrestrict
    obtain ⟨d₁, hmkstemp, rfl⟩ := Host.onDisk_ok.mp hcreate
    obtain ⟨d₂, hchmod, rfl⟩ := Host.onDisk_ok.mp hrestrict
    obtain ⟨⟨suffix, hname⟩, hfresh, hfd, hd₂⟩ := made_drafting hmkstemp hchmod
    have htouch : Disk.OnlyTouches temp s.disk d₂ := by
      rw [hd₂]
      exact Disk.OnlyTouches.of_update rfl
    have hinput : inputPath.path ≠ temp := by
      rw [hname]
      exact inputPath.path_ne_temp outputPath suffix
    have hhandle : d₂.handles[fd]? = some (some { path := temp }) := by
      rw [hd₂, hfd]
      simp [Disk.drafting]
    have hfile : d₂.files temp = some [] := by
      rw [hd₂]
      simp [Disk.drafting]
    apply Eff.Post.bind
    apply (migrateInto_end env privateHandles newBundle minProfile stream
      (s := { s with disk := d₂ }) hhandle hfile).mono
    rintro r s₃ ⟨htouch₃, hsome, hdone⟩
    have htouch' := Disk.OnlyTouches.trans _ _ _ htouch htouch₃
    cases r with
    | error e => exact ⟨htouch', hsome⟩
    | ok _ =>
    obtain ⟨content, hcontent, hfile₃⟩ := hdone rfl
    apply onDisk_post
    apply (replace_staged outputPath.path hfresh htouch' hfile₃).mono
    rintro (e | _) d₄ hreplace
    · exact hreplace
    · refine ⟨content, ?_, hreplace⟩
      apply hcontent.of_same
      · rfl
      · rfl
      · exact htouch _ hinput
  cleaned := by
    intro temp s₁
    exact discard_cleans temp s₁.disk

/-- Why the temporary file of a `migrate_file` from `s` stays behind. -/
def MigrationLeft (s : Host) : Prop :=
  ∃ s₁, (refuseSameFile inputPath outputPath).run s = (.ok (), s₁) ∧
    (migrateReplacement env privateHandles inputPath outputPath newBundle minProfile
      stream).Left s₁

theorem migrateFile_ends (s : Host) :
    Eff.Post (migrateFile env privateHandles inputPath outputPath newBundle minProfile stream) s
      fun r s' => Replaced outputPath.IsTemp outputPath.path
        (MigratedContent env privateHandles newBundle minProfile inputPath stream s)
        (MigrationLeft env privateHandles inputPath outputPath newBundle minProfile stream s)
        s.disk.files s'.disk.files r := by
  rw [migrateFile_eq]
  apply Eff.Post.bind
  rcases hcheck : (refuseSameFile inputPath outputPath).run s with ⟨r, s₁⟩
  obtain ⟨hs₁, -⟩ := (refuseSameFile_post inputPath outputPath s).elim hcheck
  apply Eff.Post.of_eq hcheck
  have hfiles : s₁.disk.files = s.disk.files := by
    rw [hs₁]
  cases r with
  | error e => exact Replaced.raised hfiles
  | ok _ =>
  apply (migrateReplacement_sound env privateHandles inputPath outputPath newBundle minProfile
    stream s₁).ends.mono
  intro r s' hr
  apply (hr.start hfiles).mono
  · intro content hcontent
    apply hcontent.of_same
    · rw [hs₁]
    · rw [hs₁]
    · rw [hfiles]
  · intro hleft
    exact ⟨s₁, hcheck, hleft⟩

/-- The input stays as it is, also when it is the output. -/
theorem migrateFile_keepsInput (s : Host) :
    Eff.Post (migrateFile env privateHandles inputPath outputPath newBundle minProfile stream) s
      fun _ s' => s'.disk.files inputPath.path = s.disk.files inputPath.path := by
  have hends := migrateFile_ends env privateHandles inputPath outputPath newBundle minProfile
    stream s
  rcases hrun : (migrateFile env privateHandles inputPath outputPath newBundle minProfile
    stream).run s with ⟨r, s'⟩
  have hr := hends.elim hrun
  apply Eff.Post.of_eq hrun
  by_cases heq : inputPath.path = outputPath.path
  · cases r with
    | error e =>
      rw [heq]
      exact hr.dest_of_error (outputPath.path_not_isTemp outputPath)
    | ok _ =>
      -- there was no input, so nothing was migrated
      rw [migrateFile_eq] at hrun
      obtain ⟨_, s₁, hcheck, -⟩ := Eff.bind_eq_ok.mp hrun
      have hnone := (((refuseSameFile_post inputPath outputPath s).elim hcheck).2.mp rfl).missing heq
      cases hr with
      | returned whole _ =>
        obtain ⟨blob, hblob, -⟩ := whole
        rw [hnone] at hblob
        cases hblob
  · exact hr.other (inputPath.path_not_isTemp outputPath) heq

theorem migrateFile_output (s : Host) :
    AtomicOutput Host.disk Host.interrupt
      (migrateFile env privateHandles inputPath outputPath newBundle minProfile stream) outputPath
      (MigratedContent env privateHandles newBundle minProfile inputPath stream)
      (MigrationLeft env privateHandles inputPath outputPath newBundle minProfile stream) s := by
  have hfiles : ∀ k e s, (Host.interrupt k e s).disk.files = s.disk.files := fun _ _ _ => rfl
  exact AtomicOutput.of_ends hfiles (migrateFile_ends env privateHandles inputPath outputPath
    newBundle minProfile stream) s

end Migrate

/-- `_atomic_write_bytes`, `_atomic_stream_write` and `migrate_file`, for every way for their
system calls to go, every callback that keeps to its file object and every migration: they return
with the whole new content at the destination, or raise with the old one there. -/
theorem fileOutputs_atomic :
    (∀ (destPath : Destination) (data : Bytes) (d : Files),
      AtomicOutput id Disk.interrupt (atomicWriteBytes destPath data) destPath
        (fun _ content => content = data)
        (streamReplacement destPath fun fd => Disk.write osErrors fd data).Left d) ∧
    (∀ (destPath : Destination) (writeFn : Nat → Eff Exc Files Unit), OnlyItsFile writeFn →
      ∀ d : Files, AtomicOutput id Disk.interrupt (atomicStreamWrite destPath writeFn) destPath
        (StreamContent destPath writeFn) (streamReplacement destPath writeFn).Left d) ∧
    ∀ (H : Type) (env : Env H) (privateHandles : List H) (inputPath outputPath : Destination)
      (newBundle : PublicBundle) (minProfile : Option PyStr) (stream : Bool) (s : Host),
      AtomicOutput Host.disk Host.interrupt
        (migrateFile env privateHandles inputPath outputPath newBundle minProfile stream) outputPath
        (MigratedContent env privateHandles newBundle minProfile inputPath stream)
        (MigrationLeft env privateHandles inputPath outputPath newBundle minProfile stream) s ∧
      Eff.Post (migrateFile env privateHandles inputPath outputPath newBundle minProfile stream) s
        fun _ s' => s'.disk.files inputPath.path = s.disk.files inputPath.path := by
  refine ⟨atomicWriteBytes_output, ?_, ?_⟩
  · intro destPath writeFn hfn
    exact atomicStreamWrite_output destPath hfn
  · intro H env privateHandles inputPath outputPath newBundle minProfile stream s
    exact ⟨migrateFile_output env privateHandles inputPath outputPath newBundle minProfile stream s,
      migrateFile_keepsInput env privateHandles inputPath outputPath newBundle minProfile stream s⟩

/-- A callback that fails with a part of its output written. -/
def tornWrite (fd : Nat) : Eff Exc Files Unit := do
  Disk.write osErrors fd [1, 2, 3]
  Eff.raise (.decryptionError "decryption failed")

/-- A disk with a file at `dest`, on which every call goes well. -/
def diskWith (dest : Destination) (content : Bytes) : Files where
  files := Function.update (fun _ => none) dest.path (some content)
  plan _ := {}

/-- The old file survives a decryption that fails half way. -/
theorem fileOutputs_atomic_torn :
    AtomicOutput id Disk.interrupt (atomicStreamWrite ⟨"out", "/tmp", "out"⟩ tornWrite)
      ⟨"out", "/tmp", "out"⟩ (StreamContent ⟨"out", "/tmp", "out"⟩ tornWrite)
      (streamReplacement ⟨"out", "/tmp", "out"⟩ tornWrite).Left
      (diskWith ⟨"out", "/tmp", "out"⟩ [7]) := by
  apply fileOutputs_atomic.2.1
  intro fd temp
  apply Eff.Keeps.bind Disk.Confined.trans (Disk.Confined.write osErrors _)
  intro _
  exact Eff.Keeps.raise Disk.Confined.refl _

end CryptoFlex
