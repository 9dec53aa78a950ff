import CryptoFlex.Cli.Calm
import CryptoFlex.Keystore.Custody

namespace CryptoFlex

open Lib Console

variable {H : Type}

theorem xorEnv_durable : (xorEnv zeroTagAead).Durable := by
  have hlasting := builtinEnv_lasting xorX25519 xorOqs xorHkdf zeroTagAead xorX25519_documented
    (fun kemName _ _ => xorOqs_documented kemName) zeroTagAead_correct
  exact hlasting.durable

theorem zeroInstallation_headersFit : zeroInstallation.env.HeadersFit :=
  builtinEnv_headersFit xorX25519 xorOqs xorHkdf zeroTagAead profileRegistry_xor_compact

/-- No name that `mkstemp` may draw is taken. -/
def NoTemps (files : Contents) : Prop := ∀ (dest : Destination) n, files (dest.temp n) = none

theorem NoTemps.update {files : Contents} (h : NoTemps files) (dest : Destination)
    (content : Option Bytes) : NoTemps (Function.update files dest.path content) := by
  intro dest' n
  rw [Function.update_of_ne (dest.path_ne_temp dest' n).symm]
  exact h dest' n

theorem NoTemps.store {files : Contents} (h : NoTemps files)
    (outputs : List (Destination × Bytes)) : NoTemps (store files outputs) := by
  induction outputs generalizing files with
  | nil => exact h
  | cons output outputs ih => exact ih (h.update output.1 _)

/-- A process with these files, all of whose calls go well. -/
def calmOn (files : Contents) : Console := { rt := zeroRuntime, disk := { calmDisk with files } }

theorem calmOn_calm {files : Contents} (h : NoTemps files) : (calmOn files).Calm where
  quiet _ := rfl
  reads _ := rfl
  fresh dest _ := h dest _

/-- A command whose outputs can be computed, in a process of that kind. -/
theorem Happens.stores {inst : Installation H} {files : Contents} (hfresh : NoTemps files)
    (command : Command) {outputs : List (Destination × Bytes)} {rt' : Runtime}
    (h : (command.outputs inst files).run zeroRuntime = (.ok outputs, rt')) :
    Happens inst files (.command command true) (store files outputs) := by
  obtain ⟨code, s', hrun, rfl, hfiles⟩ := command.stores (calmOn_calm hfresh) h
  have hstep : Happens inst files (.command command true) s'.disk.files :=
    Happens.command hrun (by simp)
  rw [hfiles] at hstep
  exact hstep

/-- `encrypt /home/note`, with the bundle that `keygen` saves. -/
def sealNote : EncryptArgs where
  inputPath := { given := "/home/note", dir := "/home", name := "note" }
  outputPath := { given := "/home/note.cfx", dir := "/home", name := "note.cfx" }
  bundle := zeroArgs.bundle

/-- `decrypt /home/note.cfx`, with the key file that `keygen` saves. -/
def openNote : DecryptArgs where
  inputPath := sealNote.outputPath
  outputPath := { given := "/home/copy", dir := "/home", name := "copy" }
  key := zeroArgs.key
  environ := some "pw"

/-- `keygen`, a note of another program, and `encrypt`. -/
def noteSession : List FileEvent :=
  [.command (.keygen zeroArgs) true, .write sealNote.inputPath.path [7],
    .command (.encrypt sealNote) true]

/-- What the vault knows before the note is encrypted. -/
theorem noteSession_prepared {v : Vault} (h : Runs Vault.Step (Vault.start calmDisk.files)
    [.command (.keygen zeroArgs) true, .write sealNote.inputPath.path [7]] v) :
    v.docs sealNote.bundle.path = some (.bundle 0) ∧
      v.docs sealNote.inputPath.path = some (.raw [7]) := by
  rw [Vault.runs_eq h rfl]
  exact ⟨rfl, rfl⟩

theorem noteSession_known {v : Vault}
    (h : Runs Vault.Step (Vault.start calmDisk.files) noteSession v) :
    v.docs openNote.key.path = some (.key 0 "pw") ∧
      v.docs openNote.inputPath.path = some (.sealed 0 false (.raw [7])) := by
  rw [Vault.runs_eq h rfl]
  exact ⟨rfl, rfl⟩

theorem noteSession_happens : ∃ files,
    Runs (Happens zeroInstallation) calmDisk.files noteSession files ∧ NoTemps files ∧
      ∀ content, files openNote.key.path = some content → content.length ≤ maxKeystoreSize := by
  have hempty : NoTemps calmDisk.files := fun _ _ => rfl
  obtain ⟨pair, p, hgenerate, -, hsize⟩ := generatePair_zero calmDisk
  have hprocess : { rt := zeroRuntime, disk := calmDisk } = calmConsole.toProcess := rfl
  rw [hprocess] at hgenerate
  obtain ⟨rt₁, hnew⟩ := newPair_of_generatePair hgenerate
  have hrt : calmConsole.rt = zeroRuntime := rfl
  rw [hrt] at hnew
  have hkeygen := Happens.stores hempty _ (keygen_outputs hnew calmDisk.files)
  let files : Contents := Function.update (store calmDisk.files (pair.outputs zeroArgs))
    sealNote.inputPath.path (some [7])
  have hfresh : NoTemps files :=
    (hempty.store (pair.outputs zeroArgs)).update sealNote.inputPath (some [7])
  have hwrite : Happens zeroInstallation (store calmDisk.files (pair.outputs zeroArgs))
    (.write sealNote.inputPath.path [7]) files := Happens.write
  have hprepared : Runs (Happens zeroInstallation) calmDisk.files
      [.command (.keygen zeroArgs) true, .write sealNote.inputPath.path [7]] files :=
    Runs.cons hkeygen (Runs.cons hwrite Runs.nil)
  obtain ⟨v, hv, keys, hm⟩ := Models.runs xorEnv_durable hprepared
  obtain ⟨hbundle, hnote⟩ := noteSession_prepared hv
  have haccepts : ∀ plaintext, Means zeroInstallation keys (.raw [7]) plaintext →
      zeroInstallation.env.aead.Accepts plaintext := fun _ _ _ _ _ _ _ _ => ⟨_, rfl⟩
  obtain ⟨content, rt₂, hcontent⟩ :=
    hm.encrypts xorEnv_durable hbundle hnote (by decide) rfl haccepts zeroRuntime
  have houtputs := Eff.bind_ok hcontent fun content =>
    (pure [(sealNote.outputPath, content)] : Eff Exc Runtime (List (Destination × Bytes)))
  have hencrypt := Happens.stores hfresh (.encrypt sealNote) houtputs
  refine ⟨_, hprepared.append (Runs.cons hencrypt Runs.nil), hfresh.store _, ?_⟩
  intro keyBytes hkey
  have hsaved : some pair.key = some keyBytes := hkey
  cases hsaved
  exact hsize

/-- The note comes back when its ciphertext is decrypted. -/
theorem noteSession_opened : ∃ files, Runs (Happens zeroInstallation) calmDisk.files
    (noteSession ++ [.command (.decrypt openNote) true]) files := by
  obtain ⟨files, hruns, hfresh, hsize⟩ := noteSession_happens
  obtain ⟨v, hv, keys, hm⟩ := Models.runs xorEnv_durable hruns
  obtain ⟨hkey, hinput⟩ := noteSession_known hv
  have hmin : ∀ k, keys[0]? = some k →
      NotStronger zeroInstallation.env openNote.minProfile k.profile := fun _ _ => nofun
  have hp : zeroRuntime.kdfPermits ≠ 0 := by decide
  obtain ⟨content, rt', hcontent, -⟩ := hm.decrypts xorEnv_durable zeroInstallation_headersFit hkey
    hinput (by decide) hsize hmin hp
  have houtputs := Eff.bind_ok hcontent fun content =>
    (pure [(openNote.outputPath, content)] : Eff Exc Runtime (List (Destination × Bytes)))
  have hdecrypt := Happens.stores hfresh (.decrypt openNote) houtputs
  exact ⟨_, hruns.append (Runs.cons hdecrypt Runs.nil)⟩

theorem noteSession_returned {v : Vault} (h : Runs Vault.Step (Vault.start calmDisk.files)
    (noteSession ++ [.command (.decrypt openNote) true]) v) :
    v.docs openNote.inputPath.path = some (.sealed 0 false (.raw [7])) ∧
      v.docs openNote.outputPath.path = some (.raw [7]) := by
  rw [Vault.runs_eq h rfl]
  exact ⟨rfl, rfl⟩

/-- Whatever commands run, in whatever processes, and however their calls go, with whatever other
programs do to the files in between: the files stay a vault's. -/
theorem session_models (inst : Installation H) (he : inst.env.Durable) (files files' : Contents)
    (es : List FileEvent) (h : Runs (Happens inst) files es files') :
    ∃ v, Runs Vault.Step (Vault.start files) es v ∧ ∃ keys, Models inst keys v files' :=
  Models.runs he h

theorem session_models_calm : ∃ files v keys,
    Runs Vault.Step (Vault.start calmDisk.files)
      (noteSession ++ [.command (.decrypt openNote) true]) v ∧
    Models zeroInstallation keys v files ∧
    v.docs openNote.inputPath.path = some (.sealed 0 false (.raw [7])) ∧
    v.docs openNote.outputPath.path = some (.raw [7]) := by
  obtain ⟨files, hruns⟩ := noteSession_opened
  obtain ⟨v, hv, keys, hm⟩ := session_models zeroInstallation xorEnv_durable _ _ _ hruns
  exact ⟨files, v, keys, hv, hm, noteSession_returned hv⟩

end CryptoFlex
