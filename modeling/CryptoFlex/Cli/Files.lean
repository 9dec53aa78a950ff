import CryptoFlex.Lib.Disk
import CryptoFlex.Python

namespace CryptoFlex

open Lib

/-- A file name: one that a user gives, or ".cryptoflex_tmp_" with `mkstemp`'s random end. -/
inductive FileName
  | given (name : PyStr)
  | cryptoflexTmp (suffix : Nat)
  deriving DecidableEq

/-- An absolute path, split into directory and file name. -/
structure Path where
  dir : PyStr
  name : FileName
  deriving DecidableEq

/-- The path of an output file, as the user gives it and as `os.path.abspath` reads it. -/
structure Destination where
  given : PyStr
  dir : PyStr
  name : PyStr

namespace Destination

def path (dest : Destination) : Path := ⟨dest.dir, .given dest.name⟩

def temp (dest : Destination) (suffix : Nat) : Path := ⟨dest.dir, .cryptoflexTmp suffix⟩

theorem path_ne_temp (dest dest' : Destination) (suffix : Nat) : dest.path ≠ dest'.temp suffix := by
  intro h
  cases congrArg Path.name h

end Destination

namespace Exc

/-- `except OSError`. -/
def isOsError : Exc → Bool
  | osError => true
  | _ => false

/-- `except (OSError, AttributeError)`. -/
def isOsOrAttributeError : Exc → Bool
  | osError => true
  | attributeError => true
  | _ => false

end Exc

def osErrors : OsErrors Exc where
  fileExists := .osError
  noEntry := .osError
  closedFile := .valueError "I/O operation on closed file."

abbrev Files := Disk Path Exc

/-- `try: x except (OSError, AttributeError): pass`. -/
def tolerating (x : Eff Exc Files Unit) : Eff Exc Files Unit :=
  Eff.tryCatch x fun e => if e.isOsOrAttributeError then return () else Eff.raise e

def makeTempInDir (destPath : Destination) : Eff Exc Files (Nat × Path) := do
  let (fd, tempPath) ← Disk.mkstemp osErrors destPath.temp
  -- os.chmod
  tolerating Disk.call
  return (fd, tempPath)

/-- `with os.fdopen(fd, "wb") as f:` around the writing, a flush and an fsync. -/
def writeTemp (fd : Nat) (writeFn : Nat → Eff Exc Files Unit) : Eff Exc Files Unit := do
  -- os.fdopen
  Disk.call
  Eff.tryFinally (do
    writeFn fd
    Disk.flush osErrors fd
    -- os.fsync
    tolerating Disk.call)
    (Disk.close fd)

/-- `try: os.unlink(temp_path) except OSError: pass`. -/
def discard (tempPath : Path) : Eff Exc Files Unit :=
  Eff.tryCatch (Disk.unlink osErrors tempPath) fun e =>
    if e.isOsError then return () else Eff.raise e

/-- A new file goes to a temporary name first and then takes the place of `destPath`. -/
def atomicWrite (destPath : Destination) (writeFn : Nat → Eff Exc Files Unit)
    (afterwards : Eff Exc Files Unit) : Eff Exc Files Unit := do
  let (fd, tempPath) ← makeTempInDir destPath
  Eff.tryCatch (do
    writeTemp fd writeFn
    Disk.replace osErrors tempPath destPath.path
    afterwards) fun e => do
    discard tempPath
    Eff.raise e

/-- `_atomic_write_bytes`. -/
def atomicWriteBytes (destPath : Destination) (data : Bytes) : Eff Exc Files Unit :=
  atomicWrite destPath (fun fd => Disk.write osErrors fd data) (pure ())

/-- `_atomic_stream_write`. -/
def atomicStreamWrite (destPath : Destination) (writeFn : Nat → Eff Exc Files Unit) :
    Eff Exc Files Unit :=
  atomicWrite destPath writeFn (pure ())

/-- What is left of an outcome under `tolerating`. -/
def tolerated (o : Outcome Exc) : Except Exc Unit :=
  match o.raised with
  | some e => if e.isOsOrAttributeError then .ok () else .error e
  | none => .ok ()

theorem tolerating_run {x : Eff Exc Files Unit} {d d' : Files} {o : Outcome Exc}
    (h : x.run d = (o.result, d')) : (tolerating x).run d = (tolerated o, d') := by
  unfold tolerating tolerated
  cases hr : o.raised with
  | none =>
    rw [Outcome.result, hr] at h
    exact Eff.tryCatch_ok h _
  | some e =>
    rw [Outcome.result, hr] at h
    rw [Eff.tryCatch_error h]
    dsimp only
    split <;> rfl

/-- The steps of `writeTemp` that may raise all go through, where `plan` tells how they go. -/
structure Written (plan : Nat → Outcome Exc) : Prop where
  opened : (plan 0).raised = none
  written : (plan 1).raised = none
  flushed : (plan 2).raised = none
  synced : tolerated (plan 3) = .ok ()
  closed : (plan 4).raised = none

/-- The same for the steps from `_make_temp_in_dir` up to `os.replace`. -/
structure Saved (files : Path → Option Bytes) (destPath : Destination)
    (plan : Nat → Outcome Exc) : Prop where
  created : (plan 0).raised = none
  fresh : files (destPath.temp (plan 0).suffix) = none
  restricted : tolerated (plan 1) = .ok ()
  written : Written (Disk.after plan 2)
  replaced : (plan 7).raised = none

section Steps

variable {d : Files} (temp : Path)

theorem call_tolerating_drafting (n : Nat) (content buffer : Bytes) :
    (tolerating Disk.call).run (d.drafting n temp content buffer) =
      (tolerated (d.plan n), d.drafting (n + 1) temp content buffer) :=
  tolerating_run (Disk.call_drafting d n temp content buffer)

/-- The writing itself: when it returns, file and buffer hold the data. -/
theorem writeBody_run (n : Nat) (data : Bytes) :
    ∃ r m content buffer, (do
        Disk.write osErrors d.handles.length data
        Disk.flush osErrors d.handles.length
        tolerating Disk.call : Eff Exc Files Unit).run (d.drafting n temp [] []) =
          (r, d.drafting m temp content buffer) ∧
      (r = .ok () ↔ (d.plan n).raised = none ∧ (d.plan (n + 1)).raised = none ∧
        tolerated (d.plan (n + 2)) = .ok ()) ∧
      (r = .ok () → m = n + 3 ∧ content ++ buffer = data) := by
  have hwrite := Disk.write_drafting osErrors d n temp [] [] data
  cases hw : (d.plan n).raised with
  | some e =>
    rw [Outcome.result_of_some hw] at hwrite
    refine ⟨_, _, _, _, Eff.bind_error hwrite _, ?_, nofun⟩
    simp
  | none =>
  rw [Outcome.result_of_none hw] at hwrite
  have hflush := Disk.flush_drafting osErrors d (n + 1) temp
    ([] ++ ([] ++ data).take (d.plan n).moved) (([] ++ data).drop (d.plan n).moved)
  cases hf : (d.plan (n + 1)).raised with
  | some e =>
    rw [Outcome.result_of_some hf] at hflush
    refine ⟨_, _, _, _, (Eff.bind_ok hwrite _).trans (Eff.bind_error hflush _), ?_, nofun⟩
    simp
  | none =>
  rw [Outcome.result_of_none hf, Disk.flushed_of_none hf] at hflush
  refine ⟨_, _, _, _, (Eff.bind_ok hwrite _).trans ((Eff.bind_ok hflush _).trans
    (call_tolerating_drafting _ _ _ _)), ?_, ?_⟩
  · simp
  · intro _
    refine ⟨rfl, ?_⟩
    rw [List.append_assoc, List.take_append_drop, List.append_assoc, List.take_append_drop]
    rfl

/-- `writeTemp` leaves the temporary file closed and complete, or raises. -/
theorem writeTemp_run (n : Nat) (data : Bytes) :
    ∃ r d', (writeTemp d.handles.length fun fd => Disk.write osErrors fd data).run
        (d.drafting n temp [] []) = (r, d') ∧
      (r = .ok () ↔ Written (Disk.after d.plan n)) ∧
      (r = .ok () → d' = d.drafted (n + 5) temp data) ∧ Disk.OnlyTouches temp d d' := by
  unfold writeTemp
  have hopen := Disk.call_drafting d n temp [] []
  cases ho : (d.plan n).raised with
  | some e =>
    rw [Outcome.result_of_some ho] at hopen
    refine ⟨_, _, Eff.bind_error hopen _, ?_, nofun, Disk.OnlyTouches.of_update rfl⟩
    constructor
    · nofun
    · intro hw
      have hopened : (d.plan n).raised = none := hw.opened
      rw [ho] at hopened
      cases hopened
  | none =>
  rw [Outcome.result_of_none ho] at hopen
  rw [Eff.bind_ok hopen]
  obtain ⟨r, m, content, buffer, hbody, hr, hdone⟩ :=
    writeBody_run (d := d) temp (n + 1) data
  have hclose := Disk.close_drafting d m temp content buffer
  have hsteps : Written (Disk.after d.plan n) ↔ r = .ok () ∧ (d.plan (n + 4)).raised = none := by
    rw [hr]
    constructor
    · intro hw
      exact ⟨⟨hw.written, hw.flushed, hw.synced⟩, hw.closed⟩
    · rintro ⟨⟨hwritten, hflushed, hsynced⟩, hclosed⟩
      exact ⟨ho, hwritten, hflushed, hsynced, hclosed⟩
  cases hc : (d.plan m).raised with
  | some e =>
    rw [Outcome.result_of_some hc] at hclose
    refine ⟨_, _, Eff.tryFinally_error hbody hclose, ?_, nofun, Disk.OnlyTouches.of_update rfl⟩
    rw [hsteps]
    constructor
    · nofun
    · rintro ⟨hok, hclosed⟩
      rw [(hdone hok).1, hclosed] at hc
      cases hc
  | none =>
    rw [Outcome.result_of_none hc, Disk.flushed_of_none hc, List.take_length] at hclose
    refine ⟨_, _, Eff.tryFinally_run hbody hclose, ?_, ?_, Disk.OnlyTouches.of_update rfl⟩
    · rw [hsteps]
      constructor
      · intro hok
        rw [(hdone hok).1] at hc
        exact ⟨hok, hc⟩
      · exact And.left
    · intro hok
      rw [(hdone hok).1, (hdone hok).2]

theorem discard_keeps : Eff.Keeps (Disk.OnlyTouches temp) (discard temp) := by
  apply Eff.Keeps.tryCatch Disk.OnlyTouches.trans (Disk.OnlyTouches.unlink osErrors)
  intro e
  split
  · exact Eff.Keeps.pure Disk.OnlyTouches.refl _
  · exact Eff.Keeps.raise Disk.OnlyTouches.refl _

/-- The handler of `atomicWrite` lets the exception pass, or raises one of its own. -/
theorem discarding_run {body : Eff Exc Files Unit} {d' : Files} {e : Exc}
    (h : body.run d = (.error e, d')) : ∃ e' d'', (Eff.tryCatch body fun e => do
        discard temp
        Eff.raise e).run d = (.error e', d'') ∧ Disk.OnlyTouches temp d' d'' := by
  rw [Eff.tryCatch_error h]
  have hkeeps := discard_keeps temp
  rcases hrun : (discard temp).run d' with ⟨_ | _, d''⟩
  · rw [Eff.bind_error hrun]
    exact ⟨_, _, rfl, hkeeps.of_eq hrun⟩
  · rw [Eff.bind_ok hrun]
    exact ⟨_, _, rfl, hkeeps.of_eq hrun⟩

/-- The disk after `os.replace`. -/
def replaced (d : Files) (destPath : Destination) (data : Bytes) : Files where
  files := Function.update d.files destPath.path (some data)
  handles := d.handles ++ [none]
  plan := Disk.after d.plan 8

/-- How the write of a file ends: before the replacement, or with what follows it. -/
inductive AtomicRun (destPath : Destination) (data : Bytes) (afterwards : Eff Exc Files Unit)
    (d : Files) : Except Exc Unit → Files → Prop
  | kept {e : Exc} {d' : Files} (unsaved : ¬Saved d.files destPath d.plan)
    (files : Disk.OnlyTouches (destPath.temp (d.plan 0).suffix) d d') :
    AtomicRun destPath data afterwards d (.error e) d'
  | late {e e' : Exc} {d₁ d' : Files} (saved : Saved d.files destPath d.plan)
    (raised : afterwards.run (replaced d destPath data) = (.error e, d₁))
    (files : Disk.OnlyTouches (destPath.temp (d.plan 0).suffix) d₁ d') :
    AtomicRun destPath data afterwards d (.error e') d'
  | done {d' : Files} (saved : Saved d.files destPath d.plan)
    (returned : afterwards.run (replaced d destPath data) = (.ok (), d')) :
    AtomicRun destPath data afterwards d (.ok ()) d'

theorem atomicWrite_run (destPath : Destination) (data : Bytes) (afterwards : Eff Exc Files Unit)
    (d : Files) : ∃ r d', (atomicWrite destPath (fun fd => Disk.write osErrors fd data)
        afterwards).run d = (r, d') ∧ AtomicRun destPath data afterwards d r d' := by
  unfold atomicWrite makeTempInDir
  rw [Eff.bind_assoc]
  by_cases hnew : (d.plan 0).raised = none ∧ d.files (destPath.temp (d.plan 0).suffix) = none
  swap
  · obtain ⟨e, hmkstemp⟩ := Disk.mkstemp_error osErrors destPath.temp hnew
    refine ⟨_, _, Eff.bind_error hmkstemp _, AtomicRun.kept ?_ fun _ _ => rfl⟩
    intro hsaved
    exact hnew ⟨hsaved.created, hsaved.fresh⟩
  obtain ⟨hcreated, hfresh⟩ := hnew
  rw [Eff.bind_ok (Disk.mkstemp_run osErrors destPath.temp hcreated hfresh)]
  dsimp only
  rw [Eff.bind_assoc]
  have hchmod := call_tolerating_drafting (d := d) (destPath.temp (d.plan 0).suffix) 1 [] []
  cases ht : tolerated (d.plan 1) with
  | error e =>
    rw [ht] at hchmod
    refine ⟨_, _, Eff.bind_error hchmod _,
      AtomicRun.kept ?_ (Disk.OnlyTouches.of_update rfl)⟩
    intro hsaved
    rw [hsaved.restricted] at ht
    cases ht
  | ok _ =>
  rw [ht] at hchmod
  rw [Eff.bind_ok hchmod, Eff.pure_bind]
  dsimp only
  obtain ⟨r, d₁, hwrite, hr, hdone, htouches⟩ :=
    writeTemp_run (d := d) (destPath.temp (d.plan 0).suffix) 2 data
  cases r with
  | error e =>
    obtain ⟨e', d', hrun, hdiscard⟩ := discarding_run (destPath.temp (d.plan 0).suffix)
      (Eff.bind_error hwrite fun _ => Disk.replace osErrors _ destPath.path >>= fun _ => afterwards)
    refine ⟨_, _, hrun, AtomicRun.kept ?_ (Disk.OnlyTouches.trans _ _ _ htouches hdiscard)⟩
    intro hsaved
    cases hr.mpr hsaved.written
  | ok _ =>
  have hd₁ := hdone rfl
  subst hd₁
  have hbody : (do
      writeTemp d.handles.length fun fd => Disk.write osErrors fd data
      Disk.replace osErrors (destPath.temp (d.plan 0).suffix) destPath.path
      afterwards : Eff Exc Files Unit).run (d.drafting 2 (destPath.temp (d.plan 0).suffix) [] []) =
    (do
      Disk.replace osErrors (destPath.temp (d.plan 0).suffix) destPath.path
      afterwards : Eff Exc Files Unit).run
        (d.drafted 7 (destPath.temp (d.plan 0).suffix) data) := Eff.bind_ok hwrite _
  cases hreplace : (d.plan 7).raised with
  | some e =>
    rw [Eff.bind_error (Disk.replace_raised osErrors hreplace)] at hbody
    obtain ⟨e', d', hrun, hdiscard⟩ := discarding_run (destPath.temp (d.plan 0).suffix) hbody
    refine ⟨_, _, hrun, AtomicRun.kept ?_ (Disk.OnlyTouches.trans _ _ _ htouches hdiscard)⟩
    intro hsaved
    rw [hsaved.replaced] at hreplace
    cases hreplace
  | none =>
  have hsaved : Saved d.files destPath d.plan := ⟨hcreated, hfresh, ht, hr.mp rfl, hreplace⟩
  rw [Eff.bind_ok (Disk.replace_drafted osErrors hfresh 7 data destPath.path hreplace)] at hbody
  rcases hafter : afterwards.run (replaced d destPath data) with ⟨e | _, d₁⟩
  · obtain ⟨e', d', hrun, hdiscard⟩ := discarding_run (destPath.temp (d.plan 0).suffix)
      (hbody.trans hafter)
    exact ⟨_, _, hrun, AtomicRun.late hsaved hafter hdiscard⟩
  · exact ⟨_, _, Eff.tryCatch_ok (hbody.trans hafter) _, AtomicRun.done hsaved hafter⟩

/-- `_atomic_write_bytes` leaves the new content or the old one. -/
theorem atomicWriteBytes_run (destPath : Destination) (data : Bytes) (d : Files) :
    (Saved d.files destPath d.plan ∧
      (atomicWriteBytes destPath data).run d = (.ok (), replaced d destPath data)) ∨
    ¬Saved d.files destPath d.plan ∧ ∃ e d', (atomicWriteBytes destPath data).run d =
      (.error e, d') ∧ Disk.OnlyTouches (destPath.temp (d.plan 0).suffix) d d' := by
  obtain ⟨r, d', hrun, hatomic⟩ := atomicWrite_run destPath data (pure ()) d
  cases hatomic with
  | kept unsaved files => exact Or.inr ⟨unsaved, _, d', hrun, files⟩
  | late _ raised _ => cases raised
  | done saved returned =>
    cases returned
    exact Or.inl ⟨saved, hrun⟩

end Steps

end CryptoFlex
