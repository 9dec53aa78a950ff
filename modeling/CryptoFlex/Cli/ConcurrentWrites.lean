import CryptoFlex.Cli.Files
import CryptoFlex.Lib.Publication

namespace CryptoFlex

open Lib

/-- A new output file: what the callback of `_atomic_stream_write` writes, piece by piece, and what
it raises in the end. -/
structure Save where
  dest : Destination
  pieces : List Bytes
  failure : Option Exc := none

/-- The callback. -/
def writePieces (fd : Nat) (failure : Option Exc) : List Bytes → Resumption Exc Files Unit
  | [] =>
    match failure with
    | none => pure ()
    | some e => .done (.error e)
  | piece :: pieces => do
    .atomic (Disk.write osErrors fd piece)
    writePieces fd failure pieces

namespace Save

/-- `_atomic_write_bytes` writes its data in one piece. -/
def ofBytes (dest : Destination) (data : Bytes) : Save where
  dest := dest
  pieces := [data]

def output (x : Save) : Path × Bytes := (x.dest.path, x.pieces.flatten)

def fill (x : Save) (fd : Nat) : Resumption Exc Files Unit := do
  .atomic Disk.call
  Resumption.tryFinally (do
    writePieces fd x.failure x.pieces
    .atomic (Disk.flush osErrors fd)
    .atomic (tolerating Disk.call))
    (.atomic (Disk.close fd))

/-- The function in steps of one system call each. -/
def steps (x : Save) : Resumption Exc Files Unit := do
  let (fd, temp) ← .atomic (Disk.mkstemp osErrors x.dest.temp)
  .atomic (tolerating Disk.call)
  Resumption.tryCatch (do
    x.fill fd
    .atomic (Disk.replace osErrors temp x.dest.path)) fun e => do
    .atomic (discard temp)
    .done (.error e)

theorem fill_toEff (x : Save) (fd : Nat) : (x.fill fd).toEff =
    writeTemp fd fun fd => (writePieces fd x.failure x.pieces).toEff := by
  simp only [fill, writeTemp, Resumption.toEff_bind, Resumption.toEff_atomic,
    Resumption.toEff_tryFinally]

/-- With nothing in between, the steps are the function. -/
theorem steps_toEff (x : Save) : x.steps.toEff =
    atomicStreamWrite x.dest fun fd => (writePieces fd x.failure x.pieces).toEff := by
  have hpure : ∀ y : Eff Exc Files Unit, (y >>= fun _ => pure ()) = y := Eff.bind_pure
  have hraise : ∀ e : Exc, (Resumption.done (.error e) : Resumption Exc Files Unit).toEff =
      Eff.raise e := fun _ => rfl
  simp only [steps, atomicStreamWrite, atomicWrite, makeTempInDir, Resumption.toEff_bind,
    Resumption.toEff_atomic, Resumption.toEff_tryCatch, fill_toEff, Eff.bind_assoc, Eff.pure_bind,
    hpure, hraise]

theorem ofBytes_toEff (dest : Destination) (data : Bytes) :
    (ofBytes dest data).steps.toEff = atomicWriteBytes dest data := by
  have hpieces : ∀ fd, (writePieces fd none [data]).toEff = Disk.write osErrors fd data := by
    intro fd
    simp only [writePieces, Resumption.toEff_bind, Resumption.toEff_atomic, Resumption.toEff_pure]
    exact Eff.bind_pure _
  rw [steps_toEff]
  simp only [ofBytes, hpieces]
  rfl

end Save

/-- Names of temporary files. -/
def Path.IsTemporary (p : Path) : Prop := ∃ suffix, p.name = .cryptoflexTmp suffix

theorem Destination.path_not_temporary (dest : Destination) : ¬dest.path.IsTemporary := by
  rintro ⟨suffix, h⟩
  cases h

section Writers

variable {allowed : List (Path × Bytes) → Prop} {published : List (Path × Bytes)}

/-- The callback puts its pieces into the draft. -/
theorem writePieces_publishes {fd : Nat} {failure : Option Exc} {temp : Path} {pieces : List Bytes}
    {c : Bytes} {d : Files} (h : d.Drafts fd temp c) :
    Publishes Path.IsTemporary allowed (fun r g d => g = ⟨some temp, published⟩ ∧
      (∃ c', d.Drafts fd temp c') ∧
      (r = .ok () → failure = none ∧ d.Drafts fd temp (c ++ pieces.flatten)))
      (writePieces fd failure pieces) ⟨some temp, published⟩ d := by
  induction pieces generalizing c d with
  | nil =>
    have hdrafts : d.Drafts fd temp (c ++ List.flatten []) := by
      rw [List.flatten_nil, List.append_nil]
      exact h
    cases failure with
    | none => exact ⟨rfl, ⟨c, h⟩, fun _ => ⟨rfl, hdrafts⟩⟩
    | some e => exact ⟨rfl, ⟨c, h⟩, fun hr => nomatch hr⟩
  | cons piece pieces ih =>
    apply Publishes.bind
    have hwrite : ∀ d : Files, d.Drafts fd temp c →
        Eff.Post (Disk.write osErrors fd piece) d fun _ d' => d'.Drafts fd temp (c ++ piece) :=
      fun d hd => hd.write osErrors piece
    apply (Publishes.fill (Disk.Confined.write osErrors piece) hwrite h).mono
    rintro (e | _) g d ⟨rfl, -, hd⟩
    · exact ⟨rfl, ⟨_, hd⟩, fun hr => nomatch hr⟩
    · have hrest := ih hd
      rw [List.append_assoc, ← List.flatten_cons] at hrest
      exact hrest

theorem tolerating_call_confined {fd : Nat} {temp : Path} :
    Eff.Keeps (Disk.Confined fd temp) (tolerating Disk.call : Eff Exc Files Unit) := by
  apply Eff.Keeps.tryCatch Disk.Confined.trans Disk.Confined.call
  intro e
  split
  · exact Eff.Keeps.pure Disk.Confined.refl _
  · exact Eff.Keeps.raise Disk.Confined.refl _

theorem tolerating_call_drafts {fd : Nat} {temp : Path} {c : Bytes} (d : Files)
    (h : d.Drafts fd temp c) :
    Eff.Post (tolerating Disk.call) d fun _ d' => d'.Drafts fd temp c :=
  Eff.Post.of_eq (tolerating_run (Disk.call_run d)) (h.of_eq rfl rfl)

namespace Save

variable (x : Save) {fd : Nat} {temp : Path} {d : Files}

/-- The pieces, the flush and the fsync. -/
theorem written_publishes (h : d.Drafts fd temp []) :
    Publishes Path.IsTemporary allowed (fun r g d => g = ⟨some temp, published⟩ ∧
      (∃ c, d.Drafts fd temp c) ∧
      (r = .ok () → x.failure = none ∧ d.Drafts fd temp x.pieces.flatten))
      (do
        writePieces fd x.failure x.pieces
        .atomic (Disk.flush osErrors fd)
        .atomic (tolerating Disk.call)) ⟨some temp, published⟩ d := by
  apply Publishes.bind
  apply (writePieces_publishes h).mono
  rintro (e | _) g d ⟨rfl, hdrafts, hwritten⟩
  · exact ⟨rfl, hdrafts, fun hr => nomatch hr⟩
  obtain ⟨hfailure, hwhole⟩ := hwritten rfl
  rw [List.nil_append] at hwhole
  apply Publishes.bind
  apply (Publishes.fill (Disk.Confined.flush osErrors) (fun _ hd => hd.flush osErrors) hwhole).mono
  rintro (e | _) g d ⟨rfl, -, hd⟩
  · exact ⟨rfl, ⟨_, hd⟩, fun hr => nomatch hr⟩
  apply (Publishes.fill tolerating_call_confined tolerating_call_drafts hd).mono
  rintro r g d ⟨rfl, -, hd⟩
  exact ⟨rfl, ⟨_, hd⟩, fun _ => ⟨hfailure, hd⟩⟩

/-- A draft that is closed without an exception is complete. -/
theorem fill_publishes (h : d.Drafts fd temp []) :
    Publishes Path.IsTemporary allowed (fun r g d => g = ⟨some temp, published⟩ ∧
      (d.files temp).isSome ∧
      (r = .ok () → x.failure = none ∧ d.files temp = some x.pieces.flatten))
      (x.fill fd) ⟨some temp, published⟩ d := by
  have hopen : ∀ d : Files, d.Drafts fd temp [] →
      Eff.Post Disk.call d fun _ d' => d'.Drafts fd temp [] :=
    fun d hd => Eff.Post.of_eq (Disk.call_run d) (hd.of_eq rfl rfl)
  apply Publishes.bind
  apply (Publishes.fill Disk.Confined.call hopen h).mono
  rintro (e | _) g d ⟨rfl, hthere, hd⟩
  · exact ⟨rfl, hthere, fun hr => nomatch hr⟩
  apply Publishes.tryFinally
  apply (x.written_publishes hd).mono
  rintro r g d ⟨rfl, ⟨c, hdrafts⟩, hwritten⟩
  apply (Publishes.fill (Disk.Confined.close) (fun _ hd => hd.close) hdrafts).mono
  rintro (e | _) g d' ⟨rfl, hthere, hclosed⟩
  · exact ⟨rfl, hthere, fun hr => nomatch hr⟩
  refine ⟨rfl, hthere, ?_⟩
  intro hr
  obtain ⟨hfailure, hwhole⟩ := hwritten hr
  rw [← hdrafts.unique hwhole]
  exact ⟨hfailure, hclosed rfl⟩

/-- A writer that returns has published its output, and one that raises nothing. -/
def Ended (published : List (Path × Bytes)) : Except Exc Unit → Stage Path → Prop
  | .ok _, g => x.failure = none ∧ g = ⟨none, published ++ [x.output]⟩
  | .error _, g => g.published = published

/-- The exception handler. -/
theorem discard_publishes (e : Exc) :
    Publishes Path.IsTemporary allowed (fun r g _ => x.Ended published r g)
      (.atomic (discard temp) >>= fun _ => .done (.error e)) ⟨some temp, published⟩ d := by
  apply Publishes.bind
  apply (Publishes.drop (discard_keeps temp)).mono
  rintro (e' | _) g d rfl
  · rfl
  · rfl

theorem steps_publishes (hallowed : x.failure = none → allowed (published ++ [x.output])) :
    Publishes Path.IsTemporary allowed (fun r g _ => x.Ended published r g) x.steps
      ⟨none, published⟩ d := by
  have hname : ∀ suffix, (x.dest.temp suffix).IsTemporary := fun suffix => ⟨suffix, rfl⟩
  apply Publishes.bind
  apply (Publishes.mkstemp x.dest.temp hname).mono
  rintro (e | ⟨fd, temp⟩) g d hmade
  · dsimp only at hmade ⊢
    rw [hmade]
    rfl
  obtain ⟨rfl, hd⟩ := hmade
  dsimp only at hd ⊢
  apply Publishes.bind
  apply (Publishes.fill tolerating_call_confined tolerating_call_drafts hd).mono
  rintro (e | _) g d ⟨rfl, -, hd⟩
  · rfl
  apply Publishes.tryCatch
  apply Publishes.bind
  apply (x.fill_publishes hd).mono
  rintro (e | _) g d ⟨rfl, -, hfilled⟩
  · exact x.discard_publishes e
  obtain ⟨hfailure, hwhole⟩ := hfilled rfl
  apply (Publishes.replace x.dest.path_not_temporary (hallowed hfailure) hwhole).mono
  rintro (e | _) g d hreplaced
  · obtain ⟨rfl, -⟩ := hreplaced
    exact x.discard_publishes e
  · exact ⟨hfailure, hreplaced⟩

end Save

/-- The output files of a command, one after the other. -/
def saveAll : List Save → Resumption Exc Files Unit
  | [] => pure ()
  | x :: job => do
    x.steps
    saveAll job

/-- A command that returns has published all of its outputs in their order, and one that raises the
first few. -/
theorem saveAll_publishes {all : List (Path × Bytes)} (job : List Save)
    (hjob : published ++ job.map Save.output = all) (d : Files) :
    Publishes Path.IsTemporary (· <+: all)
      (fun r g _ => r = .ok () ↔ g.published = all) (saveAll job) ⟨none, published⟩ d := by
  induction job generalizing published d with
  | nil =>
    have hall : published = all := by
      rw [← hjob, List.map_nil, List.append_nil]
    exact iff_of_true rfl hall
  | cons x job ih =>
    have hnext : (published ++ [x.output]) ++ job.map Save.output = all := by
      rw [List.append_assoc]
      exact hjob
    apply Publishes.bind
    apply (x.steps_publishes fun _ => ⟨_, hnext⟩).mono
    rintro (e | _) g d hended
    · refine iff_of_false (fun hr => nomatch hr) ?_
      have hpublished : g.published = published := hended
      rw [hpublished, ← hjob]
      simp
    · obtain ⟨-, rfl⟩ := hended
      exact ih hnext d

end Writers

/-- The log tells what the commands have done to the files: every file but the temporary ones holds
what writing the outputs in the log leaves there, one after the other. Of each command a first part
of its outputs is in the log, and all of them exactly if it has returned. -/
def SavedInOrder (files : FileMap Path) (log : List (Nat × Path × Bytes))
    (pool : Pool (Writer (List Save) Path Exc) (FileMap Path)) : Prop :=
  Explains Path.IsTemporary (fun job l => l <+: job.map Save.output)
    (fun job r l => r = .ok () ↔ l = job.map Save.output) files log pool

/-- Any number of commands save their outputs at the same time, in any interleaving of their system
calls, and however each call goes. At every moment there is one order of the outputs that have been
published, to which the rest of the run only adds: no output is torn, mixed with another or lost. No
command waits for another. -/
theorem concurrentSaves_linearize {files : FileMap Path}
    {es : List (PoolEvent (Writer (List Save) Path Exc))}
    {pool : Pool (Writer (List Save) Path Exc) (FileMap Path)}
    (h : Runs (Pool.Step (writers saveAll)) ⟨[], files⟩ es pool) :
    (∃ log, SavedInOrder files log pool ∧
      ∀ es' pool', Runs (Pool.Step (writers saveAll)) pool es' pool' →
        ∃ more, SavedInOrder files (log ++ more) pool') ∧
    ∀ (i : Nat) (t : Writer (List Save) Path Exc), pool.threads[i]? = some t → ∃ n pool',
      Runs (Pool.Step (writers saveAll)) pool (List.replicate n (.run i)) pool' ∧
      pool'.shared = (t.program.toEff.run (t.disk pool.shared)).2.files ∧
      (∃ t', pool'.threads[i]? = some t' ∧ t'.job = t.job ∧
        t'.program = .done (t.program.toEff.run (t.disk pool.shared)).1) ∧
      ∀ j, j ≠ i → pool'.threads[j]? = pool.threads[j]? :=
  ⟨Pool.linearizes (fun _ => List.nil_prefix)
    (fun job d => saveAll_publishes job (List.nil_append _) d) h,
    fun _ _ ht => Pool.ends_alone ht⟩

/-- A command that is about to save `data` under one name, with the end of its temporary name. -/
def noteWriter (data : Bytes) (suffix : Nat) : Writer (List Save) Path Exc where
  job := [Save.ofBytes ⟨"note", "/home", "note"⟩ data]
  program := saveAll [Save.ofBytes ⟨"note", "/home", "note"⟩ data]
  handles := []
  plan _ := { suffix }

/-- Two commands, where the first one has made its temporary file. -/
def twoNotes : Pool (Writer (List Save) Path Exc) (FileMap Path) :=
  Pool.advance (writers saveAll) ⟨[noteWriter [1] 0, noteWriter [2] 1], fun _ => none⟩ 0
    (noteWriter [1] 0)

theorem twoNotes_reached :
    ∃ es, Runs (Pool.Step (writers saveAll)) ⟨[], fun _ => none⟩ es twoNotes := by
  have hfirst : (writers saveAll).Fresh (noteWriter [1] 0) := rfl
  have hsecond : (writers saveAll).Fresh (noteWriter [2] 1) := rfl
  have hunfinished : ¬(writers saveAll).Finished (noteWriter [1] 0) := by
    rintro ⟨r, hr⟩
    cases hr
  exact ⟨_, Runs.cons (Pool.Step.spawn hfirst) (Runs.cons (Pool.Step.spawn hsecond)
    (Runs.cons (Pool.Step.run rfl hunfinished) Runs.nil))⟩

/-- The files when the second command has run to its end, and the first one after it. -/
theorem twoNotes_ended : ∃ es pool, Runs (Pool.Step (writers saveAll)) ⟨[], fun _ => none⟩ es pool ∧
    pool.shared ⟨"/home", .given "note"⟩ = some [1] := by
  obtain ⟨es, hstart⟩ := twoNotes_reached
  have hsecond : twoNotes.threads[1]? = some (noteWriter [2] 1) := rfl
  obtain ⟨n, p₁, hruns₁, hshared₁, -, hothers⟩ :=
    @Pool.ends_alone _ _ _ twoNotes saveAll 1 _ hsecond
  have hfirst : p₁.threads[0]? = some ((writers saveAll).next (noteWriter [1] 0) fun _ => none).1 :=
    hothers 0 (by decide)
  obtain ⟨m, p₂, hruns₂, hshared₂, -⟩ := @Pool.ends_alone _ _ _ p₁ saveAll 0 _ hfirst
  refine ⟨_, p₂, hstart.append (hruns₁.append hruns₂), ?_⟩
  rw [hshared₂, hshared₁]
  decide +kernel

theorem concurrentSaves_linearize_notes : ∃ log pool, SavedInOrder (fun _ => none) log pool ∧
    pool.shared ⟨"/home", .given "note"⟩ = some [1] := by
  obtain ⟨es, pool, hruns, hnote⟩ := twoNotes_ended
  obtain ⟨⟨log, hsaved, -⟩, -⟩ := concurrentSaves_linearize hruns
  exact ⟨log, pool, hsaved, hnote⟩

end CryptoFlex
