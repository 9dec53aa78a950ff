import CryptoFlex.Streaming.FileObjects

namespace CryptoFlex

open Lib

variable {H : Type}

/-- The package's state, the disk, what the coming reads of a stream raise, and the descriptors in
the order in which they were closed. -/
structure Host where
  rt : Runtime
  disk : Files
  reads : Nat → Option Exc
  closed : List Nat := []

namespace Host

def onRuntime {α : Type} (x : Eff Exc Runtime α) : Eff Exc Host α :=
  Eff.zoom (·.rt) (fun rt s => { s with rt }) x

def onDisk {α : Type} (x : Eff Exc Files α) : Eff Exc Host α :=
  Eff.zoom (·.disk) (fun disk s => { s with disk }) x

/-- `os.close(fd)`, or the close of the file object over `fd`. -/
def close (fd : Nat) : Eff Exc Host Unit := do
  Eff.modify fun s => { s with closed := s.closed ++ [fd] }
  onDisk (Disk.close fd)

/-- A stream function from the open file `fin` to the open file `fout`. -/
def onStreams (fin fout : Nat) (x : Eff Exc (World FileInput FileObject) Unit) :
    Eff Exc Host Unit := do
  let input ← onDisk (Disk.handle osErrors fin)
  ⟨fun s =>
    let rest := (s.disk.files input.path).getD []
    let (r, w) := x.run (World.start s.rt { rest, reads := s.reads } { disk := s.disk, fd := fout })
    (r, { s with rt := w.rt, disk := w.sink.disk, reads := w.reader.stream.reads })⟩

def interrupt (k : Nat) (e : Exc) (s : Host) : Host := { s with disk := s.disk.interrupt k e }

end Host

open Host

/-- The check that input and output are not one file. -/
def refuseSameFile (inputPath outputPath : Destination) : Eff Exc Host Unit := do
  let s ← Eff.get
  if (s.disk.files inputPath.path).isSome && (s.disk.files outputPath.path).isSome then
    -- os.path.samefile
    onDisk Disk.call
    if inputPath.path = outputPath.path then
      Eff.raise (.valueError
        s!"input and output paths resolve to the same file: '{inputPath.given}'")

/-- `with os.fdopen(fd, "wb") as fout:` around the chunked migration. -/
def fillChunks (env : Env H) (privateHandles : List H) (newBundle : PublicBundle)
    (minProfile : Option PyStr) (fin fd : Nat) : Eff Exc Host Unit := do
  -- os.fdopen
  onDisk Disk.call
  Eff.tryFinally (do
    onStreams fin fd (migrateStream env privateHandles newBundle minProfile)
    onDisk (Disk.flush osErrors fd)
    -- os.fsync
    onDisk (tolerating Disk.call))
    (close fd)

/-- `with open(temp_path, "wb") as fout:` around the write. -/
def fillBlob (tempPath : Path) (migrated : Bytes) : Eff Exc Host Unit := do
  let fout ← onDisk (Disk.openWrite tempPath)
  Eff.tryFinally (do
    onDisk (Disk.write osErrors fout migrated)
    onDisk (Disk.flush osErrors fout)
    -- os.fsync
    onDisk (tolerating Disk.call))
    (close fout)

/-- `with open(input_path, "rb") as fin:`. -/
def withInput {α : Type} (inputPath : Destination) (body : Nat → Eff Exc Host α) :
    Eff Exc Host α := do
  let fin ← onDisk (Disk.openRead osErrors inputPath.path)
  Eff.tryFinally (body fin) (close fin)

/-- The branch for `stream=True`. -/
def migrateChunks (env : Env H) (privateHandles : List H) (inputPath : Destination)
    (newBundle : PublicBundle) (minProfile : Option PyStr) (fd : Nat) : Eff Exc Host Unit :=
  withInput inputPath fun fin => fillChunks env privateHandles newBundle minProfile fin fd

/-- The branch for `stream=False`. -/
def migrateBlob (env : Env H) (privateHandles : List H) (inputPath : Destination)
    (newBundle : PublicBundle) (minProfile : Option PyStr) (fd : Nat) (tempPath : Path) :
    Eff Exc Host Unit := do
  close fd
  let blob ← withInput inputPath fun fin => onDisk (Disk.read osErrors fin)
  let migrated ← onRuntime (migrate env privateHandles blob newBundle minProfile)
  fillBlob tempPath migrated

/-- The new content goes to the temporary file. -/
def migrateInto (env : Env H) (privateHandles : List H) (inputPath : Destination)
    (newBundle : PublicBundle) (minProfile : Option PyStr) (stream : Bool) (fd : Nat)
    (tempPath : Path) : Eff Exc Host Unit :=
  if stream then migrateChunks env privateHandles inputPath newBundle minProfile fd
  else migrateBlob env privateHandles inputPath newBundle minProfile fd tempPath

def migrateFile (env : Env H) (privateHandles : List H) (inputPath outputPath : Destination)
    (newBundle : PublicBundle) (minProfile : Option PyStr := none) (stream : Bool := false) :
    Eff Exc Host Unit := do
  refuseSameFile inputPath outputPath
  let (fd, tempPath) ← onDisk (Disk.mkstemp osErrors outputPath.temp)
  -- os.chmod
  onDisk (tolerating Disk.call)
  Eff.tryCatch (do
    migrateInto env privateHandles inputPath newBundle minProfile stream fd tempPath
    onDisk (Disk.replace osErrors tempPath outputPath.path)) fun e => do
    onDisk (discard tempPath)
    Eff.raise e

namespace Host

theorem onDisk_ok {α : Type} {x : Eff Exc Files α} {s s' : Host} {a : α} :
    (onDisk x).run s = (.ok a, s') ↔ ∃ d, x.run s.disk = (.ok a, d) ∧ s' = { s with disk := d } := by
  constructor
  · intro h
    rw [onDisk, Eff.run_zoom] at h
    obtain ⟨hr, hs⟩ := Prod.mk.inj h
    exact ⟨_, Prod.ext hr rfl, hs.symm⟩
  · rintro ⟨d, h, rfl⟩
    rw [onDisk, Eff.run_zoom, h]

theorem onDisk_post {α : Type} {x : Eff Exc Files α} {s : Host} {Q : Except Exc α → Host → Prop}
    (h : Eff.Post x s.disk fun r d => Q r { s with disk := d }) : Eff.Post (onDisk x) s Q := h

theorem close_run (fd : Nat) (s : Host) : (close fd).run s =
    (((Disk.close fd).run s.disk).1, { s with
      closed := s.closed ++ [fd]
      disk := ((Disk.close fd).run s.disk).2 }) := rfl

theorem close_ok {fd : Nat} {s s' : Host} (h : (close fd).run s = (.ok (), s')) :
    (Disk.close fd).run s.disk = (.ok (), s'.disk) := by
  rw [close_run] at h
  obtain ⟨hr, rfl⟩ := Prod.mk.inj h
  exact Prod.ext hr rfl

/-- The state after a call that did nothing. -/
def later (s : Host) : Host := { s with disk := { s.disk with plan := Disk.after s.disk.plan 1 } }

/-- The state after the file `path` was opened for reading. -/
def reading (s : Host) (path : Path) : Host :=
  { s with disk := { s.disk with
    handles := s.disk.handles ++ [some { path }]
    plan := Disk.after s.disk.plan 1 } }

/-- The state after a descriptor with nothing buffered was closed. -/
def shut (s : Host) (fd : Nat) : Host :=
  { s with
    closed := s.closed ++ [fd]
    disk := { s.disk with
      handles := s.disk.handles.set fd none
      plan := Disk.after s.disk.plan 1 } }

theorem close_unbuffered {fd : Nat} {path : Path} {s : Host}
    (hfd : s.disk.handles[fd]? = some (some { path })) :
    (close fd).run s = ((s.disk.plan 0).result, s.shut fd) := by
  rw [close_run, Disk.close_unbuffered hfd]
  rfl

/-- The frame of who was given the open file `fd`. -/
def Confined (fd : Nat) (temp : Path) (s s' : Host) : Prop := Disk.Confined fd temp s.disk s'.disk

namespace Confined

variable {fd : Nat} {temp : Path}

theorem trans (s s' s'' : Host) (h : Confined fd temp s s') (h' : Confined fd temp s' s'') :
    Confined fd temp s s'' := Disk.Confined.trans _ _ _ h h'

theorem onDisk {α : Type} {x : Eff Exc Files α} (hx : Eff.Keeps (Disk.Confined fd temp) x) :
    Eff.Keeps (Confined fd temp) (onDisk x) := fun s => hx s.disk

theorem close : Eff.Keeps (Confined fd temp) (close fd) := fun s => Disk.Confined.close s.disk

/-- The last steps before the close. -/
theorem finish : Eff.Keeps (Confined fd temp) (do
    Host.onDisk (Disk.flush osErrors fd)
    Host.onDisk (tolerating Disk.call)) := by
  apply Eff.Keeps.bind trans (onDisk (Disk.Confined.flush osErrors))
  intro _
  exact onDisk (Disk.Confined.tolerating Disk.Confined.call)

end Confined

/-- The state in which a stream function starts. -/
def streams (s : Host) (input : Path) (fout : Nat) : World FileInput FileObject :=
  World.start s.rt { rest := (s.disk.files input).getD [], reads := s.reads }
    { disk := s.disk, fd := fout }

theorem onStreams_run {fin fout : Nat} {input : Path} {s : Host}
    (hfin : s.disk.handles[fin]? = some (some { path := input }))
    (x : Eff Exc (World FileInput FileObject) Unit) :
    (onStreams fin fout x).run s = ((x.run (s.streams input fout)).1, { s with
      rt := (x.run (s.streams input fout)).2.rt
      disk := (x.run (s.streams input fout)).2.sink.disk
      reads := (x.run (s.streams input fout)).2.reader.stream.reads }) := by
  have hhandle := Disk.handle_open osErrors hfin
  unfold onStreams
  rw [Eff.bind_ok (Host.onDisk_ok.mpr ⟨_, hhandle, rfl⟩)]
  rfl

end Host

/-- Input and output exist, so that the check compares them, which takes a call. -/
def bothExist (inputPath outputPath : Destination) (s : Host) : Bool :=
  (s.disk.files inputPath.path).isSome && (s.disk.files outputPath.path).isSome

def checkCalls (inputPath outputPath : Destination) (s : Host) : Nat :=
  if bothExist inputPath outputPath s then 1 else 0

/-- The check goes through. -/
def Unaliased (inputPath outputPath : Destination) (s : Host) : Prop :=
  bothExist inputPath outputPath s = true →
    (s.disk.plan 0).raised = none ∧ inputPath.path ≠ outputPath.path

/-- One path for both passes the check when there is no such file. -/
theorem Unaliased.missing {inputPath outputPath : Destination} {s : Host}
    (h : Unaliased inputPath outputPath s) (heq : inputPath.path = outputPath.path) :
    s.disk.files inputPath.path = none := by
  by_contra hfile
  obtain ⟨blob, hblob⟩ := Option.ne_none_iff_exists'.mp hfile
  have hboth : bothExist inputPath outputPath s = true := by
    rw [bothExist, ← heq, hblob]
    rfl
  exact (h hboth).2 heq

theorem refuseSameFile_post (inputPath outputPath : Destination) (s : Host) :
    Eff.Post (refuseSameFile inputPath outputPath) s fun r s₁ =>
      s₁ = { s with disk := { s.disk with
        plan := Disk.after s.disk.plan (checkCalls inputPath outputPath s) } } ∧
      (r = .ok () ↔ Unaliased inputPath outputPath s) := by
  have hcond : refuseSameFile inputPath outputPath = (do
      let s ← Eff.get
      if bothExist inputPath outputPath s then
        onDisk Disk.call
        if inputPath.path = outputPath.path then
          Eff.raise (.valueError
            s!"input and output paths resolve to the same file: '{inputPath.given}'")) := rfl
  unfold Eff.Post
  rw [hcond, Eff.run_get_bind]
  unfold checkCalls Unaliased
  cases hboth : bothExist inputPath outputPath s with
  | false =>
    rw [if_neg Bool.false_ne_true, if_neg Bool.false_ne_true, Disk.after_zero]
    exact ⟨rfl, fun _ => nofun, fun _ => rfl⟩
  | true =>
  rw [if_pos rfl, if_pos rfl]
  cases hr : (s.disk.plan 0).raised with
  | some e =>
    have hcall : (onDisk Disk.call).run s = (.error e, s.later) := by
      rw [onDisk, Eff.run_zoom, Disk.call_run, Outcome.result_of_some hr]
      rfl
    rw [Eff.bind_error hcall]
    exact ⟨rfl, nofun, fun h => nomatch (h rfl).1⟩
  | none =>
    have hcall : (onDisk Disk.call).run s = (.ok (), s.later) := by
      rw [onDisk, Eff.run_zoom, Disk.call_run, Outcome.result_of_none hr]
      rfl
    rw [Eff.bind_ok hcall]
    by_cases heq : inputPath.path = outputPath.path
    · rw [if_pos heq]
      exact ⟨rfl, nofun, fun h => absurd heq (h rfl).2⟩
    · rw [if_neg heq]
      exact ⟨rfl, fun _ _ => ⟨rfl, heq⟩, fun _ => rfl⟩

section Branches

variable (env : Env H) (privateHandles : List H) (newBundle : PublicBundle)
  (minProfile : Option PyStr)

theorem onStreams_confined {fin fd : Nat} {input temp : Path} {s : Host}
    (hfin : s.disk.handles[fin]? = some (some { path := input })) :
    Eff.Post (onStreams fin fd (migrateStream env privateHandles newBundle minProfile)) s
      fun _ s' => Host.Confined fd temp s s' := by
  apply Eff.Post.of_eq (onStreams_run hfin _)
  exact ((FillsFile.outputFrame temp).migrateStream env privateHandles newBundle minProfile
    (s.streams input fd)).2.1

/-- When `migrate_stream` returns, the file object has what it wrote. -/
theorem onStreams_returned {fin fd : Nat} {input temp : Path} {s s' : Host}
    (hfin : s.disk.handles[fin]? = some (some { path := input })) (h : s.disk.Drafts fd temp [])
    (hrun : (onStreams fin fd (migrateStream env privateHandles newBundle minProfile)).run s =
      (.ok (), s')) :
    ∃ w, (migrateStream env privateHandles newBundle minProfile).run (s.streams input fd) =
      (.ok (), w) ∧ s'.disk.Drafts fd temp w.out := by
  rw [onStreams_run hfin] at hrun
  obtain ⟨hok, rfl⟩ := Prod.mk.inj hrun
  have hfills := ((FillsFile.outputFrame temp).migrateStream env privateHandles newBundle
    minProfile (s.streams input fd)).2.2 [] h
  exact ⟨_, Prod.ext hok rfl, hfills⟩

/-- The new content that a call means to put in place. -/
def MigratedContent (inputPath : Destination) (stream : Bool) (s : Host) (content : Bytes) : Prop :=
  ∃ blob, s.disk.files inputPath.path = some blob ∧
    if stream then
      ∃ sink w, (migrateStream env privateHandles newBundle minProfile).run
          (World.start s.rt { rest := blob, reads := s.reads } sink) = (.ok (), w) ∧
        (w : World FileInput FileObject).out = content
    else ∃ rt, (migrate env privateHandles blob newBundle minProfile).run s.rt = (.ok content, rt)

variable {env privateHandles newBundle minProfile} in
/-- Only the state that the migration uses matters. -/
theorem MigratedContent.of_same {inputPath : Destination} {stream : Bool} {s s' : Host}
    {content : Bytes} (hrt : s'.rt = s.rt) (hreads : s'.reads = s.reads)
    (hfile : s'.disk.files inputPath.path = s.disk.files inputPath.path)
    (h : MigratedContent env privateHandles newBundle minProfile inputPath stream s' content) :
    MigratedContent env privateHandles newBundle minProfile inputPath stream s content := by
  unfold MigratedContent at h ⊢
  rw [hrt, hreads, hfile] at h
  exact h

/-- What a branch leaves when it started with the new file `temp`. -/
def BranchEnd (inputPath : Destination) (stream : Bool) (temp : Path) (s : Host)
    (r : Except Exc Unit) (s' : Host) : Prop :=
  Disk.OnlyTouches temp s.disk s'.disk ∧ (s'.disk.files temp).isSome ∧
    (r = .ok () → ∃ content,
      MigratedContent env privateHandles newBundle minProfile inputPath stream s content ∧
        s'.disk.files temp = some content)

/-- The input is open for the body, and closed again behind it. -/
theorem withInput_post {α : Type} {inputPath : Destination} {body : Nat → Eff Exc Host α}
    {s : Host} {Q : Except Exc α → Host → Prop}
    (hmissing : ∀ e, Q (.error e) s.later)
    (hbody : (s.disk.files inputPath.path).isSome →
      Eff.Post (body s.disk.handles.length) (s.reading inputPath.path) fun r s' =>
        s'.disk.handles[s.disk.handles.length]? = some (some { path := inputPath.path }) ∧
        (∀ e, Q (.error e) (s'.shut s.disk.handles.length)) ∧ Q r (s'.shut s.disk.handles.length)) :
    Eff.Post (withInput inputPath body) s Q := by
  unfold withInput
  apply Eff.Post.bind
  apply onDisk_post
  apply (Disk.openRead_post osErrors s.disk inputPath.path).mono
  rintro (e | fin) d₁ h₁
  · rw [h₁.2]
    exact hmissing e
  obtain ⟨rfl, -, hinput, rfl⟩ := h₁
  apply Eff.Post.tryFinally
  apply (hbody hinput).mono
  rintro r s' ⟨hfin, herror, hr⟩
  apply Eff.Post.of_eq (close_unbuffered hfin)
  unfold Outcome.result
  cases (s'.disk.plan 0).raised with
  | none => exact hr
  | some e => exact herror e

/-- The frame of who was given the open file `fd` beside the input `fin`. -/
def Beside (fin : Nat) (input : Path) (fd : Nat) (temp : Path) (s s' : Host) : Prop :=
  s.disk.handles[fin]? = some (some { path := input }) → s.disk.Owns fd temp →
    s'.disk.handles[fin]? = some (some { path := input }) ∧ s'.disk.Owns fd temp ∧
      Disk.OnlyTouches temp s.disk s'.disk

namespace Beside

variable {fin fd : Nat} {input temp : Path}

theorem trans (s s' s'' : Host) (h : Beside fin input fd temp s s')
    (h' : Beside fin input fd temp s' s'') : Beside fin input fd temp s s'' := by
  intro hfin howns
  obtain ⟨hfin', howns', htouch⟩ := h hfin howns
  obtain ⟨hfin'', howns'', htouch'⟩ := h' hfin' howns'
  exact ⟨hfin'', howns'', Disk.OnlyTouches.trans _ _ _ htouch htouch'⟩

theorem of_confined (hne : fd ≠ fin) (s s' : Host) (h : Host.Confined fd temp s s') :
    Beside fin input fd temp s s' := by
  intro hfin howns
  obtain ⟨howns', htouch, handle, hhandles⟩ := h howns
  refine ⟨?_, howns', htouch⟩
  rw [hhandles, List.getElem?_set_ne hne]
  exact hfin

theorem fillChunks (hne : fd ≠ fin) : Eff.Keeps (Beside fin input fd temp)
    (fillChunks env privateHandles newBundle minProfile fin fd) := by
  apply Eff.Keeps.bind trans
    ((Host.Confined.onDisk Disk.Confined.call).mono (of_confined hne))
  intro _
  apply Eff.Keeps.tryFinally trans
  · apply Eff.Keeps.bind trans
    · intro s hfin
      exact of_confined hne _ _
        (onStreams_confined env privateHandles newBundle minProfile hfin) hfin
    intro _
    exact Host.Confined.finish.mono (of_confined hne)
  · exact Host.Confined.close.mono (of_confined hne)

end Beside

/-- The temporary file that the chunked migration leaves when it returns. -/
theorem fillChunks_returned {fin fd : Nat} {input temp : Path} {s s' : Host}
    (hfin : s.disk.handles[fin]? = some (some { path := input })) (h : s.disk.Drafts fd temp [])
    (hrun : (fillChunks env privateHandles newBundle minProfile fin fd).run s = (.ok (), s')) :
    ∃ sink w, (migrateStream env privateHandles newBundle minProfile).run
        (World.start s.rt { rest := (s.disk.files input).getD [], reads := s.reads } sink) =
          (.ok (), w) ∧
      s'.disk.files temp = some (w : World FileInput FileObject).out := by
  obtain ⟨_, s₁, hopen, hwith⟩ := Eff.bind_eq_ok.mp hrun
  obtain ⟨d₁, hcall, rfl⟩ := Host.onDisk_ok.mp hopen
  have hd₁ := (Prod.mk.inj hcall).2
  subst hd₁
  obtain ⟨s₃, hbody, hclose⟩ := Eff.tryFinally_eq_ok.mp hwith
  obtain ⟨_, s₂, hstream, hrest⟩ := Eff.bind_eq_ok.mp hbody
  have hfin₁ : s.later.disk.handles[fin]? = some (some { path := input }) := hfin
  have hdrafts₁ : s.later.disk.Drafts fd temp [] := h
  obtain ⟨w, hw, hdrafts⟩ :=
    onStreams_returned env privateHandles newBundle minProfile hfin₁ hdrafts₁ hstream
  obtain ⟨_, s₄, hflush, hsync⟩ := Eff.bind_eq_ok.mp hrest
  obtain ⟨d₂, hflush', rfl⟩ := Host.onDisk_ok.mp hflush
  obtain ⟨d₃, hsync', rfl⟩ := Host.onDisk_ok.mp hsync
  exact ⟨_, w, hw, finish_returned hdrafts hflush' hsync' (close_ok hclose)⟩

theorem migrateChunks_end {inputPath : Destination} {fd : Nat} {temp : Path} {s : Host}
    (h : s.disk.Drafts fd temp []) :
    Eff.Post (migrateChunks env privateHandles inputPath newBundle minProfile fd) s
      (BranchEnd env privateHandles newBundle minProfile inputPath true temp s) := by
  have hlt : fd < s.disk.handles.length := by
    obtain ⟨_, _, -, hfd, -⟩ := h
    exact (List.getElem?_eq_some_iff.mp hfd).1
  apply withInput_post
  · intro e
    exact ⟨Disk.OnlyTouches.refl _, h.owns.1, nofun⟩
  intro hinput
  obtain ⟨blob, hblob⟩ := Option.isSome_iff_exists.mp hinput
  have hfin : (s.reading inputPath.path).disk.handles[s.disk.handles.length]? =
      some (some { path := inputPath.path }) := by
    simp [reading]
  have hdrafts : (s.reading inputPath.path).disk.Drafts fd temp [] :=
    h.of_eq rfl (List.getElem?_append_left hlt)
  have hkeeps : Eff.Keeps (Beside s.disk.handles.length inputPath.path fd temp)
      (fillChunks env privateHandles newBundle minProfile s.disk.handles.length fd) :=
    Beside.fillChunks env privateHandles newBundle minProfile hlt.ne
  rcases hrun : (fillChunks env privateHandles newBundle minProfile s.disk.handles.length fd).run
    (s.reading inputPath.path) with ⟨r, s'⟩
  obtain ⟨hfin', howns, htouch⟩ := hkeeps.of_eq hrun hfin hdrafts.owns
  apply Eff.Post.of_eq hrun
  refine ⟨hfin', ?_, ?_⟩
  · intro e
    exact ⟨htouch, howns.1, nofun⟩
  · refine ⟨htouch, howns.1, ?_⟩
    rintro rfl
    obtain ⟨sink, w, hw, hfile⟩ :=
      fillChunks_returned env privateHandles newBundle minProfile hfin hdrafts hrun
    have hrest : ((s.reading inputPath.path).disk.files inputPath.path).getD [] = blob := by
      change (s.disk.files inputPath.path).getD [] = blob
      rw [hblob]
      rfl
    rw [hrest] at hw
    exact ⟨w.out, ⟨blob, hblob, sink, w, hw, rfl⟩, hfile⟩

/-- The write that creates the temporary file's content anew. -/
theorem fillBlob_end {temp : Path} {migrated : Bytes} {s : Host}
    (hfile : (s.disk.files temp).isSome) :
    Eff.Post (fillBlob temp migrated) s fun r s' => Disk.OnlyTouches temp s.disk s'.disk ∧
      (s'.disk.files temp).isSome ∧ (r = .ok () → s'.disk.files temp = some migrated) := by
  unfold fillBlob
  apply Eff.Post.bind
  apply onDisk_post
  apply (Disk.openWrite_post s.disk temp).mono
  rintro (e | fout) d₁ h₁
  · rw [h₁]
    exact ⟨Disk.OnlyTouches.refl _, hfile, nofun⟩
  obtain ⟨rfl, hd₁⟩ := h₁
  have hdrafts : d₁.Drafts s.disk.handles.length temp [] := by
    rw [hd₁]
    refine ⟨[], [], ?_, ?_, rfl⟩
    · simp
    · simp
  have htouch₁ : Disk.OnlyTouches temp s.disk d₁ := by
    rw [hd₁]
    exact Disk.OnlyTouches.of_update rfl
  have hkeeps : Eff.Keeps (Host.Confined s.disk.handles.length temp) (Eff.tryFinally (do
      onDisk (Disk.write osErrors s.disk.handles.length migrated)
      onDisk (Disk.flush osErrors s.disk.handles.length)
      onDisk (tolerating Disk.call)) (close s.disk.handles.length)) := by
    apply Eff.Keeps.tryFinally Host.Confined.trans
    · apply Eff.Keeps.bind Host.Confined.trans
        (Host.Confined.onDisk (Disk.Confined.write osErrors migrated))
      intro _
      exact Host.Confined.finish
    · exact Host.Confined.close
  rcases hrun : (Eff.tryFinally (do
      onDisk (Disk.write osErrors s.disk.handles.length migrated)
      onDisk (Disk.flush osErrors s.disk.handles.length)
      onDisk (tolerating Disk.call)) (close s.disk.handles.length)).run { s with disk := d₁ }
    with ⟨r, s'⟩
  obtain ⟨howns, htouch, -⟩ := hkeeps.of_eq hrun hdrafts.owns
  apply Eff.Post.of_eq hrun
  refine ⟨Disk.OnlyTouches.trans _ _ _ htouch₁ htouch, howns.1, ?_⟩
  rintro rfl
  obtain ⟨s₃, hbody, hclose⟩ := Eff.tryFinally_eq_ok.mp hrun
  obtain ⟨_, s₂, hwrite, hrest⟩ := Eff.bind_eq_ok.mp hbody
  obtain ⟨d₂, hwrite', rfl⟩ := Host.onDisk_ok.mp hwrite
  obtain ⟨_, s₄, hflush, hsync⟩ := Eff.bind_eq_ok.mp hrest
  obtain ⟨d₄, hflush', rfl⟩ := Host.onDisk_ok.mp hflush
  obtain ⟨d₃, hsync', rfl⟩ := Host.onDisk_ok.mp hsync
  have hwritten : d₂.Drafts s.disk.handles.length temp ([] ++ migrated) :=
    (hdrafts.write osErrors migrated).elim hwrite'
  exact finish_returned hwritten hflush' hsync' (close_ok hclose)

/-- Reading the whole input changes no file. -/
theorem readInput_post (inputPath : Destination) (s : Host) :
    Eff.Post (withInput inputPath fun fin => onDisk (Disk.read osErrors fin)) s fun r s' =>
      s'.rt = s.rt ∧ s'.disk.files = s.disk.files ∧
        ∀ blob, r = .ok blob → s.disk.files inputPath.path = some blob := by
  apply withInput_post
  · intro e
    exact ⟨rfl, rfl, nofun⟩
  intro hinput
  have hfin : (s.reading inputPath.path).disk.handles[s.disk.handles.length]? =
      some (some { path := inputPath.path }) := by
    simp [reading]
  apply onDisk_post
  apply (Disk.read_post osErrors hfin).mono
  rintro r d ⟨rfl, hblob⟩
  refine ⟨hfin, ?_, rfl, rfl, hblob⟩
  intro e
  exact ⟨rfl, rfl, nofun⟩

theorem migrateBlob_end {inputPath : Destination} {fd : Nat} {temp : Path} {s : Host}
    (hfd : s.disk.handles[fd]? = some (some { path := temp }))
    (hfile : (s.disk.files temp).isSome) :
    Eff.Post (migrateBlob env privateHandles inputPath newBundle minProfile fd temp) s
      (BranchEnd env privateHandles newBundle minProfile inputPath false temp s) := by
  have hsame : ∀ (e : Exc) (s' : Host), s'.disk.files = s.disk.files →
      BranchEnd env privateHandles newBundle minProfile inputPath false temp s (.error e) s' := by
    intro e s' hfiles
    refine ⟨fun q _ => congrFun hfiles q, ?_, nofun⟩
    rw [hfiles]
    exact hfile
  unfold migrateBlob
  apply Eff.Post.bind
  apply Eff.Post.of_eq (close_unbuffered hfd)
  unfold Outcome.result
  cases (s.disk.plan 0).raised with
  | some e => exact hsame e _ rfl
  | none =>
  dsimp only
  apply Eff.Post.bind
  apply (readInput_post inputPath (s.shut fd)).mono
  rintro (e | blob) s₁ ⟨hrt, hfiles, hread⟩
  · exact hsame e _ hfiles
  have hblob : s.disk.files inputPath.path = some blob := hread blob rfl
  have hfiles₁ : s₁.disk.files = s.disk.files := hfiles
  dsimp only
  apply Eff.Post.bind
  rcases hmigrate : (migrate env privateHandles blob newBundle minProfile).run s₁.rt with ⟨r, rt'⟩
  have hrun : (Host.onRuntime (migrate env privateHandles blob newBundle minProfile)).run s₁ =
      (r, { s₁ with rt := rt' }) := by
    rw [Host.onRuntime, Eff.run_zoom, hmigrate]
  apply Eff.Post.of_eq hrun
  cases r with
  | error e => exact hsame e _ hfiles₁
  | ok migrated =>
  dsimp only
  have hfile₁ : (({ s₁ with rt := rt' } : Host).disk.files temp).isSome := by
    rw [hfiles₁]
    exact hfile
  apply (fillBlob_end hfile₁).mono
  rintro r s' ⟨htouch, hsome, hdone⟩
  refine ⟨?_, hsome, ?_⟩
  · intro q hq
    rw [htouch q hq]
    exact congrFun hfiles₁ q
  · intro hr
    rw [hrt] at hmigrate
    exact ⟨migrated, ⟨blob, hblob, rt', hmigrate⟩, hdone hr⟩

theorem migrateInto_end {inputPath : Destination} (stream : Bool) {fd : Nat} {temp : Path}
    {s : Host} (hfd : s.disk.handles[fd]? = some (some { path := temp }))
    (hfile : s.disk.files temp = some []) :
    Eff.Post (migrateInto env privateHandles inputPath newBundle minProfile stream fd temp) s
      (BranchEnd env privateHandles newBundle minProfile inputPath stream temp s) := by
  cases stream with
  | true =>
    exact migrateChunks_end env privateHandles newBundle minProfile ⟨[], [], hfile, hfd, rfl⟩
  | false =>
    exact migrateBlob_end env privateHandles newBundle minProfile hfd (by rw [hfile]; rfl)

end Branches

end CryptoFlex
