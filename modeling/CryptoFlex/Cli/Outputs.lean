import CryptoFlex.Api.AtomicFiles
import CryptoFlex.Cli.Commands
import CryptoFlex.Streaming.Faults

namespace CryptoFlex

open Lib

variable {H : Type}

namespace Host

theorem onDisk_bind {α β : Type} (x : Eff Exc Files α) (f : α → Eff Exc Files β) :
    onDisk (x >>= f) = onDisk x >>= fun a => onDisk (f a) := by
  apply Eff.zoom_bind
  · intro d s
    rfl
  · intro d d' s
    rfl

theorem onDisk_tryCatch (x : Eff Exc Files Unit) (k : Exc → Eff Exc Files Unit) :
    onDisk (Eff.tryCatch x k) = Eff.tryCatch (onDisk x) fun e => onDisk (k e) := by
  apply Eff.zoom_tryCatch
  · intro d s
    rfl
  · intro d d' s
    rfl

theorem onDisk_tryFinally (x fin : Eff Exc Files Unit) :
    onDisk (Eff.tryFinally x fin) = Eff.tryFinally (onDisk x) (onDisk fin) := by
  apply Eff.zoom_tryFinally
  · intro d s
    rfl
  · intro d d' s
    rfl

/-- For a callback that works on the disk only, it is the function of that name there. -/
theorem atomicStreamWrite_onDisk (destPath : Destination) (writeFn : Nat → Eff Exc Files Unit) :
    atomicStreamWrite destPath (fun fd => onDisk (writeFn fd)) =
      onDisk (CryptoFlex.atomicStreamWrite destPath writeFn) := by
  have hraise : ∀ e : Exc, onDisk (Eff.raise e : Eff Exc Files Unit) = Eff.raise e := by
    intro e
    rfl
  have hpure : ∀ x : Eff Exc Files Unit, (x >>= fun _ => pure ()) = x := Eff.bind_pure
  simp only [atomicStreamWrite, CryptoFlex.atomicStreamWrite, atomicWrite, writeTemp,
    CryptoFlex.writeTemp, onDisk_bind, onDisk_tryCatch, onDisk_tryFinally, hraise, hpure]

end Host

/-- A stream function from bytes to bytes. -/
def inMemory (y : Eff Exc (World MemoryStream BytesSink) Unit) (input : Bytes) :
    Eff Exc Runtime Bytes := ⟨fun rt =>
  let (r, w) := y.run (World.start rt (MemoryStream.mk input) BytesSink.mk)
  (r.map fun _ => w.out, w.rt)⟩

theorem inMemory_eq_ok {y : Eff Exc (World MemoryStream BytesSink) Unit} {input content : Bytes}
    {rt rt' : Runtime} : (inMemory y input).run rt = (.ok content, rt') ↔
      ∃ w, y.run (World.start rt (MemoryStream.mk input) BytesSink.mk) = (.ok (), w) ∧
        w.out = content ∧ w.rt = rt' := by
  rcases hrun : y.run (World.start rt (MemoryStream.mk input) BytesSink.mk) with ⟨r, w⟩
  have hmemory : (inMemory y input).run rt = (r.map fun _ => w.out, w.rt) := by
    simp only [inMemory, hrun]
  rw [hmemory]
  cases r with
  | error e =>
    constructor
    · intro h
      cases h
    · rintro ⟨w', h, -, -⟩
      cases h
  | ok _ =>
    constructor
    · intro h
      cases h
      exact ⟨w, rfl, rfl, rfl⟩
    · rintro ⟨w', h, rfl, rfl⟩
      cases h
      rfl

/-- A stream function that does nothing to the disk but fill its output file, and nothing in memory
that it does not do with files. -/
structure FileStream (x : Eff Exc (World FileInput FileObject) Unit)
    (y : Eff Exc (World MemoryStream BytesSink) Unit) : Prop where
  fills : ∀ temp, Eff.Keeps (FillsFile temp) x
  same : SameInMemory x y

theorem encryptStream_fileStream (env : Env H) (bundle : PublicBundle) (chunkSize : Int) :
    FileStream (encryptStream env bundle chunkSize) (encryptStream env bundle chunkSize) :=
  ⟨fun temp => (FillsFile.outputFrame temp).encryptStream env bundle chunkSize,
    SameInMemory.of_mirrored (Alike.encryptStream env bundle chunkSize)⟩

theorem decryptStream_fileStream (env : Env H) (handles : List H) (minProfile : Option PyStr) :
    FileStream (decryptStream env handles minProfile) (decryptStream env handles minProfile) :=
  ⟨fun temp => (FillsFile.outputFrame temp).decryptStream env handles minProfile,
    SameInMemory.of_mirrored (Alike.decryptStream env handles minProfile)⟩

theorem migrateStream_fileStream (env : Env H) (handles : List H) (newBundle : PublicBundle)
    (minProfile : Option PyStr) : FileStream (migrateStream env handles newBundle minProfile)
      (migrateStream env handles newBundle minProfile) :=
  ⟨fun temp => (FillsFile.outputFrame temp).migrateStream env handles newBundle minProfile,
    SameInMemory.of_mirrored
      (Alike.migrateStream env handles newBundle minProfile)⟩

/-- How a command with the output `dest` may leave the files: with the whole new content there, or
as they were but for a temporary file; a command that returns has put the content there. -/
inductive OutputEnd (dest : Destination) (complete : Bytes → Prop)
    (files files' : Path → Option Bytes) : Except Exc Unit → Prop
  | saved {content : Bytes} {r : Except Exc Unit} (whole : complete content)
    (new : files' = Function.update files dest.path (some content)) :
    OutputEnd dest complete files files' r
  | kept {e : Exc} (same : files' = files) : OutputEnd dest complete files files' (.error e)
  | leftBehind {e : Exc} {temp : Path} (name : dest.IsTemp temp) (fresh : files temp = none)
    (others : ∀ q, q ≠ temp → files' q = files q) : OutputEnd dest complete files files' (.error e)

namespace OutputEnd

variable {dest : Destination} {complete complete' : Bytes → Prop}
  {files files' files'' : Path → Option Bytes} {r : Except Exc Unit} {e : Exc}

theorem of_replaced {left : Prop}
    (h : Replaced dest.IsTemp dest.path complete left files files' r) :
    OutputEnd dest complete files files' r := by
  cases h with
  | returned whole new => exact saved whole new
  | raised same => exact kept same
  | leftBehind _ name fresh others => exact leftBehind name fresh others

theorem mono (hc : ∀ content, complete content → complete' content)
    (h : OutputEnd dest complete files files' r) : OutputEnd dest complete' files files' r := by
  cases h with
  | saved whole new => exact saved (hc _ whole) new
  | kept same => exact kept same
  | leftBehind name fresh others => exact leftBehind name fresh others

theorem start (hfiles : files'' = files) (h : OutputEnd dest complete files'' files' r) :
    OutputEnd dest complete files files' r := by
  rw [← hfiles]
  exact h

/-- A later step raises. -/
theorem raise (e : Exc) (h : OutputEnd dest complete files files' r) :
    OutputEnd dest complete files files' (.error e) := by
  cases h with
  | saved whole new => exact saved whole new
  | kept same => exact kept same
  | leftBehind name fresh others => exact leftBehind name fresh others

end OutputEnd

namespace Host

section Stream

variable {x : Eff Exc (World FileInput FileObject) Unit}
  {y : Eff Exc (World MemoryStream BytesSink) Unit} {fin fd : Nat} {input temp : Path} {s s' : Host}

theorem onStreams_beside (hx : FileStream x y) (hne : fd ≠ fin) :
    Eff.Keeps (Beside fin input fd temp) (onStreams fin fd x) := by
  intro s hfin
  have hfills := (hx.fills temp (s.streams input fd)).2.1
  rw [onStreams_run hfin]
  exact Beside.of_confined hne _ _ hfills hfin

theorem writeTemp_beside (hx : FileStream x y) (hne : fd ≠ fin) :
    Eff.Keeps (Beside fin input fd temp) (writeTemp fd fun fout => onStreams fin fout x) := by
  apply Eff.Keeps.bind Beside.trans
    ((Host.Confined.onDisk Disk.Confined.call).mono (Beside.of_confined hne))
  intro _
  apply Eff.Keeps.tryFinally Beside.trans
  · apply Eff.Keeps.bind Beside.trans (onStreams_beside hx hne)
    intro _
    exact Host.Confined.finish.mono (Beside.of_confined hne)
  · exact (Host.Confined.onDisk (Disk.Confined.close)).mono (Beside.of_confined hne)

/-- The temporary file of a `with` block that returns. -/
theorem writeTemp_streamed (hx : FileStream x y)
    (hfin : s.disk.handles[fin]? = some (some { path := input })) (h : s.disk.Drafts fd temp [])
    (hrun : (writeTemp fd fun fout => onStreams fin fout x).run s = (.ok (), s')) :
    ∃ content, (∃ rt', (inMemory y ((s.disk.files input).getD [])).run s.rt = (.ok content, rt')) ∧
      s'.disk.files temp = some content := by
  obtain ⟨_, s₁, hopen, hwith⟩ := Eff.bind_eq_ok.mp hrun
  obtain ⟨d₁, hcall, rfl⟩ := Host.onDisk_ok.mp hopen
  have hd₁ := (Prod.mk.inj hcall).2
  subst hd₁
  obtain ⟨s₃, hbody, hclose⟩ := Eff.tryFinally_eq_ok.mp hwith
  obtain ⟨d₅, hclose', rfl⟩ := Host.onDisk_ok.mp hclose
  obtain ⟨_, s₂, hstream, hrest⟩ := Eff.bind_eq_ok.mp hbody
  have hfin₁ : s.later.disk.handles[fin]? = some (some { path := input }) := hfin
  have hdrafts₁ : s.later.disk.Drafts fd temp [] := h
  have hfills := (hx.fills temp (s.later.streams input fd)).2.2 [] hdrafts₁
  change (onStreams fin fd x).run s.later = (.ok (), s₂) at hstream
  rw [onStreams_run hfin₁] at hstream
  obtain ⟨hok, rfl⟩ := Prod.mk.inj hstream
  obtain ⟨w', hmemory, hout, -⟩ := hx.same _ _ _ _ _ (Prod.ext hok rfl)
  obtain ⟨_, s₄, hflush, hsync⟩ := Eff.bind_eq_ok.mp hrest
  obtain ⟨d₂, hflush', rfl⟩ := Host.onDisk_ok.mp hflush
  obtain ⟨d₃, hsync', rfl⟩ := Host.onDisk_ok.mp hsync
  refine ⟨w'.out, ⟨w'.rt, inMemory_eq_ok.mpr ⟨w', hmemory, rfl, rfl⟩⟩, ?_⟩
  rw [hout]
  exact finish_returned hfills hflush' hsync' hclose'

/-- The steps of `_atomic_stream_write` around a stream function. -/
def streamReplacement (outputPath : Destination) (fin : Nat)
    (x : Eff Exc (World FileInput FileObject) Unit) : Replacement Path Exc Host where
  disk := Host.disk
  create := onDisk (Disk.mkstemp osErrors outputPath.temp)
  restrict := onDisk (tolerating Disk.call)
  body fd tempPath := do
    writeTemp fd fun fout => onStreams fin fout x
    onDisk (Disk.replace osErrors tempPath outputPath.path)
  clean tempPath := onDisk (discard tempPath)

theorem atomicStreamWrite_eq (outputPath : Destination) (fin : Nat)
    (x : Eff Exc (World FileInput FileObject) Unit) :
    atomicStreamWrite outputPath (fun fout => onStreams fin fout x) =
      (streamReplacement outputPath fin x).toEff := by
  have hpure : ∀ made : Nat × Path, onDisk (pure made : Eff Exc Files (Nat × Path)) = pure made := by
    intro made
    rfl
  simp only [atomicStreamWrite, makeTempInDir, Replacement.toEff, streamReplacement, onDisk_bind,
    Eff.bind_assoc, hpure, Eff.pure_bind]

/-- What a stream function makes of the input file. -/
def Streamed (y : Eff Exc (World MemoryStream BytesSink) Unit) (inputPath : Destination) (s : Host)
    (content : Bytes) : Prop :=
  ∃ input rt', s.disk.files inputPath.path = some input ∧
    (inMemory y input).run s.rt = (.ok content, rt')

theorem streamReplacement_sound (hx : FileStream x y) {inputPath outputPath : Destination}
    (hfin : s.disk.handles[fin]? = some (some { path := inputPath.path }))
    (hinput : (s.disk.files inputPath.path).isSome) :
    (streamReplacement outputPath fin x).Sound outputPath.IsTemp outputPath.path
      (Streamed y inputPath s) s where
  created := by
    apply onDisk_post
    apply (mkstemp_post outputPath s.disk).mono
    rintro (e | ⟨fd, temp⟩) d₁ hmade
    · rw [hmade]
      rfl
    · obtain ⟨hname, hfresh, -, rfl⟩ := hmade
      refine ⟨hname, hfresh, Disk.OnlyTouches.of_update rfl, ?_⟩
      change (Function.update s.disk.files temp (some []) temp).isSome
      rw [Function.update_self]
      rfl
  restricted := by
    intro s₁
    change ((tolerating Disk.call).run s₁.disk).2.files = s₁.disk.files
    rw [tolerating_call_run]
  filled := by
    rintro ⟨fd, temp⟩ s₁ s₂ hcreate hrestrict
    obtain ⟨d₁, hmkstemp, rfl⟩ := Host.onDisk_ok.mp hcreate
    obtain ⟨d₂, hchmod, rfl⟩ := Host.onDisk_ok.mp hrestrict
    obtain ⟨⟨suffix, hname⟩, hfresh, hfd, hd₂⟩ := made_drafting hmkstemp hchmod
    have hlt : fin < s.disk.handles.length := (List.getElem?_eq_some_iff.mp hfin).1
    have hfin₂ : d₂.handles[fin]? = some (some { path := inputPath.path }) := by
      rw [hd₂]
      exact (List.getElem?_append_left hlt).trans hfin
    have hdrafts : d₂.Drafts fd temp [] := by
      rw [hd₂, hfd]
      exact drafting_drafts s.disk 2 temp
    have htouch : Disk.OnlyTouches temp s.disk d₂ := by
      rw [hd₂]
      exact Disk.OnlyTouches.of_update rfl
    have hne : inputPath.path ≠ temp := by
      rw [hname]
      exact inputPath.path_ne_temp outputPath suffix
    have hbeside : Eff.Keeps (Beside fin inputPath.path fd temp)
        (writeTemp fd fun fout => onStreams fin fout x) := writeTemp_beside hx (by omega)
    apply Eff.Post.bind
    rcases hrun : (writeTemp fd fun fout => onStreams fin fout x).run { s with disk := d₂ } with
      ⟨r, s₃⟩
    obtain ⟨-, howns, htouch₃⟩ := hbeside.of_eq hrun hfin₂ hdrafts.owns
    have htouch' := Disk.OnlyTouches.trans _ _ _ htouch htouch₃
    apply Eff.Post.of_eq hrun
    cases r with
    | error e => exact ⟨htouch', howns.1⟩
    | ok _ =>
    obtain ⟨content, ⟨rt', hcontent⟩, hfile⟩ := writeTemp_streamed hx hfin₂ hdrafts hrun
    apply onDisk_post
    apply (replace_staged outputPath.path hfresh htouch' hfile).mono
    rintro (e | _) d₄ hreplace
    · exact hreplace
    · obtain ⟨input, hinput⟩ := Option.isSome_iff_exists.mp hinput
      have hsame : d₂.files inputPath.path = some input := (htouch _ hne).trans hinput
      dsimp only at hcontent
      rw [hsame] at hcontent
      exact ⟨content, ⟨input, rt', hinput, hcontent⟩, hreplace⟩
  cleaned := by
    intro temp s₁
    exact discard_cleans temp s₁.disk

/-- A frame condition: what stands at the descriptor `fd` stays there. -/
def Spares (fd : Nat) (s s' : Host) : Prop := Disk.Spares fd s.disk s'.disk

namespace Spares

theorem trans (s s' s'' : Host) (h : Spares fd s s') (h' : Spares fd s' s'') : Spares fd s s'' :=
  Disk.Spares.trans _ _ _ h h'

theorem onDisk {α : Type} {z : Eff Exc Files α} (hz : Eff.Keeps (Disk.Spares fd) z) :
    Eff.Keeps (Spares fd) (onDisk z) := fun s => hz s.disk

theorem tolerating : Eff.Keeps (Disk.Spares fd) (tolerating Disk.call) := by
  apply Eff.Keeps.tryCatch Disk.Spares.trans Disk.Spares.call
  intro e
  split
  · exact Eff.Keeps.pure Disk.Spares.refl _
  · exact Eff.Keeps.raise Disk.Spares.refl _

theorem discard (temp : Path) : Eff.Keeps (Disk.Spares fd) (discard temp) := by
  apply Eff.Keeps.tryCatch Disk.Spares.trans (Disk.Spares.unlink osErrors temp)
  intro e
  split
  · exact Eff.Keeps.pure Disk.Spares.refl _
  · exact Eff.Keeps.raise Disk.Spares.refl _

end Spares

/-- The input stays open under its descriptor. -/
theorem atomicStreamWrite_sparesInput (hx : FileStream x y) (outputPath : Destination)
    (hfin : s.disk.handles[fin]? = some (some { path := input })) :
    Eff.Post (atomicStreamWrite outputPath fun fout => onStreams fin fout x) s fun _ s' =>
      s'.disk.handles[fin]? = some (some { path := input }) := by
  rw [atomicStreamWrite_eq]
  apply Eff.Post.bind_keeps (K := Spares fin)
  · exact Spares.onDisk (Disk.Spares.mkstemp osErrors outputPath.temp)
  · rintro ⟨fd, temp⟩ s₁ hspares₁ hcreate
    have hfin₁ := hspares₁ _ hfin
    apply Eff.Post.bind_keeps (K := Spares fin) (Spares.onDisk Spares.tolerating)
    · intro _ s₂ hspares₂ hrestrict
      have hfin₂ := hspares₂ _ hfin₁
      obtain ⟨d₁, hmkstemp, rfl⟩ := Host.onDisk_ok.mp hcreate
      obtain ⟨d₂, hchmod, rfl⟩ := Host.onDisk_ok.mp hrestrict
      obtain ⟨-, -, hfd, hd₂⟩ := made_drafting hmkstemp hchmod
      have hlt : fin < s.disk.handles.length := (List.getElem?_eq_some_iff.mp hfin).1
      have hdrafts : d₂.Drafts fd temp [] := by
        rw [hd₂, hfd]
        exact drafting_drafts s.disk 2 temp
      have hbeside : Eff.Keeps (Beside fin input fd temp)
          (writeTemp fd fun fout => onStreams fin fout x) := writeTemp_beside hx (by omega)
      apply Eff.Post.tryCatch
      apply Eff.Post.bind
      rcases hrun : (writeTemp fd fun fout => onStreams fin fout x).run { s with disk := d₂ } with
        ⟨r, s₃⟩
      obtain ⟨hfin₃, -, -⟩ := hbeside.of_eq hrun hfin₂ hdrafts.owns
      have hdiscard : ∀ e : Exc, Eff.Keeps (Spares fin) (do
          onDisk (CryptoFlex.discard temp)
          Eff.raise e : Eff Exc Host Unit) := by
        intro e
        apply Eff.Keeps.bind Spares.trans (Spares.onDisk (Spares.discard temp))
        intro _
        exact Eff.Keeps.raise (fun s => Disk.Spares.refl s.disk) e
      apply Eff.Post.of_eq hrun
      cases r with
      | error e => exact hdiscard e s₃ _ hfin₃
      | ok _ =>
        have hreplace : Eff.Keeps (Spares fin)
            (onDisk (Disk.replace osErrors temp outputPath.path)) :=
          Spares.onDisk (Disk.Spares.replace osErrors temp outputPath.path)
        rcases hmove : (onDisk (Disk.replace osErrors temp outputPath.path)).run s₃ with
          ⟨e | _, s₄⟩
        · have hfin₄ := hreplace.of_eq hmove _ hfin₃
          exact Eff.Post.of_eq hmove (hdiscard e s₄ _ hfin₄)
        · exact Eff.Post.of_eq hmove (hreplace.of_eq hmove _ hfin₃)
    · intro e s₂ hspares₂
      exact hspares₂ _ hfin₁
  · intro e s₁ hspares₁
    exact hspares₁ _ hfin

end Stream

/-- The chunked mode leaves the output with all of what the stream function makes of the input in
memory, or as it was. -/
theorem streamFile_post {x : Eff Exc (World FileInput FileObject) Unit}
    {y : Eff Exc (World MemoryStream BytesSink) Unit} (hx : FileStream x y)
    (inputPath outputPath : Destination) (s : Host) :
    Eff.Post (streamFile inputPath outputPath x) s fun r s' =>
      OutputEnd outputPath (Streamed y inputPath s) s.disk.files s'.disk.files r := by
  apply withInput_post
  · intro e
    exact OutputEnd.kept rfl
  intro hinput
  have hfin : (s.reading inputPath.path).disk.handles[s.disk.handles.length]? =
      some (some { path := inputPath.path }) := by
    simp [reading]
  have hsound : (streamReplacement outputPath s.disk.handles.length x).Sound outputPath.IsTemp
      outputPath.path (Streamed y inputPath s) (s.reading inputPath.path) :=
    streamReplacement_sound hx hfin hinput
  have hends := hsound.ends
  have hspares := atomicStreamWrite_sparesInput hx outputPath hfin
  rw [atomicStreamWrite_eq] at hspares ⊢
  rcases hrun : (streamReplacement outputPath s.disk.handles.length x).toEff.run
    (s.reading inputPath.path) with ⟨r, s'⟩
  have hend := OutputEnd.of_replaced (hends.elim hrun)
  apply Eff.Post.of_eq hrun
  refine ⟨hspares.elim hrun, ?_, hend⟩
  intro e
  exact hend.raise e

end Host

end CryptoFlex
