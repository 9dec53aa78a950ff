import CryptoFlex.Cli.Outputs
import CryptoFlex.Lib.Total

namespace CryptoFlex

open Lib

variable {H : Type}

/-- A file object that takes whatever is written to it. -/
def FileObject.Takes (o : FileObject) : Prop := o.disk.Quiet ∧ o.disk.IsOpen o.fd

theorem FileObject.Takes.write {o : FileObject} (h : o.Takes) (b : Bytes) :
    ∃ o', Output.write b o = (none, o') ∧ o'.Takes := by
  obtain ⟨hq, hopen⟩ := h
  obtain ⟨f, hfd⟩ := id hopen
  obtain ⟨d, hrun⟩ : ∃ d, (Disk.write osErrors o.fd b).run o.disk = (.ok (), d) := by
    rw [Disk.write_run osErrors hfd b, hq.result]
    exact ⟨_, rfl⟩
  have htable : d.table = o.disk.table := (Disk.SameTable.write osErrors b).of_eq hrun
  refine ⟨⟨d, o.fd⟩, ?_, ((Disk.Calls.write osErrors o.fd b).of_eq hrun).quiet hq, ?_⟩
  · simp only [Output.write, hrun]
  · apply Disk.isOpen_iff.mpr
    rw [htable]
    exact Disk.isOpen_iff.mp hopen

/-- It does as well as any other output. -/
theorem FileObject.Takes.writesLike {ω : Type} [Output ω] (o : ω) {o' : FileObject}
    (h : o'.Takes) : WritesLike o o' := by
  refine ⟨fun _ o' => o'.Takes, ?_, h⟩
  intro _ o' ho' b _ _
  exact ho'.write b

/-- A file whose reads do not fail does as well as its content in memory. -/
theorem memoryStream_readsLike (rest : Bytes) {reads : Nat → Option Exc}
    (hreads : ∀ n, reads n = none) : ReadsLike (MemoryStream.mk rest) (FileInput.mk rest reads) := by
  refine ⟨fun i i' => i'.rest = i.rest ∧ ∀ n, i'.reads n = none, ?_, rfl, hreads⟩
  rintro i i' ⟨hrest, hnone⟩ n chunk j hread
  cases hread
  refine ⟨⟨i'.rest.drop n, fun k => i'.reads (k + 1)⟩, ?_, ?_, fun k => hnone (k + 1)⟩
  · simp only [Input.read, hnone 0, hrest]
  · simp only [hrest]

theorem callsDisk_outputFrame : OutputFrame (fun w w' : World FileInput FileObject =>
    Disk.Calls w.sink.disk w'.sink.disk) where
  same := by
    intro w w' hsink _
    exact Disk.Calls.of_same (by rw [hsink])
  trans _ _ _ h h' := Disk.Calls.trans _ _ _ h h'
  write := by
    intro b w
    rcases hrun : (Disk.write osErrors w.sink.fd b).run w.sink.disk with ⟨r, d'⟩
    obtain ⟨n, hwrite, -⟩ := fileObject_write w hrun
    rw [hwrite]
    exact (Disk.Calls.write osErrors w.sink.fd b).of_eq hrun

/-- A stream function on files that returns if it does in memory and no call on the way fails. -/
structure CalmStream (x : Eff Exc (World FileInput FileObject) Unit)
    (y : Eff Exc (World MemoryStream BytesSink) Unit) : Prop extends FileStream x y where
  calls : Eff.Keeps (fun w w' => Disk.Calls w.sink.disk w'.sink.disk) x
  returns : Alike.Mirrored y x

theorem encryptStream_calmStream (env : Env H) (bundle : PublicBundle) (chunkSize : Int) :
    CalmStream (encryptStream env bundle chunkSize) (encryptStream env bundle chunkSize) where
  toFileStream := encryptStream_fileStream env bundle chunkSize
  calls := callsDisk_outputFrame.encryptStream env bundle chunkSize
  returns := Alike.encryptStream env bundle chunkSize

theorem decryptStream_calmStream (env : Env H) (handles : List H) (minProfile : Option PyStr) :
    CalmStream (decryptStream env handles minProfile) (decryptStream env handles minProfile) where
  toFileStream := decryptStream_fileStream env handles minProfile
  calls := callsDisk_outputFrame.decryptStream env handles minProfile
  returns := Alike.decryptStream env handles minProfile

theorem migrateStream_calmStream (env : Env H) (handles : List H) (newBundle : PublicBundle)
    (minProfile : Option PyStr) : CalmStream (migrateStream env handles newBundle minProfile)
      (migrateStream env handles newBundle minProfile) where
  toFileStream := migrateStream_fileStream env handles newBundle minProfile
  calls := callsDisk_outputFrame.migrateStream env handles newBundle minProfile
  returns := Alike.migrateStream env handles newBundle minProfile

namespace Disk.Calls

theorem tolerating {x : Eff Exc Files Unit} (hx : Eff.Keeps Disk.Calls x) :
    Eff.Keeps Disk.Calls (tolerating x) := by
  apply Eff.Keeps.tryCatch Disk.Calls.trans hx
  intro e
  split
  · exact Eff.Keeps.pure Disk.Calls.refl _
  · exact Eff.Keeps.raise Disk.Calls.refl _

theorem discard (temp : Path) : Eff.Keeps Disk.Calls (discard temp) := by
  apply Eff.Keeps.tryCatch Disk.Calls.trans (Disk.Calls.unlink osErrors temp)
  intro e
  split
  · exact Eff.Keeps.pure Disk.Calls.refl _
  · exact Eff.Keeps.raise Disk.Calls.refl _

theorem makeTempInDir (dest : Destination) : Eff.Keeps Disk.Calls (makeTempInDir dest) := by
  apply Eff.Keeps.bind Disk.Calls.trans (Disk.Calls.mkstemp osErrors dest.temp)
  intro made
  apply Eff.Keeps.bind Disk.Calls.trans (tolerating Disk.Calls.call)
  intro _
  exact Eff.Keeps.pure Disk.Calls.refl _

end Disk.Calls

theorem tolerating_call_total {d : Files} (h : d.Quiet) :
    Eff.Total (tolerating Disk.call) d fun _ d' => d' = { d with plan := Disk.after d.plan 1 } := by
  have hrun := tolerating_call_run d
  rw [tolerated, h 0] at hrun
  exact Eff.Total.of_eq hrun rfl

theorem makeTempInDir_total {dest : Destination} {d : Files} (h : d.Quiet)
    (hfresh : d.files (dest.temp (d.plan 0).suffix) = none) :
    Eff.Total (makeTempInDir dest) d fun made d' => made.1 = d.handles.length ∧
      dest.IsTemp made.2 ∧ d.files made.2 = none ∧ d' = d.drafting 2 made.2 [] [] := by
  have hmkstemp := Disk.mkstemp_run osErrors dest.temp (h 0) hfresh
  have hchmod := call_tolerating_drafting (d := d) (dest.temp (d.plan 0).suffix) 1 [] []
  rw [tolerated, h 1] at hchmod
  exact Eff.Total.of_eq ((Eff.bind_ok hmkstemp _).trans (Eff.bind_ok hchmod _))
    ⟨rfl, ⟨_, rfl⟩, hfresh, rfl⟩

namespace Host

/-- A frame condition: some system calls were made. -/
def Calls (s s' : Host) : Prop := Disk.Calls s.disk s'.disk

namespace Calls

theorem trans (s s' s'' : Host) (h : Calls s s') (h' : Calls s' s'') : Calls s s'' :=
  Disk.Calls.trans _ _ _ h h'

theorem refl (s : Host) : Calls s s := Disk.Calls.refl s.disk

theorem onDisk {α : Type} {x : Eff Exc Files α} (hx : Eff.Keeps Disk.Calls x) :
    Eff.Keeps Calls (onDisk x) := fun s => hx s.disk

theorem close (fd : Nat) : Eff.Keeps Calls (close fd) :=
  fun s => Disk.Calls.close fd s.disk

theorem withInput {α : Type} {input : Destination} {body : Nat → Eff Exc Host α}
    (hbody : ∀ fin, Eff.Keeps Calls (body fin)) : Eff.Keeps Calls (withInput input body) := by
  apply Eff.Keeps.bind trans (onDisk (Disk.Calls.openRead osErrors _))
  intro fin
  exact Eff.Keeps.tryFinally trans (hbody fin) (close fin)

theorem readFile (path : Destination) : Eff.Keeps Calls (readFile path) :=
  withInput fun fin => onDisk (Disk.Calls.read osErrors fin)

theorem loadBundle (path : Destination) : Eff.Keeps Calls (loadBundle path) := by
  apply withInput
  intro fin
  apply Eff.Keeps.bind trans (onDisk (Disk.Calls.read osErrors fin))
  intro content
  exact Eff.Keeps.lift refl _

variable {x : Eff Exc (World FileInput FileObject) Unit}
  {y : Eff Exc (World MemoryStream BytesSink) Unit}

theorem onStreams (hx : CalmStream x y) (fin fout : Nat) :
    Eff.Keeps Calls (onStreams fin fout x) := by
  apply Eff.Keeps.bind trans (onDisk (Disk.Calls.handle osErrors fin))
  intro input s
  exact hx.calls _

theorem writeTemp (hx : CalmStream x y) (fin fd : Nat) :
    Eff.Keeps Calls (writeTemp fd fun fout => Host.onStreams fin fout x) := by
  apply Eff.Keeps.bind trans (onDisk Disk.Calls.call)
  intro _
  apply Eff.Keeps.tryFinally trans
  · apply Eff.Keeps.bind trans (onStreams hx fin fd)
    intro _
    apply Eff.Keeps.bind trans (onDisk (Disk.Calls.flush osErrors fd))
    intro _
    exact onDisk (Disk.Calls.tolerating Disk.Calls.call)
  · exact onDisk (Disk.Calls.close fd)

theorem atomicStreamWrite (hx : CalmStream x y) (dest : Destination) (fin : Nat) :
    Eff.Keeps Calls (atomicStreamWrite dest fun fout => Host.onStreams fin fout x) := by
  apply Eff.Keeps.bind trans (onDisk (Disk.Calls.makeTempInDir dest))
  intro made
  apply Eff.Keeps.tryCatch trans
  · apply Eff.Keeps.bind trans (writeTemp hx fin made.1)
    intro _
    exact onDisk (Disk.Calls.replace osErrors _ _)
  · intro e
    apply Eff.Keeps.bind trans (onDisk (Disk.Calls.discard _))
    intro _
    exact Eff.Keeps.raise refl e

theorem streamFile (hx : CalmStream x y) (inputPath outputPath : Destination) :
    Eff.Keeps Calls (streamFile inputPath outputPath x) :=
  withInput fun fin => atomicStreamWrite hx outputPath fin

end Calls

theorem onDisk_total {α : Type} {x : Eff Exc Files α} {s : Host} {Q : α → Host → Prop}
    (h : Eff.Total x s.disk fun a d => Q a { s with disk := d }) : Eff.Total (onDisk x) s Q := h.zoom

theorem close_total {fd : Nat} {path : Path} {s : Host} (hq : s.disk.Quiet)
    (hfd : s.disk.handles[fd]? = some (some { path })) :
    Eff.Total (close fd) s fun _ s' => s' = s.shut fd := by
  have hrun := close_unbuffered hfd
  rw [hq.result] at hrun
  exact Eff.Total.of_eq hrun rfl

/-- An input that is there is open while the body runs. -/
theorem withInput_total {α : Type} {input : Destination} {body : Nat → Eff Exc Host α} {s : Host}
    {Q : α → Host → Prop} (hq : s.disk.Quiet) (hinput : (s.disk.files input.path).isSome)
    (hbody : Eff.Total (body s.disk.handles.length) (s.reading input.path) fun a s' =>
      s'.disk.Quiet ∧ s'.disk.handles[s.disk.handles.length]? = some (some { path := input.path }) ∧
        Q a (s'.shut s.disk.handles.length)) :
    Eff.Total (withInput input body) s Q := by
  apply Eff.Total.bind
  apply onDisk_total
  apply (Disk.openRead_total osErrors hq hinput).mono
  rintro _ _ ⟨rfl, rfl⟩
  apply Eff.Total.tryFinally
  apply hbody.mono
  rintro a s' ⟨hq', hfin, hqs⟩
  apply (close_total hq' hfin).mono
  rintro _ _ rfl
  exact hqs

/-- A whole file is read if it is there. -/
theorem read_total {path : Destination} {content : Bytes} {s : Host} (hq : s.disk.Quiet)
    (hfile : s.disk.files path.path = some content) :
    Eff.Total (onDisk (Disk.read osErrors s.disk.handles.length)) (s.reading path.path) fun b s' =>
      b = content ∧ s'.disk.Quiet ∧
        s'.disk.handles[s.disk.handles.length]? = some (some { path := path.path }) := by
  have hq₁ : (s.reading path.path).disk.Quiet := Disk.Calls.quiet ⟨1, rfl⟩ hq
  have hfin : (s.reading path.path).disk.handles[s.disk.handles.length]? =
      some (some { path := path.path }) := by
    simp [reading]
  apply onDisk_total
  apply (Disk.read_total osErrors hq₁ hfin hfile).mono
  rintro b _ ⟨rfl, rfl⟩
  exact ⟨rfl, Disk.Calls.quiet ⟨1, rfl⟩ hq₁, hfin⟩

theorem readFile_total {path : Destination} {content : Bytes} {s : Host} (hq : s.disk.Quiet)
    (hfile : s.disk.files path.path = some content) :
    Eff.Total (readFile path) s fun b _ => b = content := by
  apply withInput_total hq (by rw [hfile]; rfl)
  apply (read_total hq hfile).mono
  rintro b s' ⟨hb, hq', hfin⟩
  exact ⟨hq', hfin, hb⟩

theorem loadBundle_total {path : Destination} {content : Bytes} {bundle : PublicBundle} {s : Host}
    (hq : s.disk.Quiet) (hfile : s.disk.files path.path = some content)
    (hbundle : readBundle content = .ok bundle) :
    Eff.Total (loadBundle path) s fun b _ => b = bundle := by
  apply withInput_total hq (by rw [hfile]; rfl)
  apply Eff.Total.bind
  apply (read_total hq hfile).mono
  rintro _ s' ⟨rfl, hq', hfin⟩
  rw [hbundle]
  exact Eff.Total.of_eq rfl ⟨hq', hfin, rfl⟩

/-- A close after a body that leaves a quiet disk does not fail. -/
theorem withInput_quiet {α : Type} {input : Destination} {body : Nat → Eff Exc Host α} {s : Host}
    {Q : Except Exc α → Host → Prop} (hmissing : ∀ e, Q (.error e) s.later)
    (hbody : (s.disk.files input.path).isSome →
      Eff.Post (body s.disk.handles.length) (s.reading input.path) fun r s' =>
        s'.disk.Quiet ∧
        s'.disk.handles[s.disk.handles.length]? = some (some { path := input.path }) ∧
        Q r (s'.shut s.disk.handles.length)) :
    Eff.Post (withInput input body) s Q := by
  apply Eff.Post.bind
  apply onDisk_post
  apply (Disk.openRead_post osErrors s.disk input.path).mono
  rintro (e | fin) d₁ h₁
  · rw [h₁.2]
    exact hmissing e
  obtain ⟨rfl, -, hinput, rfl⟩ := h₁
  apply Eff.Post.tryFinally
  apply (hbody hinput).mono
  rintro r s' ⟨hq', hfin, hr⟩
  obtain ⟨_, _, hclose, rfl⟩ := close_total hq' hfin
  exact Eff.Post.of_eq hclose hr

section Stream

variable {x : Eff Exc (World FileInput FileObject) Unit}
  {y : Eff Exc (World MemoryStream BytesSink) Unit} {fin fd : Nat} {input temp : Path} {s : Host}
  {b content : Bytes} {rt' : Runtime}

theorem onStreams_total (hx : CalmStream x y) (hq : s.disk.Quiet) (hreads : ∀ n, s.reads n = none)
    (hfin : s.disk.handles[fin]? = some (some { path := input })) (hdrafts : s.disk.Drafts fd temp [])
    (hinput : s.disk.files input = some b) (hmemory : (inMemory y b).run s.rt = (.ok content, rt')) :
    Eff.Total (onStreams fin fd x) s fun _ s' =>
      s'.disk.Quiet ∧ ∃ c, s'.disk.Drafts fd temp c := by
  obtain ⟨w, hy, -, -⟩ := inMemory_eq_ok.mp hmemory
  have htakes : (FileObject.mk s.disk fd).Takes := by
    obtain ⟨_, _, -, hfd, -⟩ := id hdrafts
    exact ⟨hq, _, hfd⟩
  have hstart : s.streams input fd =
      World.start s.rt (FileInput.mk b s.reads) (FileObject.mk s.disk fd) := by
    rw [streams, hinput]
    rfl
  have halike := Alike.start (memoryStream_readsLike b hreads)
    (htakes.writesLike BytesSink.mk) s.rt
  obtain ⟨w', hrun, -⟩ := hx.returns _ _ halike () w hy
  rw [← hstart] at hrun
  have hfills := ((hx.fills temp).of_eq hrun).2.2 [] hdrafts
  have hcalls := hx.calls.of_eq hrun
  have hstreams := @onStreams_run fin fd input s hfin x
  rw [hrun] at hstreams
  exact Eff.Total.of_eq hstreams ⟨hcalls.quiet hq, _, hfills⟩

theorem writeTemp_total (hx : CalmStream x y) (hq : s.disk.Quiet) (hreads : ∀ n, s.reads n = none)
    (hfin : s.disk.handles[fin]? = some (some { path := input })) (hdrafts : s.disk.Drafts fd temp [])
    (hinput : s.disk.files input = some b) (hmemory : (inMemory y b).run s.rt = (.ok content, rt')) :
    Eff.Total (writeTemp fd fun fout => onStreams fin fout x) s fun _ s' =>
      s'.disk.Quiet ∧ ∃ c, s'.disk.files temp = some c := by
  apply Eff.Total.bind
  apply onDisk_total
  apply (Disk.call_total hq).mono
  rintro _ _ rfl
  have hq₁ : s.later.disk.Quiet := (Disk.Calls.quiet ⟨1, rfl⟩ hq)
  apply Eff.Total.tryFinally
  apply Eff.Total.bind
  apply (onStreams_total (s := s.later) hx hq₁ hreads hfin hdrafts hinput hmemory).mono
  rintro _ s₂ ⟨hq₂, c, hdrafts₂⟩
  apply Eff.Total.bind
  apply onDisk_total
  apply (Disk.flush_total osErrors hq₂ hdrafts₂).mono
  rintro _ d₃ ⟨hq₃, hdrafts₃⟩
  apply onDisk_total
  apply (tolerating_call_total hq₃).mono
  rintro _ _ rfl
  apply onDisk_total
  have hq₄ : Disk.Quiet { d₃ with plan := Disk.after d₃.plan 1 } := Disk.Calls.quiet ⟨1, rfl⟩ hq₃
  have hdrafts₄ : Disk.Drafts { d₃ with plan := Disk.after d₃.plan 1 } fd temp c := hdrafts₃
  apply (Disk.close_total hq₄ hdrafts₄).mono
  rintro _ d₅ ⟨hq₅, hfile⟩
  exact ⟨hq₅, c, hfile⟩

theorem atomicStreamWrite_total (hx : CalmStream x y) {dest : Destination} (hq : s.disk.Quiet)
    (hreads : ∀ n, s.reads n = none)
    (hfresh : s.disk.files (dest.temp (s.disk.plan 0).suffix) = none) {inputPath : Destination}
    (hfin : s.disk.handles[fin]? = some (some { path := inputPath.path }))
    (hinput : s.disk.files inputPath.path = some b)
    (hmemory : (inMemory y b).run s.rt = (.ok content, rt')) :
    Eff.Total (atomicStreamWrite dest fun fout => onStreams fin fout x) s fun _ _ => True := by
  apply Eff.Total.bind
  apply onDisk_total
  apply (makeTempInDir_total hq hfresh).mono
  rintro ⟨fd, temp⟩ _ ⟨hfd, ⟨suffix, hname⟩, -, rfl⟩
  dsimp only at hfd hname
  rw [hfd, hname]
  have hlt := (List.getElem?_eq_some_iff.mp hfin).1
  have hne : inputPath.path ≠ dest.temp suffix := inputPath.path_ne_temp dest suffix
  have hq₂ : (s.disk.drafting 2 (dest.temp suffix) [] []).Quiet := Disk.Calls.quiet ⟨2, rfl⟩ hq
  have hfin₂ : (s.disk.drafting 2 (dest.temp suffix) [] []).handles[fin]? =
      some (some { path := inputPath.path }) := (List.getElem?_append_left hlt).trans hfin
  have hinput₂ : (s.disk.drafting 2 (dest.temp suffix) [] []).files inputPath.path = some b :=
    (Function.update_of_ne hne _ _).trans hinput
  apply Eff.Total.tryCatch
  apply Eff.Total.bind
  apply (writeTemp_total (s := { s with disk := s.disk.drafting 2 (dest.temp suffix) [] [] }) hx hq₂
    hreads hfin₂ (drafting_drafts s.disk 2 _) hinput₂ hmemory).mono
  rintro _ s₃ ⟨hq₃, c, hfile⟩
  apply onDisk_total
  exact (Disk.replace_total osErrors hq₃ hfile dest.path).mono fun _ _ h => h

end Stream

/-- The chunked mode returns if the stream function does in memory. -/
theorem streamFile_total {x : Eff Exc (World FileInput FileObject) Unit}
    {y : Eff Exc (World MemoryStream BytesSink) Unit} (hx : CalmStream x y)
    {inputPath outputPath : Destination} {s : Host} {b content : Bytes} {rt' : Runtime}
    (hq : s.disk.Quiet) (hreads : ∀ n, s.reads n = none)
    (hfresh : s.disk.files (outputPath.temp (s.disk.plan 1).suffix) = none)
    (hinput : s.disk.files inputPath.path = some b)
    (hmemory : (inMemory y b).run s.rt = (.ok content, rt')) :
    Eff.Total (streamFile inputPath outputPath x) s fun _ _ => True := by
  apply withInput_total hq (by rw [hinput]; rfl)
  have hq₁ : (s.reading inputPath.path).disk.Quiet := Disk.Calls.quiet ⟨1, rfl⟩ hq
  have hfin : (s.reading inputPath.path).disk.handles[s.disk.handles.length]? =
      some (some { path := inputPath.path }) := by
    simp [reading]
  have htotal := atomicStreamWrite_total (s := s.reading inputPath.path) hx hq₁ hreads hfresh hfin
    hinput hmemory
  have hspares := atomicStreamWrite_sparesInput hx.toFileStream outputPath hfin
  apply ((htotal.and_post hspares).and_keeps (Calls.atomicStreamWrite hx outputPath _)).mono
  rintro _ s' ⟨⟨-, hfin'⟩, hcalls⟩
  exact ⟨hcalls.quiet hq₁, hfin', trivial⟩

theorem streamReplacement_calling {x : Eff Exc (World FileInput FileObject) Unit}
    {y : Eff Exc (World MemoryStream BytesSink) Unit} (hx : CalmStream x y)
    (outputPath : Destination) (fin : Nat) : (streamReplacement outputPath fin x).Calling where
  create := Calls.onDisk (Disk.Calls.mkstemp osErrors outputPath.temp)
  restrict := Calls.onDisk (Disk.Calls.tolerating Disk.Calls.call)
  body fd temp := by
    apply Eff.Keeps.bind Calls.trans (Calls.writeTemp hx fin fd)
    intro _
    exact Calls.onDisk (Disk.Calls.replace osErrors temp _)
  restricts s hq := onDisk_total ((tolerating_call_total hq).mono fun _ _ _ => trivial)

/-- If it raises, every file is as it was. -/
theorem streamFile_clean {x : Eff Exc (World FileInput FileObject) Unit}
    {y : Eff Exc (World MemoryStream BytesSink) Unit} (hx : CalmStream x y)
    (inputPath outputPath : Destination) {s : Host} (hq : s.disk.Quiet) :
    Eff.Post (streamFile inputPath outputPath x) s fun r s' =>
      ∀ e, r = .error e → s'.disk.files = s.disk.files := by
  apply withInput_quiet
  · intro e e' _
    rfl
  intro hinput
  have hq₁ : (s.reading inputPath.path).disk.Quiet := Disk.Calls.quiet ⟨1, rfl⟩ hq
  have hfin : (s.reading inputPath.path).disk.handles[s.disk.handles.length]? =
      some (some { path := inputPath.path }) := by
    simp [reading]
  have hsound :=
    @streamReplacement_sound _ _ _ _ hx.toFileStream inputPath outputPath hfin hinput
  have hcalling := streamReplacement_calling hx outputPath s.disk.handles.length
  have hclean := hcalling.ends (s := s.reading inputPath.path) hq₁ hsound
  have hspares := atomicStreamWrite_sparesInput hx.toFileStream outputPath hfin
  have hcalls := Calls.atomicStreamWrite hx outputPath s.disk.handles.length
  rw [atomicStreamWrite_eq] at hspares hcalls ⊢
  rcases hrun : (streamReplacement outputPath s.disk.handles.length x).toEff.run
    (s.reading inputPath.path) with ⟨r, s'⟩
  apply Eff.Post.of_eq hrun
  exact ⟨(hcalls.of_eq hrun).quiet hq₁, hspares.elim hrun, hclean.elim hrun⟩

end Host

end CryptoFlex
