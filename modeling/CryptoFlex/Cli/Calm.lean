import CryptoFlex.Cli.CalmStreams
import CryptoFlex.Cli.Refinement

namespace CryptoFlex

open Lib Console

variable {H : Type}

namespace Console

/-- No call and no read to come raises, and the names that `mkstemp` draws are free. -/
structure Calm (s : Console) : Prop where
  quiet : s.disk.Quiet
  reads : ∀ n, s.reads n = none
  fresh : ∀ (dest : Destination) n, s.disk.files (dest.temp (s.disk.plan n).suffix) = none

/-- A frame condition: some system calls were made. -/
def Calls (s s' : Console) : Prop := Disk.Calls s.disk s'.disk

/-- A frame condition: some system calls were made, and nothing was read from a stream. -/
def Later (s s' : Console) : Prop := Calls s s' ∧ s'.reads = s.reads

theorem Calls.trans (s s' s'' : Console) (h : Calls s s') (h' : Calls s' s'') : Calls s s'' :=
  Disk.Calls.trans _ _ _ h h'

namespace Later

theorem refl (s : Console) : Later s s := ⟨Disk.Calls.refl _, rfl⟩

theorem trans (s s' s'' : Console) (h : Later s s') (h' : Later s' s'') : Later s s'' :=
  ⟨Calls.trans _ _ _ h.1 h'.1, h'.2.trans h.2⟩

theorem calm {s s' : Console} (h : Later s s') (hfiles : s'.disk.files = s.disk.files)
    (hs : s.Calm) : s'.Calm where
  quiet := h.1.quiet hs.quiet
  reads := by
    rw [h.2]
    exact hs.reads
  fresh := by
    obtain ⟨⟨k, hplan⟩, -⟩ := h
    intro dest n
    rw [hfiles, hplan]
    exact hs.fresh dest (k + n)

theorem onDisk {α : Type} {x : Eff Exc Files α} (hx : Eff.Keeps Disk.Calls x) :
    Eff.Keeps Later (Console.onDisk x) := fun s => ⟨hx s.disk, rfl⟩

theorem onRuntime {α : Type} (x : Eff Exc Runtime α) : Eff.Keeps Later (Console.onRuntime x) :=
  fun _ => ⟨Disk.Calls.refl _, rfl⟩

theorem onProcess {α : Type} {x : Eff Exc Process α}
    (hx : Eff.Keeps (fun p p' => Disk.Calls p.disk p'.disk) x) :
    Eff.Keeps Later (Console.onProcess x) := fun s => ⟨hx s.toProcess, rfl⟩

theorem onHost {α : Type} {x : Eff Exc Host α} (hx : Eff.Keeps Host.Calls x)
    (hreads : Eff.Keeps (fun h h' => h'.reads = h.reads) x) : Eff.Keeps Later (Console.onHost x) :=
  fun s => ⟨hx s.host, hreads s.host⟩

end Later

section Total

variable {α : Type} {s : Console} {Q : α → Console → Prop}

theorem onProcess_total {x : Eff Exc Process α}
    (h : Eff.Total x s.toProcess fun a p => Q a { s with toProcess := p }) :
    Eff.Total (onProcess x) s Q := h.zoom

theorem onDisk_total {x : Eff Exc Files α}
    (h : Eff.Total x s.disk fun a d => Q a { s with disk := d }) : Eff.Total (onDisk x) s Q :=
  onProcess_total h.zoom

theorem onRuntime_total {x : Eff Exc Runtime α}
    (h : Eff.Total x s.rt fun a rt => Q a { s with rt := rt }) : Eff.Total (onRuntime x) s Q :=
  onProcess_total h.zoom

theorem onHost_total {x : Eff Exc Host α} (h : Eff.Total x s.host fun a t =>
    Q a { s with rt := t.rt, disk := t.disk, reads := t.reads }) : Eff.Total (onHost x) s Q := h.zoom

end Total

end Console

namespace Process

/-- A frame condition: some system calls were made. -/
def Calls (p p' : Process) : Prop := Disk.Calls p.disk p'.disk

namespace Calls

theorem refl (p : Process) : Calls p p := Disk.Calls.refl _

theorem trans (p p' p'' : Process) (h : Calls p p') (h' : Calls p' p'') : Calls p p'' :=
  Disk.Calls.trans _ _ _ h h'

theorem onDisk {α : Type} {x : Eff Exc Files α} (hx : Eff.Keeps Disk.Calls x) :
    Eff.Keeps Calls (onDisk x) := fun p => hx p.disk

theorem print (line : String) : Eff.Keeps Calls (print line) := by
  apply Eff.Keeps.bind trans (onDisk Disk.Calls.call)
  intro _
  exact Eff.Keeps.modify fun p => Disk.Calls.refl _

theorem printError (line : String) : Eff.Keeps Calls (printError line) := by
  apply Eff.Keeps.bind trans (onDisk Disk.Calls.call)
  intro _
  exact Eff.Keeps.modify fun p => Disk.Calls.refl _

theorem resolvePassword (environ parsedPassword : Option PyStr) (typed : PyStr) :
    Eff.Keeps Calls (resolvePassword environ parsedPassword typed) := by
  unfold CryptoFlex.resolvePassword
  split
  · exact Eff.Keeps.pure refl _
  · apply Eff.Keeps.bind trans (printError _)
    intro _
    exact Eff.Keeps.pure refl _
  · apply Eff.Keeps.bind trans (onDisk Disk.Calls.call)
    intro _
    exact Eff.Keeps.pure refl _

end Calls

theorem onDisk_total {α : Type} {x : Eff Exc Files α} {p : Process} {Q : α → Process → Prop}
    (h : Eff.Total x p.disk fun a d => Q a { p with disk := d }) :
    Eff.Total (onDisk x) p Q := h.zoom

theorem print_total {p : Process} (h : p.disk.Quiet) (line : String) :
    Eff.Total (print line) p fun _ p' => p'.disk.Quiet := by
  apply Eff.Total.bind
  apply onDisk_total
  apply (Disk.call_total h).mono
  rintro _ _ rfl
  exact Eff.Total.of_eq rfl (Disk.Calls.quiet ⟨1, rfl⟩ h)

theorem printError_total {p : Process} (h : p.disk.Quiet) (line : String) :
    Eff.Total (printError line) p fun _ _ => True := by
  apply Eff.Total.bind
  apply onDisk_total
  apply (Disk.call_total h).mono
  rintro _ _ rfl
  exact Eff.Total.of_eq rfl trivial

theorem resolvePassword_total {p : Process} (h : p.disk.Quiet)
    (environ parsedPassword : Option PyStr) (typed : PyStr) :
    Eff.Total (resolvePassword environ parsedPassword typed) p fun _ _ => True := by
  unfold resolvePassword
  split
  · exact Eff.Total.of_eq rfl trivial
  · apply Eff.Total.bind
    apply (printError_total h _).mono
    intro _ p' _
    exact Eff.Total.of_eq rfl trivial
  · apply Eff.Total.bind
    apply onDisk_total
    apply (Disk.call_total h).mono
    intro _ d _
    exact Eff.Total.of_eq rfl trivial

end Process

theorem Console.print_total {s : Console} (hq : s.disk.Quiet) (line : String) :
    Eff.Total (print line) s fun _ s' => s'.disk.Quiet :=
  onProcess_total (Process.print_total hq line)

/-- A reading step that returns if what it reads for is there. -/
structure Supplies {α : Type} (x : Eff Exc Console α) (m : Contents → Eff Exc Runtime α) : Prop
    extends Reads x m where
  later : Eff.Keeps Later x
  returns : ∀ s : Console, s.Calm → ∀ a rt', (m s.disk.files).run s.rt = (.ok a, rt') →
    Eff.Total x s fun _ _ => True

namespace Supplies

variable {α β : Type}

/-- It returns what it reads for, and the console is still calm. -/
theorem total {x : Eff Exc Console α} {m : Contents → Eff Exc Runtime α} (hx : Supplies x m)
    {s : Console} (hs : s.Calm) {a : α} {rt' : Runtime}
    (hm : (m s.disk.files).run s.rt = (.ok a, rt')) :
    Eff.Total x s fun b s' => b = a ∧ s'.Calm ∧ s'.disk.files = s.disk.files ∧ s'.rt = rt' := by
  obtain ⟨b, s', hrun, -⟩ := hx.returns s hs a rt' hm
  have hsame : s'.disk.files = s.disk.files := hx.same.of_eq hrun
  obtain ⟨rt₁, hm', -, hrt⟩ := hx.mirrors s.disk.files s s.rt ⟨rfl, rfl⟩ b s' hrun
  rw [hm] at hm'
  cases hm'
  exact Eff.Total.of_eq hrun ⟨rfl, (hx.later.of_eq hrun).calm hsame hs, hsame, hrt⟩

theorem bind {x : Eff Exc Console α} {m : Contents → Eff Exc Runtime α}
    {f : α → Eff Exc Console β} {n : α → Contents → Eff Exc Runtime β} (hx : Supplies x m)
    (hf : ∀ a, Supplies (f a) (n a)) :
    Supplies (x >>= f) fun files => m files >>= fun a => n a files where
  toReads := hx.toReads.bind fun a => (hf a).toReads
  later := Eff.Keeps.bind Later.trans hx.later fun a => (hf a).later
  returns := by
    intro s hs b rt' hrun
    obtain ⟨a, rt₁, hm, hn⟩ := Eff.bind_eq_ok.mp hrun
    apply Eff.Total.bind
    apply (hx.total hs hm).mono
    rintro _ s₁ ⟨rfl, hs₁, hfiles, hrt⟩
    rw [← hfiles, ← hrt] at hn
    exact (hf _).returns s₁ hs₁ b rt' hn

theorem lift (r : Except Exc α) : Supplies (Eff.lift r) fun _ => Eff.lift r where
  toReads := Reads.lift r
  later := Eff.Keeps.lift Later.refl r
  returns := by
    intro s _ a rt' hm
    rw [Eff.run_lift] at hm
    obtain ⟨rfl, -⟩ := Prod.mk.inj hm
    exact Eff.Total.of_eq rfl trivial

theorem onRuntime (x : Eff Exc Runtime α) : Supplies (Console.onRuntime x) fun _ => x where
  toReads := Reads.onRuntime x
  later := Later.onRuntime x
  returns := by
    intro s _ a rt' hm
    apply onRuntime_total
    exact Eff.Total.of_eq hm trivial

theorem checkPathAlias (inputPath outputPath : Destination) :
    Supplies (checkPathAlias inputPath outputPath)
      fun _ => Eff.lift (refuseAlias inputPath outputPath) where
  toReads := Reads.checkPathAlias inputPath outputPath
  later := by
    apply Eff.Keeps.bind Later.trans (Later.onDisk Disk.Calls.call)
    intro _
    apply Eff.Keeps.bind Later.trans (Later.onDisk Disk.Calls.call)
    intro _
    exact Eff.Keeps.lift Later.refl _
  returns := by
    intro s hs a rt' hm
    rw [Eff.run_lift] at hm
    have hcall : ∀ s : Console, s.disk.Quiet →
        Eff.Total (Console.onDisk Disk.call) s fun _ s' => s'.disk.Quiet := by
      intro s hq
      apply onDisk_total
      apply (Disk.call_total hq).mono
      rintro _ _ rfl
      exact Disk.Calls.quiet ⟨1, rfl⟩ hq
    apply Eff.Total.bind
    apply (hcall s hs.quiet).mono
    intro _ s₁ hq₁
    apply Eff.Total.bind
    apply (hcall s₁ hq₁).mono
    intro _ s₂ _
    exact Eff.Total.of_eq (Prod.ext (Prod.mk.inj hm).1 rfl) trivial

/-- Nothing is read from a stream. -/
theorem withInput_reads {input : Destination} {body : Nat → Eff Exc Host α}
    (hbody : ∀ fin, Eff.Keeps (fun h h' : Host => h'.reads = h.reads) (body fin)) :
    Eff.Keeps (fun h h' : Host => h'.reads = h.reads) (withInput input body) := by
  have htrans : ∀ h h' h'' : Host, h'.reads = h.reads → h''.reads = h'.reads →
      h''.reads = h.reads := fun _ _ _ h h' => h'.trans h
  apply Eff.Keeps.bind htrans fun _ => rfl
  intro fin
  exact Eff.Keeps.tryFinally htrans (hbody fin) fun _ => rfl

theorem readFile (path : Destination) :
    Supplies (onHost (Host.readFile path)) fun files => Eff.lift (fileBytes files path) where
  toReads := Reads.readFile path
  later := Later.onHost (Host.Calls.readFile path) (withInput_reads fun _ _ => rfl)
  returns := by
    intro s hs content rt' hm
    have hfile := fileBytes_eq_ok.mp (Prod.mk.inj hm).1
    apply onHost_total
    exact (Host.readFile_total (s := s.host) hs.quiet hfile).mono fun _ _ _ => trivial

theorem loadBundle (path : Destination) :
    Supplies (onHost (Host.loadBundle path)) fun files => Eff.lift (bundleAt files path) where
  toReads := Reads.loadBundle path
  later := by
    apply Later.onHost (Host.Calls.loadBundle path)
    apply withInput_reads
    intro fin s
    rcases hread : (Host.onDisk (Disk.read osErrors fin)).run s with ⟨_ | content, s₁⟩
    · rw [Eff.bind_error hread]
      exact (Prod.mk.inj hread).2 ▸ rfl
    · rw [Eff.bind_ok hread]
      exact (Prod.mk.inj hread).2 ▸ rfl
  returns := by
    intro s hs bundle rt' hm
    obtain ⟨content, hcontent, hbundle⟩ := bind_eq_ok.mp (Prod.mk.inj hm).1
    apply onHost_total
    exact (Host.loadBundle_total (s := s.host) hs.quiet (fileBytes_eq_ok.mp hcontent)
      hbundle).mono fun _ _ _ => trivial

theorem resolvePassword (environ parsedPassword : Option PyStr) (typed : PyStr) :
    Supplies (onProcess (resolvePassword environ parsedPassword typed))
      fun _ => Eff.lift (.ok (chosenPassword environ parsedPassword typed)) where
  toReads := Reads.resolvePassword environ parsedPassword typed
  later := Later.onProcess (Process.Calls.resolvePassword environ parsedPassword typed)
  returns := by
    intro s hs _ _ _
    apply onProcess_total
    exact Process.resolvePassword_total hs.quiet environ parsedPassword typed

theorem loadKeyset (inst : Installation H) (args : DecryptArgs) :
    Supplies (loadKeyset inst args) fun files => keysetAt inst files args := by
  have hpassword := resolvePassword args.environ args.password args.typed
  exact hpassword.bind fun password => (readFile args.key).bind fun keyBytes => onRuntime
    (importKeysetBytes inst.env inst.kdf keyBytes (.str password))

end Supplies

theorem Disk.Calls.atomicWrite (dest : Destination) (data : Bytes)
    {afterwards : Eff Exc Files Unit} (hafter : Eff.Keeps Disk.Calls afterwards) :
    Eff.Keeps Disk.Calls
      (atomicWrite dest (fun fd => Disk.write osErrors fd data) afterwards) := by
  apply Eff.Keeps.bind Disk.Calls.trans (Disk.Calls.makeTempInDir dest)
  intro made
  apply Eff.Keeps.tryCatch Disk.Calls.trans
  · apply Eff.Keeps.bind Disk.Calls.trans
    · apply Eff.Keeps.bind Disk.Calls.trans Disk.Calls.call
      intro _
      apply Eff.Keeps.tryFinally Disk.Calls.trans
      · apply Eff.Keeps.bind Disk.Calls.trans (Disk.Calls.write osErrors _ data)
        intro _
        apply Eff.Keeps.bind Disk.Calls.trans (Disk.Calls.flush osErrors _)
        intro _
        exact Disk.Calls.tolerating Disk.Calls.call
      · exact Disk.Calls.close _
    intro _
    apply Eff.Keeps.bind Disk.Calls.trans (Disk.Calls.replace osErrors _ _)
    intro _
    exact hafter
  · intro e
    apply Eff.Keeps.bind Disk.Calls.trans (Disk.Calls.discard _)
    intro _
    exact Eff.Keeps.raise Disk.Calls.refl e

theorem Saved.of_quiet {d : Files} (h : d.Quiet) {dest : Destination}
    (hfresh : d.files (dest.temp (d.plan 0).suffix) = none) : Saved d.files dest d.plan where
  created := h 0
  fresh := hfresh
  restricted := by rw [tolerated, h 1]
  written := by
    refine ⟨h 2, h 3, h 4, ?_, h 6⟩
    have hsync : (Disk.after d.plan 2 3).raised = none := h 5
    rw [tolerated, hsync]
  replaced := h 7

/-- A file is written, and then comes what is to follow. -/
theorem atomicWrite_total {d : Files} (h : d.Quiet) {dest : Destination}
    (hfresh : d.files (dest.temp (d.plan 0).suffix) = none) (data : Bytes)
    {afterwards : Eff Exc Files Unit} {Q : Unit → Files → Prop}
    (hafter : Eff.Total afterwards (replaced d dest data) Q) :
    Eff.Total (atomicWrite dest (fun fd => Disk.write osErrors fd data) afterwards) d Q := by
  obtain ⟨_, d₁, hrun₁, hq⟩ := hafter
  obtain ⟨r, d', hrun, hatomic⟩ := atomicWrite_run dest data afterwards d
  cases hatomic with
  | kept unsaved _ => exact absurd (Saved.of_quiet h hfresh) unsaved
  | late _ raised _ =>
    rw [hrun₁] at raised
    cases raised
  | done _ returned =>
    rw [hrun₁] at returned
    cases returned
    exact Eff.Total.of_eq hrun hq

/-- A step that writes what `m` gives to `dest`: it returns if `m` does, and leaves every file as it
was if it raises. -/
structure Fulfils (dest : Destination) (x : Eff Exc Console Unit)
    (m : Contents → Eff Exc Runtime Bytes) : Prop where
  calls : Eff.Keeps Calls x
  returns : ∀ s : Console, s.Calm → ∀ content rt', (m s.disk.files).run s.rt = (.ok content, rt') →
    Eff.Total x s fun _ _ => True
  clean : ∀ s : Console, s.Calm → Eff.Post x s fun r s' => ∀ e, r = .error e →
    s'.disk.files = s.disk.files

namespace Fulfils

variable {α : Type} {dest : Destination}

theorem supplies_bind {x : Eff Exc Console α} {n : Contents → Eff Exc Runtime α}
    {f : α → Eff Exc Console Unit} {m : α → Contents → Eff Exc Runtime Bytes} (hx : Supplies x n)
    (hf : ∀ a, Fulfils dest (f a) (m a)) :
    Fulfils dest (x >>= f) fun files => n files >>= fun a => m a files where
  calls := Eff.Keeps.bind Calls.trans (hx.later.mono fun _ _ h => h.1) fun a => (hf a).calls
  returns := by
    intro s hs content rt' hrun
    obtain ⟨a, rt₁, hn, hm⟩ := Eff.bind_eq_ok.mp hrun
    apply Eff.Total.bind
    apply (hx.total hs hn).mono
    rintro _ s₁ ⟨rfl, hs₁, hfiles, hrt⟩
    rw [← hfiles, ← hrt] at hm
    exact (hf _).returns s₁ hs₁ content rt' hm
  clean := by
    intro s hs
    apply Eff.Post.bind
    rcases hrun : x.run s with ⟨r, s₁⟩
    have hsame : s₁.disk.files = s.disk.files := hx.same.of_eq hrun
    apply Eff.Post.of_eq hrun
    cases r with
    | error e =>
      intro _ _
      exact hsame
    | ok a =>
      apply ((hf a).clean s₁ ((hx.later.of_eq hrun).calm hsame hs)).mono
      intro r s' hclean e he
      rw [hclean e he, hsame]

theorem print {x : Eff Exc Console Unit} {m : Contents → Eff Exc Runtime Bytes}
    (hx : Fulfils dest x m) (line : String) :
    Fulfils dest (x >>= fun _ => Console.print line) m where
  calls := Eff.Keeps.bind Calls.trans hx.calls fun _ s => Process.Calls.print line s.toProcess
  returns := by
    intro s hs content rt' hm
    apply Eff.Total.bind
    apply ((hx.returns s hs content rt' hm).and_keeps hx.calls).mono
    rintro _ s₁ ⟨-, hcalls⟩
    exact (print_total (hcalls.quiet hs.quiet) line).mono fun _ _ _ => trivial
  clean := by
    intro s hs
    apply Eff.Post.bind
    rcases hrun : x.run s with ⟨r, s₁⟩
    apply Eff.Post.of_eq hrun
    cases r with
    | error e => exact (hx.clean s hs).elim hrun
    | ok _ =>
      apply (print_total ((hx.calls.of_eq hrun).quiet hs.quiet) line).post
      intro _ _ _ e he
      cases he

theorem transformFile {inputPath outputPath : Destination} {stream : Bool}
    {x : Eff Exc (World FileInput FileObject) Unit}
    {y : Eff Exc (World MemoryStream BytesSink) Unit} (hx : CalmStream x y)
    (f : Bytes → Eff Exc Runtime Bytes) :
    Fulfils outputPath (transformFile inputPath outputPath stream x f)
      fun files => transformed files inputPath stream y f := by
  cases stream with
  | true =>
    refine ⟨fun s => Host.Calls.streamFile hx inputPath outputPath s.host, ?_, ?_⟩
    · intro s hs content rt' hm
      obtain ⟨input, rt₁, hinput, hmemory⟩ := Eff.bind_eq_ok.mp hm
      obtain ⟨hfile, rfl⟩ := Prod.mk.inj hinput
      apply onHost_total
      exact Host.streamFile_total (s := s.host) hx hs.quiet hs.reads (hs.fresh outputPath 1)
        (fileBytes_eq_ok.mp hfile) hmemory
    · intro s hs
      exact Host.streamFile_clean hx inputPath outputPath (s := s.host) hs.quiet
  | false =>
    apply supplies_bind (m := fun input _ => f input) (Supplies.readFile inputPath)
    intro input
    have hf : Fulfils outputPath
        (Console.onRuntime (f input) >>= fun output => onDisk (atomicWriteBytes outputPath output))
        fun _ => f input >>= fun output => pure output := by
      apply supplies_bind (m := fun output _ => pure output) (Supplies.onRuntime (f input))
      intro output
      have htotal : ∀ s : Console, s.Calm →
          Eff.Total (onDisk (atomicWriteBytes outputPath output)) s fun _ _ => True := by
        intro s hs
        apply onDisk_total
        exact atomicWrite_total hs.quiet (hs.fresh outputPath 0) output
          (Eff.Total.of_eq rfl trivial)
      refine ⟨?_, fun s hs _ _ _ => htotal s hs, ?_⟩
      · intro s
        exact Disk.Calls.atomicWrite outputPath output (Eff.Keeps.pure Disk.Calls.refl _) s.disk
      · intro s hs
        apply (htotal s hs).post
        intro _ _ _ e he
        cases he
    rw [Eff.bind_pure] at hf
    exact hf

end Fulfils

section Transforms

variable (inst : Installation H)

theorem encryptCommand_fulfils (args : EncryptArgs) :
    Fulfils args.outputPath (encryptCommand inst args) fun files =>
      encryptContent inst files args := by
  apply Fulfils.supplies_bind (Supplies.checkPathAlias args.inputPath args.outputPath)
  intro _
  apply Fulfils.supplies_bind (Supplies.loadBundle args.bundle)
  intro bundle
  apply Fulfils.print
  exact Fulfils.transformFile (encryptStream_calmStream inst.env bundle _) _

theorem decryptCommand_fulfils (args : DecryptArgs) :
    Fulfils args.outputPath (decryptCommand inst args) fun files =>
      decryptContent inst files args := by
  apply Fulfils.supplies_bind (Supplies.checkPathAlias args.inputPath args.outputPath)
  intro _
  apply Fulfils.supplies_bind (Supplies.loadKeyset inst args)
  intro keyset
  apply Fulfils.print
  exact Fulfils.transformFile
    (decryptStream_calmStream inst.env keyset.privateHandles args.minProfile) _

theorem migrateCommand_fulfils (args : MigrateArgs) :
    Fulfils args.outputPath (migrateCommand inst args) fun files =>
      migrateContent inst files args := by
  apply Fulfils.supplies_bind (Supplies.checkPathAlias args.inputPath args.outputPath)
  intro _
  apply Fulfils.supplies_bind (Supplies.loadKeyset inst args.toDecryptArgs)
  intro keyset
  apply Fulfils.supplies_bind (Supplies.loadBundle args.newBundle)
  intro newBundle
  apply Fulfils.print
  exact Fulfils.transformFile
    (migrateStream_calmStream inst.env keyset.privateHandles newBundle args.minProfile) _

end Transforms

/-- A command returns if its outputs can be computed, and leaves every file as it was if it raises. -/
structure Obliges (inst : Installation H) (command : Command) : Prop where
  calls : Eff.Keeps Calls (command.run inst)
  returns : ∀ s : Console, s.Calm → ∀ outputs rt',
    (command.outputs inst s.disk.files).run s.rt = (.ok outputs, rt') →
      Eff.Total (command.run inst) s fun _ _ => True
  clean : ∀ s : Console, s.Calm → Eff.Post (command.run inst) s fun r s' => ∀ e, r = .error e →
    s'.disk.files = s.disk.files

theorem Fulfils.obliges {inst : Installation H} {command : Command} {dest : Destination}
    {m : Contents → Eff Exc Runtime Bytes} (h : Fulfils dest (command.run inst) m)
    (hm : ∀ files, command.outputs inst files = m files >>= fun content => pure [(dest, content)]) :
    Obliges inst command where
  calls := h.calls
  clean := h.clean
  returns := by
    intro s hs outputs rt' hrun
    rw [hm] at hrun
    obtain ⟨content, rt₁, hcontent, -⟩ := Eff.bind_eq_ok.mp hrun
    exact h.returns s hs content rt₁ hcontent

/-- A command that has read what it needs and then cannot fail. -/
theorem Supplies.obliges {α : Type} {inst : Installation H} {command : Command}
    {x : Eff Exc Console α} {n : Contents → Eff Exc Runtime α} {f : α → Eff Exc Console Unit}
    (outputs : α → List (Destination × Bytes)) (hx : Supplies x n)
    (hrun : command.run inst = x >>= f)
    (hm : ∀ files, command.outputs inst files = n files >>= fun a => pure (outputs a))
    (hcalls : ∀ a, Eff.Keeps Calls (f a))
    (hf : ∀ a (s : Console), s.Calm → Eff.Total (f a) s fun _ _ => True) :
    Obliges inst command where
  calls := by
    rw [hrun]
    exact Eff.Keeps.bind Calls.trans (hx.later.mono fun _ _ h => h.1) hcalls
  returns := by
    intro s hs _ rt' hout
    rw [hm] at hout
    obtain ⟨a, rt₁, hn, -⟩ := Eff.bind_eq_ok.mp hout
    rw [hrun]
    apply Eff.Total.bind
    apply (hx.total hs hn).mono
    rintro _ s₁ ⟨rfl, hs₁, -, -⟩
    exact hf _ s₁ hs₁
  clean := by
    intro s hs
    rw [hrun]
    apply Eff.Post.bind
    rcases hread : x.run s with ⟨r, s₁⟩
    have hsame : s₁.disk.files = s.disk.files := hx.same.of_eq hread
    apply Eff.Post.of_eq hread
    cases r with
    | error e =>
      intro _ _
      exact hsame
    | ok a =>
      apply (hf a s₁ ((hx.later.of_eq hread).calm hsame hs)).post
      intro _ _ _ e he
      cases he

namespace Supplies

theorem generatePair (inst : Installation H) (args : KeygenArgs) :
    Supplies (onProcess (generatePair inst args)) fun _ => newPair inst args := by
  have hsave : ∀ (keyset : KeySet H) (keysetBytes : Bytes), Supplies _ _ :=
    fun keyset keysetBytes => (Supplies.lift (serializePublicBundle keyset.publicBundle).encode).bind
      fun bundleBytes => Supplies.lift
        (.ok (NewPair.mk keyset.profile.profileId bundleBytes keysetBytes))
  have hkeys : ∀ password : PyStr, Supplies _ _ := fun password =>
    (Supplies.lift inst.policyEngine).bind fun engine =>
      (Supplies.onRuntime (establishKeys inst.env engine args.constraint false)).bind fun keyset =>
        (Supplies.onRuntime (exportKeysetBytes inst.env inst.kdf keyset (.str password)
          (args.kdf = "argon2id"))).bind (hsave keyset)
  have hwhole := (Supplies.resolvePassword args.environ args.password args.typed).bind hkeys
  unfold CryptoFlex.generatePair
  simp only [Console.onProcess_bind]
  exact hwhole

end Supplies

theorem savePair_calls (args : KeygenArgs) (pair : NewPair) :
    Eff.Keeps Process.Calls (savePair args pair) := by
  apply Eff.Keeps.bind Process.Calls.trans
  · apply Process.Calls.onDisk
    exact Disk.Calls.atomicWrite _ _ (Eff.Keeps.pure Disk.Calls.refl _)
  intro _
  apply Eff.Keeps.bind Process.Calls.trans
  · apply Process.Calls.onDisk
    exact Disk.Calls.atomicWrite _ _ (Disk.Calls.tolerating Disk.Calls.call)
  intro _
  apply Eff.Keeps.bind Process.Calls.trans (Process.Calls.print _)
  intro _
  exact Eff.Keeps.bind Process.Calls.trans (Process.Calls.print _) fun _ => Process.Calls.print _

theorem savePair_total (args : KeygenArgs) (pair : NewPair) {s : Console} (hs : s.Calm) :
    Eff.Total (savePair args pair) s.toProcess fun _ _ => True := by
  have hq₁ : (replaced s.disk args.bundle pair.bundle).Quiet :=
    Disk.Calls.quiet ⟨8, rfl⟩ hs.quiet
  have hfresh₁ : (replaced s.disk args.bundle pair.bundle).files
      (args.key.temp (s.disk.plan 8).suffix) = none := by
    have hne := args.bundle.path_ne_temp args.key (s.disk.plan 8).suffix
    exact (Function.update_of_ne hne.symm _ _).trans (hs.fresh args.key 8)
  have hq₂ : (replaced (replaced s.disk args.bundle pair.bundle) args.key pair.key).Quiet :=
    Disk.Calls.quiet ⟨8, rfl⟩ hq₁
  apply Eff.Total.bind
  apply Process.onDisk_total
  apply atomicWrite_total hs.quiet (hs.fresh args.bundle 0)
  refine Eff.Total.of_eq rfl ?_
  apply Eff.Total.bind
  apply Process.onDisk_total
  apply atomicWrite_total hq₁ hfresh₁
  apply (tolerating_call_total hq₂).mono
  rintro _ _ rfl
  have hq₃ : Disk.Quiet { (replaced (replaced s.disk args.bundle pair.bundle) args.key pair.key) with
      plan := Disk.after (replaced (replaced s.disk args.bundle pair.bundle) args.key pair.key).plan
        1 } := Disk.Calls.quiet ⟨1, rfl⟩ hq₂
  apply Eff.Total.bind
  apply (Process.print_total hq₃ _).mono
  intro _ p₁ hp₁
  apply Eff.Total.bind
  apply (Process.print_total hp₁ _).mono
  intro _ p₂ hp₂
  exact (Process.print_total hp₂ _).mono fun _ _ _ => trivial

theorem keygen_obliges (inst : Installation H) (args : KeygenArgs) :
    Obliges inst (.keygen args) := by
  have hrun : (Command.keygen args).run inst = onProcess (generatePair inst args) >>= fun pair =>
      onProcess (savePair args pair) := by
    rw [Command.run, keygen_eq, onProcess_bind]
  apply Supplies.obliges _ (Supplies.generatePair inst args) hrun (fun _ => rfl)
  · intro pair s
    exact savePair_calls args pair s.toProcess
  · intro pair s hs
    exact onProcess_total ((savePair_total args pair hs).mono fun _ _ _ => trivial)

theorem printAll_total (lines : List String) {s : Console} (hq : s.disk.Quiet) :
    Eff.Total (printAll lines) s fun _ _ => True := by
  induction lines generalizing s with
  | nil => exact Eff.Total.of_eq rfl trivial
  | cons line lines ih =>
    apply Eff.Total.bind
    apply (print_total hq line).mono
    intro _ s₁ hq₁
    exact ih hq₁

theorem printAll_calls (lines : List String) : Eff.Keeps Calls (printAll lines) := by
  induction lines with
  | nil => exact Eff.Keeps.pure (K := Calls) (fun s => Disk.Calls.refl s.disk) ()
  | cons line lines ih =>
    exact Eff.Keeps.bind Calls.trans (fun s => Process.Calls.print line s.toProcess) fun _ => ih

theorem infoCommand_obliges (inst : Installation H) (file : Destination) :
    Obliges inst (.info file) := by
  have hparse := (Supplies.readFile file).bind fun content =>
    Supplies.lift (CryptoflexHeader.fromBytes (content.take 65536))
  have hrun : (Command.info file).run inst = (onHost (Host.readFile file) >>= fun content =>
      Eff.lift (CryptoflexHeader.fromBytes (content.take 65536))) >>= fun parsed =>
        printAll (headerLines file parsed.1 parsed.2) := by
    rw [Eff.bind_assoc]
    rfl
  apply Supplies.obliges (fun _ => []) hparse hrun
  · intro files
    rw [Eff.bind_assoc]
    rfl
  · intro parsed
    exact printAll_calls _
  · intro parsed s hs
    exact printAll_total _ hs.quiet

section Main

variable (inst : Installation H)

theorem Command.obliges (command : Command) : Obliges inst command := by
  cases command with
  | keygen args => exact keygen_obliges inst args
  | encrypt args => exact (encryptCommand_fulfils inst args).obliges fun _ => rfl
  | decrypt args => exact (decryptCommand_fulfils inst args).obliges fun _ => rfl
  | migrate args => exact (migrateCommand_fulfils inst args).obliges fun _ => rfl
  | info file => exact infoCommand_obliges inst file

/-- The exit code and the files that a computation of the outputs calls for. -/
inductive CalmEnd (files : Contents) :
    Contents → Except Exc Nat → Except Exc (List (Destination × Bytes)) → Prop
  | stored {outputs : List (Destination × Bytes)} :
    CalmEnd files (store files outputs) (.ok 0) (.ok outputs)
  | refused {e : Exc} : CalmEnd files files (.ok 1) (.error e)

theorem Command.calm_end (command : Command) {s : Console} (hs : s.Calm) :
    Eff.Post (main inst command) s fun r s' => CalmEnd s.disk.files s'.disk.files r
      ((command.outputs inst s.disk.files).run s.rt).1 := by
  have hobliges := command.obliges inst
  have hends := command.main_ends inst s
  rcases hrun : (command.run inst).run s with ⟨r₁, s₁⟩
  have hclean := (hobliges.clean s hs).elim hrun
  have hcalls := hobliges.calls.of_eq hrun
  cases r₁ with
  | ok _ =>
    have hmain : (main inst command).run s = (.ok 0, s₁) :=
      Eff.tryCatch_ok (Eff.bind_ok hrun fun _ => (pure 0 : Eff Exc Console Nat)) _
    apply Eff.Post.of_eq hmain
    cases hends.elim hmain with
    | complete whole new =>
      obtain ⟨rt', houtputs⟩ := whole
      rw [houtputs, new]
      exact CalmEnd.stored
    | partway failed _ _ => exact absurd rfl failed
    | refused failed _ => exact absurd rfl failed
  | error e =>
    have hraised : (command.run inst >>= fun _ => (pure 0 : Eff Exc Console Nat)).run s =
        (.error e, s₁) := Eff.bind_error hrun _
    have hprint : Eff.Total (onProcess (Process.printError s!"Error: {e.text}")) s₁ fun _ _ => True :=
      onProcess_total ((Process.printError_total (hcalls.quiet hs.quiet) _).mono
        fun _ _ _ => trivial)
    obtain ⟨_, s₂, hreport, -⟩ := hprint
    have hsame : s₂.disk.files = s₁.disk.files :=
      (SameFiles.onProcess (CryptoFlex.SameFiles.printError s!"Error: {e.text}")).of_eq hreport
    have hmain : (main inst command).run s = (.ok 1, s₂) :=
      (Eff.tryCatch_error hraised _).trans (Eff.bind_ok hreport _)
    apply Eff.Post.of_eq hmain
    rcases houtputs : (command.outputs inst s.disk.files).run s.rt with ⟨_ | outputs, rt'⟩
    · rw [hsame, hclean e rfl]
      exact CalmEnd.refused
    · obtain ⟨_, _, hok, -⟩ := hobliges.returns s hs outputs rt' houtputs
      rw [hrun] at hok
      cases hok

/-- On a calm console a command does what can be computed in memory, and that only: it exits with 0
and stores the outputs if they can be computed, and else it exits with 1 and every file is as it
was. -/
theorem main_calm (command : Command) (s : Console) (hs : s.Calm) :
    Eff.Post (main inst command) s fun r s' => CalmEnd s.disk.files s'.disk.files r
      ((command.outputs inst s.disk.files).run s.rt).1 :=
  command.calm_end inst hs

end Main

theorem newPair_of_generatePair {inst : Installation H} {args : KeygenArgs} {pair : NewPair}
    {s : Console} {p : Process} (h : (generatePair inst args).run s.toProcess = (.ok pair, p)) :
    ∃ rt', (newPair inst args).run s.rt = (.ok pair, rt') := by
  have hread : (onProcess (generatePair inst args)).run s =
      (.ok pair, { s with toProcess := p }) := Eff.zoom_run h
  obtain ⟨rt', hnew, -⟩ := (Reads.generatePair inst args).mirrors s.disk.files s s.rt ⟨rfl, rfl⟩
    pair _ hread
  exact ⟨rt', hnew⟩

theorem keygen_outputs {inst : Installation H} {args : KeygenArgs} {pair : NewPair}
    {rt rt' : Runtime} (h : (newPair inst args).run rt = (.ok pair, rt')) (files : Contents) :
    ((Command.keygen args).outputs inst files).run rt = (.ok (pair.outputs args), rt') :=
  Eff.bind_ok h _

/-- Every system call goes well. -/
def calmDisk : Files := { files := fun _ => none, plan := fun _ => {} }

/-- A process with an empty disk, all of whose calls go well. -/
def calmConsole : Console := { rt := zeroRuntime, disk := calmDisk }

theorem calmConsole_calm : calmConsole.Calm where
  quiet _ := rfl
  reads _ := rfl
  fresh _ _ := rfl

theorem main_calm_keygen :
    Eff.Post (main zeroInstallation (.keygen zeroArgs)) calmConsole fun r s' =>
      r = .ok 0 ∧ (s'.disk.files zeroArgs.key.path).isSome := by
  obtain ⟨pair, p, hgenerate, -, -⟩ := generatePair_zero calmDisk
  have hprocess : { rt := zeroRuntime, disk := calmDisk } = calmConsole.toProcess := rfl
  rw [hprocess] at hgenerate
  obtain ⟨rt', hnew⟩ := newPair_of_generatePair hgenerate
  have houtputs := keygen_outputs hnew calmConsole.disk.files
  rcases hmain : (main zeroInstallation (.keygen zeroArgs)).run calmConsole with ⟨r, s'⟩
  have hend :=
    (main_calm zeroInstallation (.keygen zeroArgs) calmConsole calmConsole_calm).elim hmain
  rw [houtputs] at hend
  apply Eff.Post.of_eq hmain
  generalize s'.disk.files = files' at hend ⊢
  cases hend with
  | stored =>
    refine ⟨rfl, ?_⟩
    simp only [NewPair.outputs, store, Function.update_self]
    rfl

theorem Command.stores {inst : Installation H} (command : Command) {s : Console} (hs : s.Calm)
    {outputs : List (Destination × Bytes)} {rt' : Runtime}
    (h : (command.outputs inst s.disk.files).run s.rt = (.ok outputs, rt')) :
    Eff.Total (main inst command) s fun code s' =>
      code = 0 ∧ s'.disk.files = store s.disk.files outputs := by
  rcases hrun : (main inst command).run s with ⟨r, s'⟩
  have hend := (command.calm_end inst hs).elim hrun
  rw [h] at hend
  generalize hfiles : s'.disk.files = files' at hend
  cases hend with
  | stored => exact Eff.Total.of_eq hrun ⟨rfl, hfiles⟩

end CryptoFlex
