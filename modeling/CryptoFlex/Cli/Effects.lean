import CryptoFlex.Cli.Outputs

namespace CryptoFlex

open Lib Console

variable {H : Type}

abbrev Contents := Path → Option Bytes

/-- What the file at `path` holds. -/
def fileBytes (files : Contents) (path : Destination) : Except Exc Bytes :=
  match files path.path with
  | some content => .ok content
  | none => .error .osError

theorem fileBytes_eq_ok {files : Contents} {path : Destination} {content : Bytes} :
    fileBytes files path = .ok content ↔ files path.path = some content := by
  unfold fileBytes
  cases files path.path with
  | none => simp
  | some b => simp

def bundleAt (files : Contents) (path : Destination) : Except Exc PublicBundle := do
  let content ← fileBytes files path
  readBundle content

/-- The password that `_resolve_password` settles for. -/
def chosenPassword (environ parsedPassword : Option PyStr) (typed : PyStr) : PyStr :=
  match environ.filter (fun envPw => !envPw.isEmpty), parsedPassword with
  | some envPw, _ => envPw
  | none, some parsedPassword => parsedPassword
  | none, none => typed

section Meaning

variable (inst : Installation H) (files : Contents)

def keysetAt (args : DecryptArgs) : Eff Exc Runtime (KeySet H) := do
  let keyBytes ← Eff.lift (fileBytes files args.key)
  importKeysetBytes inst.env inst.kdf keyBytes
    (.str (chosenPassword args.environ args.password args.typed))

/-- The output for an input file, in either mode. -/
def transformed (inputPath : Destination) (stream : Bool)
    (y : Eff Exc (World MemoryStream BytesSink) Unit) (f : Bytes → Eff Exc Runtime Bytes) :
    Eff Exc Runtime Bytes := do
  let input ← Eff.lift (fileBytes files inputPath)
  if stream then inMemory y input else f input

def encryptContent (args : EncryptArgs) : Eff Exc Runtime Bytes := do
  Eff.lift (refuseAlias args.inputPath args.outputPath)
  let bundle ← Eff.lift (bundleAt files args.bundle)
  transformed files args.inputPath args.stream (encryptStream inst.env bundle)
    fun plaintext => encrypt inst.env bundle plaintext

def decryptContent (args : DecryptArgs) : Eff Exc Runtime Bytes := do
  Eff.lift (refuseAlias args.inputPath args.outputPath)
  let keyset ← keysetAt inst files args
  transformed files args.inputPath args.stream
    (decryptStream inst.env keyset.privateHandles args.minProfile)
    fun blob => decrypt inst.env keyset.privateHandles blob args.minProfile

def migrateContent (args : MigrateArgs) : Eff Exc Runtime Bytes := do
  Eff.lift (refuseAlias args.inputPath args.outputPath)
  let keyset ← keysetAt inst files args.toDecryptArgs
  let newBundle ← Eff.lift (bundleAt files args.newBundle)
  transformed files args.inputPath args.stream
    (migrateStream inst.env keyset.privateHandles newBundle args.minProfile)
    fun blob => migrate inst.env keyset.privateHandles blob newBundle args.minProfile

end Meaning

/-- A frame condition: every file has the content it had. -/
def Console.SameFiles (s s' : Console) : Prop := s'.disk.files = s.disk.files

namespace Console.SameFiles

theorem trans (s s' s'' : Console) (h : SameFiles s s') (h' : SameFiles s' s'') :
    SameFiles s s'' := Eq.trans h' h

theorem onProcess {α : Type} {x : Eff Exc Process α} (hx : Eff.Keeps CryptoFlex.SameFiles x) :
    Eff.Keeps SameFiles (onProcess x) := fun s => hx s.toProcess

theorem print (line : String) : Eff.Keeps SameFiles (print line) := by
  apply onProcess
  apply Eff.Keeps.bind CryptoFlex.SameFiles.trans CryptoFlex.SameFiles.call
  intro _
  exact Eff.Keeps.modify CryptoFlex.SameFiles.refl

theorem printAll (lines : List String) : Eff.Keeps SameFiles (printAll lines) := by
  induction lines with
  | nil => exact Eff.Keeps.pure (K := SameFiles) (fun _ => rfl) ()
  | cons line lines ih => exact Eff.Keeps.bind trans (print line) fun _ => ih

end Console.SameFiles

/-- The files of a console and its runtime, beside a runtime in memory. -/
def At (files : Contents) (s : Console) (rt : Runtime) : Prop := s.disk.files = files ∧ s.rt = rt

/-- `x` changes no file, and where it returns, `m` returns the same from what the files hold. -/
structure Reads {α : Type} (x : Eff Exc Console α) (m : Contents → Eff Exc Runtime α) : Prop where
  same : Eff.Keeps Console.SameFiles x
  mirrors : ∀ files, Eff.Mirrors (At files) x (m files)

namespace Reads

variable {α β : Type}

theorem bind {x : Eff Exc Console α} {m : Contents → Eff Exc Runtime α}
    {f : α → Eff Exc Console β} {n : α → Contents → Eff Exc Runtime β} (hx : Reads x m)
    (hf : ∀ a, Reads (f a) (n a)) :
    Reads (x >>= f) fun files => m files >>= fun a => n a files where
  same := Eff.Keeps.bind Console.SameFiles.trans hx.same fun a => (hf a).same
  mirrors files := (hx.mirrors files).bind fun a => (hf a).mirrors files

theorem lift (r : Except Exc α) : Reads (Eff.lift r) fun _ => Eff.lift r where
  same _ := rfl
  mirrors _ := Eff.Mirrors.lift r

/-- A step that leaves the runtime alone, too. -/
theorem of_post {x : Eff Exc Console α} {m : Contents → Except Exc α}
    (h : ∀ s, Eff.Post x s fun r s' => s'.rt = s.rt ∧ s'.disk.files = s.disk.files ∧
      ∀ a, r = .ok a → m s.disk.files = .ok a) : Reads x fun files => Eff.lift (m files) where
  same s := (h s).2.1
  mirrors := by
    rintro files s rt ⟨rfl, rfl⟩ a s' hrun
    obtain ⟨hrt, hfiles, hm⟩ := (h s).elim hrun
    refine ⟨s.rt, ?_, hfiles, hrt⟩
    rw [Eff.run_lift, hm a rfl]

theorem onRuntime (x : Eff Exc Runtime α) : Reads (Console.onRuntime x) fun _ => x where
  same _ := rfl
  mirrors := by
    rintro files s rt ⟨rfl, rfl⟩ a s' hrun
    obtain ⟨hok, rfl⟩ := Prod.mk.inj hrun
    exact ⟨_, Prod.ext hok rfl, rfl, rfl⟩

theorem checkPathAlias (inputPath outputPath : Destination) :
    Reads (checkPathAlias inputPath outputPath)
      fun _ => Eff.lift (refuseAlias inputPath outputPath) := by
  have hcall : Reads (Console.onDisk Disk.call) fun _ => Eff.lift (.ok ()) := by
    apply of_post
    intro s
    exact ⟨rfl, rfl, fun _ _ => rfl⟩
  exact hcall.bind fun _ => hcall.bind fun _ => lift _

theorem readFile (path : Destination) :
    Reads (onHost (Host.readFile path)) fun files => Eff.lift (fileBytes files path) := by
  apply of_post
  intro s
  obtain ⟨hrt, hfiles, hread⟩ := readInput_post path s.host
  refine ⟨hrt, hfiles, ?_⟩
  intro content hok
  exact fileBytes_eq_ok.mpr (hread content hok)

theorem loadBundle (path : Destination) :
    Reads (onHost (Host.loadBundle path)) fun files => Eff.lift (bundleAt files path) := by
  apply of_post
  intro s
  suffices h : Eff.Post (Host.loadBundle path) s.host fun r s' => s'.rt = s.rt ∧
      s'.disk.files = s.disk.files ∧ ∀ bundle, r = .ok bundle →
        bundleAt s.disk.files path = .ok bundle from h
  have hraised : ∀ e : Exc, ∀ bundle, (.error e : Except Exc PublicBundle) = .ok bundle →
      bundleAt s.disk.files path = .ok bundle := by
    intro e bundle h
    cases h
  apply withInput_post
  · intro e
    exact ⟨rfl, rfl, hraised e⟩
  intro hinput
  have hfin : (s.host.reading path.path).disk.handles[s.host.disk.handles.length]? =
      some (some { path := path.path }) := by
    simp [Host.reading]
  apply Eff.Post.bind
  apply Host.onDisk_post
  apply (Disk.read_post osErrors hfin).mono
  rintro (e | content) d ⟨rfl, hcontent⟩
  · exact ⟨hfin, fun e' => ⟨rfl, rfl, hraised e'⟩, rfl, rfl, hraised e⟩
  · have hfile : fileBytes s.disk.files path = .ok content :=
      fileBytes_eq_ok.mpr (hcontent content rfl)
    refine ⟨hfin, fun e' => ⟨rfl, rfl, hraised e'⟩, rfl, rfl, ?_⟩
    intro bundle hok
    rw [bundleAt, hfile, ok_bind]
    exact hok

theorem resolvePassword (environ parsedPassword : Option PyStr) (typed : PyStr) :
    Reads (onProcess (resolvePassword environ parsedPassword typed))
      fun _ => Eff.lift (.ok (chosenPassword environ parsedPassword typed)) := by
  apply of_post (m := fun _ => .ok (chosenPassword environ parsedPassword typed))
  intro s
  -- a step on the process, and then the password that is chosen anyway
  have hafter : ∀ (x : Eff Exc Process Unit) (password : PyStr),
      Eff.Keeps (fun p p' => p'.rt = p.rt ∧ p'.disk.files = p.disk.files) x →
      Eff.Post (x >>= fun _ => pure password) s.toProcess fun r p => p.rt = s.rt ∧
        p.disk.files = s.disk.files ∧
        ∀ chosen, r = .ok chosen → (.ok password : Except Exc PyStr) = .ok chosen := by
    intro x password hx
    apply Eff.Post.bind_keeps hx
    · intro _ p hsame _
      exact ⟨hsame.1, hsame.2, fun chosen hok => hok⟩
    · intro e p hsame
      exact ⟨hsame.1, hsame.2, fun chosen hok => by cases hok⟩
  have hcall : Eff.Keeps (fun p p' => p'.rt = p.rt ∧ p'.disk.files = p.disk.files)
      (Process.onDisk Disk.call) := fun p => ⟨rfl, rfl⟩
  have hwarn : ∀ line, Eff.Keeps (fun p p' => p'.rt = p.rt ∧ p'.disk.files = p.disk.files)
      (Process.printError line) := by
    intro line
    apply Eff.Keeps.bind (fun _ _ _ h h' => ⟨h'.1.trans h.1, h'.2.trans h.2⟩) hcall
    intro _
    exact Eff.Keeps.modify fun p => ⟨rfl, rfl⟩
  change Eff.Post (CryptoFlex.resolvePassword environ parsedPassword typed) s.toProcess fun r p =>
    p.rt = s.rt ∧ p.disk.files = s.disk.files ∧ ∀ password, r = .ok password →
      (.ok (chosenPassword environ parsedPassword typed) : Except Exc PyStr) = .ok password
  unfold CryptoFlex.resolvePassword chosenPassword
  cases environ.filter (fun envPw => !envPw.isEmpty) with
  | some envPw => exact ⟨rfl, rfl, fun chosen hok => hok⟩
  | none =>
    cases parsedPassword with
    | some parsedPassword => exact hafter (Process.printError _) parsedPassword (hwarn _)
    | none => exact hafter (Process.onDisk Disk.call) typed hcall

theorem loadKeyset (inst : Installation H) (args : DecryptArgs) :
    Reads (loadKeyset inst args) fun files => keysetAt inst files args := by
  have hpassword := resolvePassword args.environ args.password args.typed
  exact hpassword.bind fun password => (readFile args.key).bind fun keyBytes => onRuntime
    (importKeysetBytes inst.env inst.kdf keyBytes (.str password))

end Reads

/-- `m` gives the content, from what the files of `s` hold. -/
def Computes (m : Contents → Eff Exc Runtime Bytes) (s : Console) (content : Bytes) : Prop :=
  ∃ rt', (m s.disk.files).run s.rt = (.ok content, rt')

/-- `x` writes what `m` gives, to `dest` and nowhere else. -/
def Writes (dest : Destination) (x : Eff Exc Console Unit)
    (m : Contents → Eff Exc Runtime Bytes) : Prop :=
  ∀ s, Eff.Post x s fun r s' =>
    OutputEnd dest (Computes m s) s.disk.files s'.disk.files r

namespace Writes

variable {α : Type} {dest : Destination}

theorem reads_bind {x : Eff Exc Console α} {n : Contents → Eff Exc Runtime α}
    {f : α → Eff Exc Console Unit} {m : α → Contents → Eff Exc Runtime Bytes} (hx : Reads x n)
    (hf : ∀ a, Writes dest (f a) (m a)) :
    Writes dest (x >>= f) fun files => n files >>= fun a => m a files := by
  intro s
  apply Eff.Post.bind
  rcases hrun : x.run s with ⟨r, s₁⟩
  have hsame : s₁.disk.files = s.disk.files := hx.same.of_eq hrun
  apply Eff.Post.of_eq hrun
  cases r with
  | error e => exact OutputEnd.kept hsame
  | ok a =>
  obtain ⟨rt₁, hn, hfiles, hrt⟩ := hx.mirrors s.disk.files s s.rt ⟨rfl, rfl⟩ a s₁ hrun
  apply (hf a s₁).mono
  intro r s' hend
  apply OutputEnd.start hsame
  apply hend.mono
  rintro content ⟨rt', hm⟩
  rw [hfiles, hrt] at hm
  exact ⟨rt', (Eff.bind_ok hn _).trans hm⟩

theorem print {x : Eff Exc Console Unit} {m : Contents → Eff Exc Runtime Bytes}
    (hx : Writes dest x m) (line : String) : Writes dest (x >>= fun _ => Console.print line) m := by
  intro s
  apply Eff.Post.bind
  apply (hx s).mono
  rintro (e | _) s₁ hend
  · exact hend
  · rcases hprint : (Console.print line).run s₁ with ⟨r, s₂⟩
    have hsame : s₂.disk.files = s₁.disk.files := (Console.SameFiles.print line).of_eq hprint
    apply Eff.Post.of_eq hprint
    rw [hsame]
    cases r with
    | error e => exact hend.raise e
    | ok _ => exact hend

/-- Both modes write what the stream function or the blob function makes of the input file. -/
theorem transformFile {inputPath outputPath : Destination} {stream : Bool}
    {x : Eff Exc (World FileInput FileObject) Unit}
    {y : Eff Exc (World MemoryStream BytesSink) Unit} (hx : FileStream x y)
    (f : Bytes → Eff Exc Runtime Bytes) :
    Writes outputPath (transformFile inputPath outputPath stream x f)
      fun files => transformed files inputPath stream y f := by
  cases stream with
  | true =>
    intro s
    have hstream := Host.streamFile_post hx inputPath outputPath s.host
    change Eff.Post (Host.streamFile inputPath outputPath x) s.host fun r s' =>
      OutputEnd outputPath (Computes _ s) s.disk.files s'.disk.files r
    apply hstream.mono
    intro r s' hend
    apply hend.mono
    rintro content ⟨input, rt', hinput, hcontent⟩
    refine ⟨rt', ?_⟩
    have hfile : fileBytes s.disk.files inputPath = .ok input := fileBytes_eq_ok.mpr hinput
    simp only [transformed, hfile, Eff.run_lift_ok_bind]
    exact hcontent
  | false =>
    apply reads_bind (m := fun input _ => f input) (Reads.readFile inputPath)
    intro input
    have hf : Writes outputPath
        (Console.onRuntime (f input) >>= fun output => onDisk (atomicWriteBytes outputPath output))
        fun _ => f input >>= fun output => pure output := by
      apply reads_bind (m := fun output _ => pure output) (Reads.onRuntime (f input))
      intro output s
      have hends := (atomicWriteBytes_output outputPath output s.disk).ends
      change Eff.Post (atomicWriteBytes outputPath output) s.disk fun r d =>
        OutputEnd outputPath (Computes (fun _ => pure output) s) s.disk.files d.files r
      apply hends.mono
      intro r d hend
      apply (OutputEnd.of_replaced hend).mono
      rintro content rfl
      exact ⟨s.rt, rfl⟩
    rw [Eff.bind_pure] at hf
    exact hf

end Writes

section Transforms

variable (inst : Installation H)

theorem encryptCommand_writes (args : EncryptArgs) :
    Writes args.outputPath (encryptCommand inst args) fun files =>
      encryptContent inst files args := by
  apply Writes.reads_bind (Reads.checkPathAlias args.inputPath args.outputPath)
  intro _
  apply Writes.reads_bind (Reads.loadBundle args.bundle)
  intro bundle
  apply Writes.print
  exact Writes.transformFile (encryptStream_fileStream inst.env bundle _) _

theorem decryptCommand_writes (args : DecryptArgs) :
    Writes args.outputPath (decryptCommand inst args) fun files =>
      decryptContent inst files args := by
  apply Writes.reads_bind (Reads.checkPathAlias args.inputPath args.outputPath)
  intro _
  apply Writes.reads_bind (Reads.loadKeyset inst args)
  intro keyset
  apply Writes.print
  exact Writes.transformFile
    (decryptStream_fileStream inst.env keyset.privateHandles args.minProfile) _

theorem migrateCommand_writes (args : MigrateArgs) :
    Writes args.outputPath (migrateCommand inst args) fun files =>
      migrateContent inst files args := by
  apply Writes.reads_bind (Reads.checkPathAlias args.inputPath args.outputPath)
  intro _
  apply Writes.reads_bind (Reads.loadKeyset inst args.toDecryptArgs)
  intro keyset
  apply Writes.reads_bind (Reads.loadBundle args.newBundle)
  intro newBundle
  apply Writes.print
  exact Writes.transformFile
    (migrateStream_fileStream inst.env keyset.privateHandles newBundle args.minProfile) _

end Transforms

/-- The files with outputs put in their places, one after the other. -/
def store (files : Contents) : List (Destination × Bytes) → Contents
  | [] => files
  | (dest, content) :: outputs => store (Function.update files dest.path (some content)) outputs

/-- A new key pair, in memory. -/
def newPair (inst : Installation H) (args : KeygenArgs) : Eff Exc Runtime NewPair := do
  let password := chosenPassword args.environ args.password args.typed
  let engine ← Eff.lift inst.policyEngine
  let keyset ← establishKeys inst.env engine args.constraint false
  let keysetBytes ←
    exportKeysetBytes inst.env inst.kdf keyset (.str password) (args.kdf = "argon2id")
  let bundleBytes ← Eff.lift (serializePublicBundle keyset.publicBundle).encode
  return { profileId := keyset.profile.profileId, bundle := bundleBytes, key := keysetBytes }

/-- The files of a new key pair. -/
def NewPair.outputs (args : KeygenArgs) (pair : NewPair) : List (Destination × Bytes) :=
  [(args.bundle, pair.bundle), (args.key, pair.key)]

/-- The files that the command writes. -/
def Command.destinations : Command → List Destination
  | keygen args => [args.bundle, args.key]
  | encrypt args => [args.outputPath]
  | decrypt args => [args.outputPath]
  | migrate args => [args.outputPath]
  | info _ => []

/-- What the command writes there, from what the files hold. -/
def Command.outputs (inst : Installation H) (files : Contents) :
    Command → Eff Exc Runtime (List (Destination × Bytes))
  | keygen args => do
    let pair ← newPair inst args
    return pair.outputs args
  | encrypt args => do
    let content ← encryptContent inst files args
    return [(args.outputPath, content)]
  | decrypt args => do
    let content ← decryptContent inst files args
    return [(args.outputPath, content)]
  | migrate args => do
    let content ← migrateContent inst files args
    return [(args.outputPath, content)]
  | info file => do
    let content ← Eff.lift (fileBytes files file)
    let _ ← Eff.lift (CryptoflexHeader.fromBytes (content.take 65536))
    return []

/-- The same files, and perhaps a new temporary one beside an output. -/
inductive Littered (dests : List Destination) (files files' : Contents) : Prop
  | clean (same : files' = files) : Littered dests files files'
  | litter {dest : Destination} {temp : Path} (output : dest ∈ dests) (name : dest.IsTemp temp)
    (fresh : files temp = none) (others : ∀ q, q ≠ temp → files' q = files q) :
    Littered dests files files'

/-- How a command may leave the files, where `results` are the outputs it may compute: with all of
them in place; with the first few, after a failure; or without having computed them. -/
inductive CommandEnd (dests : List Destination) (results : List (Destination × Bytes) → Prop)
    (files files' : Contents) (succeeded : Prop) : Prop
  | complete {outputs : List (Destination × Bytes)} (whole : results outputs)
    (new : files' = store files outputs) : CommandEnd dests results files files' succeeded
  | partway {outputs : List (Destination × Bytes)} {n : Nat} (failed : ¬succeeded)
    (whole : results outputs) (some : Littered dests (store files (outputs.take n)) files') :
    CommandEnd dests results files files' succeeded
  | refused (failed : ¬succeeded) (none : Littered dests files files') :
    CommandEnd dests results files files' succeeded

theorem store_append (files : Contents) (outputs outputs' : List (Destination × Bytes)) :
    store files (outputs ++ outputs') = store (store files outputs) outputs' := by
  induction outputs generalizing files with
  | nil => rfl
  | cons output outputs ih => exact ih _

theorem Littered.mono {dests dests' : List Destination} {files files' : Contents}
    (hd : dests ⊆ dests') (h : Littered dests files files') : Littered dests' files files' := by
  cases h with
  | clean same => exact clean same
  | litter output name fresh others => exact litter (hd output) name fresh others

/-- All the outputs are in place, or the first few after a failure. -/
inductive Partly (outputs : List (Destination × Bytes)) (files files' : Contents) :
    Except Exc Unit → Prop
  | all (new : files' = store files outputs) : Partly outputs files files' (.ok ())
  | some {e : Exc} {n : Nat}
    (some : Littered (outputs.map Prod.fst) (store files (outputs.take n)) files') :
    Partly outputs files files' (.error e)

/-- `x` puts the outputs in their places. -/
def Stores {σ : Type} (files : σ → Contents) (x : Eff Exc σ Unit)
    (outputs : List (Destination × Bytes)) : Prop :=
  ∀ s, Eff.Post x s fun r s' => Partly outputs (files s) (files s') r

namespace Stores

variable {σ : Type} {files : σ → Contents} {outputs outputs' : List (Destination × Bytes)}

theorem bind {x : Eff Exc σ Unit} {f : Unit → Eff Exc σ Unit} (hx : Stores files x outputs)
    (hf : ∀ a, Stores files (f a) outputs') : Stores files (x >>= f) (outputs ++ outputs') := by
  intro s
  have hleft : outputs.map Prod.fst ⊆ (outputs ++ outputs').map Prod.fst := by
    simp
  have hright : outputs'.map Prod.fst ⊆ (outputs ++ outputs').map Prod.fst := by
    simp
  apply Eff.Post.bind
  apply (hx s).mono
  rintro (e | _) s₁ hfirst
  · cases hfirst with
    | @some _ n hsome =>
      have htake : (outputs ++ outputs').take (min n outputs.length) = outputs.take n := by
        rw [List.take_append_of_le_length (Nat.min_le_right _ _), ← List.take_take,
          List.take_length]
      rw [← htake] at hsome
      exact Partly.some (hsome.mono hleft)
  · cases hfirst with
    | all hnew =>
    apply (hf () s₁).mono
    intro r s₂ hsecond
    rw [hnew] at hsecond
    cases hsecond with
    | all hnew' => exact Partly.all (by rw [store_append, hnew'])
    | @some e n hsome =>
      rw [← store_append, ← List.take_length_add_append] at hsome
      exact Partly.some (hsome.mono hright)

/-- A step that leaves the files alone. -/
theorem of_same {x : Eff Exc σ Unit} (hx : Eff.Keeps (fun s s' => files s' = files s) x) :
    Stores files x [] := by
  intro s
  rcases hrun : x.run s with ⟨r, s'⟩
  have hsame : files s' = files s := hx.of_eq hrun
  apply Eff.Post.of_eq hrun
  cases r with
  | error e => exact Partly.some (n := 0) (Littered.clean hsame)
  | ok _ => exact Partly.all hsame

end Stores

theorem atomicWriteBytes_stores (destPath : Destination) (data : Bytes) :
    Stores (·.files) (atomicWriteBytes destPath data) [(destPath, data)] := by
  intro d
  apply (atomicWriteBytes_output destPath data d).ends.mono
  intro r d' hend
  cases hend with
  | returned whole new =>
    subst whole
    exact Partly.all new
  | raised same => exact Partly.some (n := 0) (Littered.clean same)
  | leftBehind _ name fresh others =>
    exact Partly.some (n := 0) (Littered.litter List.mem_cons_self name fresh others)

/-- The key file, with its chmod afterwards. -/
theorem atomicWrite_stores (destPath : Destination) (data : Bytes) :
    Stores (·.files) (atomicWrite destPath (fun fd => Disk.write osErrors fd data)
      (tolerating Disk.call)) [(destPath, data)] := by
  intro d
  obtain ⟨r, d', hrun, hatomic⟩ :=
    atomicWrite_run destPath data (tolerating Disk.call) d
  apply Eff.Post.of_eq hrun
  cases hatomic with
  | done saved returned =>
    rw [tolerating_call_run] at returned
    rw [← (Prod.mk.inj returned).2]
    exact Partly.all rfl
  | @late e e' d₁ _ saved raised files =>
    rw [tolerating_call_run] at raised
    rw [← (Prod.mk.inj raised).2] at files
    have hfresh : store d.files [(destPath, data)] (destPath.temp (d.plan 0).suffix) = none :=
      (Function.update_of_ne (Ne.symm (destPath.path_ne_temp destPath _)) _ _).trans saved.fresh
    exact Partly.some (n := 1) (Littered.litter List.mem_cons_self ⟨_, rfl⟩ hfresh files)
  | kept unsaved files =>
    by_cases hfresh : d.files (destPath.temp (d.plan 0).suffix) = none
    · exact Partly.some (n := 0) (Littered.litter List.mem_cons_self ⟨_, rfl⟩ hfresh files)
    · obtain ⟨e', hmkstemp⟩ := Disk.mkstemp_error osErrors destPath.temp fun h => hfresh h.2
      have hstart : (atomicWrite destPath (fun fd => Disk.write osErrors fd data)
          (tolerating Disk.call)).run d =
          (.error e', { d with plan := Disk.after d.plan 1 }) := by
        unfold atomicWrite makeTempInDir
        rw [Eff.bind_assoc]
        exact Eff.bind_error hmkstemp _
      rw [hrun] at hstart
      rw [(Prod.mk.inj hstart).2]
      exact Partly.some (n := 0) (Littered.clean rfl)

theorem savePair_stores (args : KeygenArgs) (pair : NewPair) :
    Stores (fun s : Process => s.disk.files) (savePair args pair) (pair.outputs args) := by
  have hprint : ∀ line, Eff.Keeps SameFiles (Process.print line) := by
    intro line
    apply Eff.Keeps.bind SameFiles.trans SameFiles.call
    intro _
    exact Eff.Keeps.modify SameFiles.refl
  have hannounce : ∀ a b c, Eff.Keeps SameFiles (do
      Process.print a
      Process.print b
      Process.print c) := by
    intro a b c
    apply Eff.Keeps.bind SameFiles.trans (hprint a)
    intro _
    exact Eff.Keeps.bind SameFiles.trans (hprint b) fun _ => hprint c
  have hbundle : Stores (fun s : Process => s.disk.files)
      (Process.onDisk (atomicWriteBytes args.bundle pair.bundle)) [(args.bundle, pair.bundle)] :=
    fun s => atomicWriteBytes_stores args.bundle pair.bundle s.disk
  have hkey : Stores (fun s : Process => s.disk.files)
      (Process.onDisk (atomicWrite args.key (fun fd => Disk.write osErrors fd pair.key)
        (tolerating Disk.call))) [(args.key, pair.key)] :=
    fun s => atomicWrite_stores args.key pair.key s.disk
  apply hbundle.bind
  intro _
  exact hkey.bind fun _ => Stores.of_same (hannounce _ _ _)

namespace Console

theorem onProcess_bind {α β : Type} (x : Eff Exc Process α) (f : α → Eff Exc Process β) :
    onProcess (x >>= f) = onProcess x >>= fun a => onProcess (f a) := by
  apply Eff.zoom_bind
  · intro p s
    rfl
  · intro p p' s
    rfl

end Console

theorem Reads.generatePair (inst : Installation H) (args : KeygenArgs) :
    Reads (onProcess (generatePair inst args)) fun _ => newPair inst args := by
  have hsave : ∀ (keyset : KeySet H) (keysetBytes : Bytes), Reads _ _ :=
    fun keyset keysetBytes => (Reads.lift (serializePublicBundle keyset.publicBundle).encode).bind
      fun bundleBytes => Reads.lift
        (.ok (NewPair.mk keyset.profile.profileId bundleBytes keysetBytes))
  have hkeys : ∀ password : PyStr, Reads _ _ := fun password =>
    (Reads.lift inst.policyEngine).bind fun engine =>
      (Reads.onRuntime (establishKeys inst.env engine args.constraint false)).bind fun keyset =>
        (Reads.onRuntime (exportKeysetBytes inst.env inst.kdf keyset (.str password)
          (args.kdf = "argon2id"))).bind (hsave keyset)
  have hwhole := (Reads.resolvePassword args.environ args.password args.typed).bind hkeys
  unfold CryptoFlex.generatePair
  simp only [Console.onProcess_bind]
  exact hwhole

section Ends

variable (inst : Installation H)

theorem keygen_end (args : KeygenArgs) (s : Console) :
    Eff.Post (onProcess (keygen inst args)) s fun r s' => CommandEnd [args.bundle, args.key]
      (fun outputs => ∃ rt', ((Command.keygen args).outputs inst s.disk.files).run s.rt =
        (.ok outputs, rt')) s.disk.files s'.disk.files (r = .ok ()) := by
  have hpair := Reads.generatePair inst args
  have hraised : ∀ e : Exc, (.error e : Except Exc Unit) ≠ .ok () := by simp
  rw [keygen_eq, Console.onProcess_bind]
  apply Eff.Post.bind
  rcases hrun : (onProcess (generatePair inst args)).run s with ⟨r, s₁⟩
  have hsame : s₁.disk.files = s.disk.files := hpair.same.of_eq hrun
  apply Eff.Post.of_eq hrun
  cases r with
  | error e => exact CommandEnd.refused (hraised e) (Littered.clean hsame)
  | ok pair =>
  obtain ⟨rt', hnew, -⟩ := hpair.mirrors s.disk.files s s.rt ⟨rfl, rfl⟩ pair s₁ hrun
  have hresults : ((Command.keygen args).outputs inst s.disk.files).run s.rt =
      (.ok (pair.outputs args), rt') := Eff.bind_ok hnew _
  have hstores : Eff.Post (savePair args pair) s₁.toProcess fun r p =>
      Partly (pair.outputs args) s₁.disk.files p.disk.files r :=
    savePair_stores args pair s₁.toProcess
  rw [hsame] at hstores
  apply Eff.Post.mono (x := onProcess (savePair args pair)) (Q := fun r s' =>
    Partly (pair.outputs args) s.disk.files s'.disk.files r) hstores
  intro r p hpartly
  cases hpartly with
  | all hall => exact CommandEnd.complete ⟨rt', hresults⟩ hall
  | @some e n hsome => exact CommandEnd.partway (hraised e) ⟨rt', hresults⟩ hsome

/-- A command that writes one file. -/
theorem Writes.command_end {dest : Destination} {x : Eff Exc Console Unit}
    {m : Contents → Eff Exc Runtime Bytes} (hx : Writes dest x m) (s : Console) :
    Eff.Post x s fun r s' => CommandEnd [dest]
      (fun outputs => ∃ rt', (m s.disk.files >>= fun content => pure [(dest, content)]).run s.rt =
        (.ok outputs, rt')) s.disk.files s'.disk.files (r = .ok ()) := by
  have hraised : ∀ e : Exc, (.error e : Except Exc Unit) ≠ .ok () := by simp
  apply (hx s).mono
  intro r s' hend
  cases hend with
  | saved whole new =>
    obtain ⟨rt', hrun⟩ := whole
    exact CommandEnd.complete ⟨rt', Eff.bind_ok hrun _⟩ new
  | @kept e same => exact CommandEnd.refused (hraised e) (Littered.clean same)
  | @leftBehind e temp name fresh others =>
    exact CommandEnd.refused (hraised e)
      (Littered.litter List.mem_cons_self name fresh others)

theorem infoCommand_end (file : Destination) (s : Console) :
    Eff.Post (infoCommand file) s fun r s' => CommandEnd []
      (fun outputs => ∃ rt', ((Command.info file).outputs inst s.disk.files).run s.rt =
        (.ok outputs, rt')) s.disk.files s'.disk.files (r = .ok ()) := by
  have hraised : ∀ e : Exc, (.error e : Except Exc Unit) ≠ .ok () := by simp
  have hreads := (Reads.readFile file).bind fun content =>
    Reads.lift (CryptoflexHeader.fromBytes (content.take 65536))
  unfold infoCommand
  dsimp only
  rw [← Eff.bind_assoc]
  apply Eff.Post.bind
  rcases hrun : (onHost (Host.readFile file) >>= fun content =>
    Eff.lift (CryptoflexHeader.fromBytes (content.take 65536))).run s with ⟨r, s₁⟩
  have hsame : s₁.disk.files = s.disk.files := hreads.same.of_eq hrun
  apply Eff.Post.of_eq hrun
  cases r with
  | error e => exact CommandEnd.refused (hraised e) (Littered.clean hsame)
  | ok parsed =>
  obtain ⟨rt', hparse, -⟩ := hreads.mirrors s.disk.files s s.rt ⟨rfl, rfl⟩ parsed s₁ hrun
  rcases hprint : (printAll (headerLines file parsed.1 parsed.2)).run s₁ with ⟨r, s₂⟩
  have hsame' : s₂.disk.files = s.disk.files :=
    Console.SameFiles.trans _ _ _ hsame ((Console.SameFiles.printAll _).of_eq hprint)
  apply Eff.Post.of_eq hprint
  have hresults : ((Command.info file).outputs inst s.disk.files).run s.rt = (.ok [], rt') := by
    have hdone := Eff.bind_ok hparse fun _ =>
      (pure [] : Eff Exc Runtime (List (Destination × Bytes)))
    rw [Eff.bind_assoc] at hdone
    exact hdone
  exact CommandEnd.complete ⟨rt', hresults⟩ hsame'

theorem Command.run_end (command : Command) (s : Console) :
    Eff.Post (command.run inst) s fun r s' => CommandEnd command.destinations
      (fun outputs => ∃ rt', (command.outputs inst s.disk.files).run s.rt = (.ok outputs, rt'))
      s.disk.files s'.disk.files (r = .ok ()) := by
  cases command with
  | keygen args => exact keygen_end inst args s
  | encrypt args => exact (encryptCommand_writes inst args).command_end s
  | decrypt args => exact (decryptCommand_writes inst args).command_end s
  | migrate args => exact (migrateCommand_writes inst args).command_end s
  | info file => exact infoCommand_end inst file s

/-- A command that raises reports the exception and touches no file any more. -/
theorem main_post {command : Command} {s : Console} {Q : Except Exc Unit → Console → Prop}
    (h : Eff.Post (command.run inst) s Q) : Eff.Post (main inst command) s fun r s' =>
      ∃ r₁ s₁, Q r₁ s₁ ∧ (r = .ok 0 ↔ r₁ = .ok ()) ∧ Console.SameFiles s₁ s' := by
  rcases hrun : (command.run inst).run s with ⟨r₁, s₁⟩
  have hq : Q r₁ s₁ := h.elim hrun
  unfold main
  apply Eff.Post.tryCatch
  cases r₁ with
  | ok _ =>
    apply Eff.Post.of_eq (Eff.bind_ok hrun fun _ => (pure 0 : Eff Exc Console Nat))
    exact ⟨_, s₁, hq, by simp, rfl⟩
  | error e =>
    apply Eff.Post.of_eq (Eff.bind_error hrun fun _ => (pure 0 : Eff Exc Console Nat))
    apply Eff.Post.bind
    rcases hprint : (onProcess (Process.printError s!"Error: {e.text}")).run s₁ with ⟨r, s₂⟩
    have hsame : Console.SameFiles s₁ s₂ :=
      (Console.SameFiles.onProcess (SameFiles.printError s!"Error: {e.text}")).of_eq hprint
    apply Eff.Post.of_eq hprint
    cases r with
    | error e' => exact ⟨_, s₁, hq, by simp, hsame⟩
    | ok _ => exact ⟨_, s₁, hq, by simp, hsame⟩

theorem Command.main_ends (command : Command) (s : Console) :
    Eff.Post (main inst command) s fun r s' => CommandEnd command.destinations
      (fun outputs => ∃ rt', (command.outputs inst s.disk.files).run s.rt = (.ok outputs, rt'))
      s.disk.files s'.disk.files (r = .ok 0) := by
  apply (main_post inst (command.run_end inst s)).mono
  rintro r s' ⟨r₁, s₁, hend, hr, hsame⟩
  have hfiles : s'.disk.files = s₁.disk.files := hsame
  rw [hfiles]
  cases hend with
  | complete whole new => exact CommandEnd.complete whole new
  | partway failed whole some => exact CommandEnd.partway (fun h => failed (hr.mp h)) whole some
  | refused failed none => exact CommandEnd.refused (fun h => failed (hr.mp h)) none

/-- However a command's calls go, its exit code is 0 only with every output in its place, whole and
as the library computes it in memory; otherwise the outputs that are in place are whole too, and
nothing else is new but one temporary file. -/
theorem main_end (command : Command) (s : Console) :
    Eff.Post (main inst command) s fun r s' => CommandEnd command.destinations
      (fun outputs => ∃ rt', (command.outputs inst s.disk.files).run s.rt = (.ok outputs, rt'))
      s.disk.files s'.disk.files (r = .ok 0) :=
  command.main_ends inst s

/-- `main` on `keygen` is the function that the key pair's own results are about. -/
theorem main_keygen (args : KeygenArgs) :
    main inst (.keygen args) = onProcess (mainKeygen inst args) := by
  have hcatch : ∀ (x : Eff Exc Process Nat) (k : Exc → Eff Exc Process Nat),
      onProcess (Eff.tryCatch x k) = Eff.tryCatch (onProcess x) fun e => onProcess (k e) := by
    intro x k
    apply Eff.zoom_tryCatch
    · intro p s
      rfl
    · intro p p' s
      rfl
  unfold mainKeygen
  simp only [hcatch, Console.onProcess_bind]
  rfl

end Ends

end CryptoFlex
