import CryptoFlex.Api.MigrateFile
import CryptoFlex.Cli.Keygen

namespace CryptoFlex

open Lib

variable {H : Type}

/-- A process, and what the coming reads of its streams raise. -/
structure Console extends Process where
  reads : Nat → Option Exc := fun _ => none

namespace Console

def onProcess {α : Type} (x : Eff Exc Process α) : Eff Exc Console α :=
  Eff.zoom (·.toProcess) (fun p s => { s with toProcess := p }) x

def onRuntime {α : Type} (x : Eff Exc Runtime α) : Eff Exc Console α :=
  onProcess (Process.onRuntime x)

def onDisk {α : Type} (x : Eff Exc Files α) : Eff Exc Console α := onProcess (Process.onDisk x)

/-- The part that file and stream functions use. -/
def host (s : Console) : Host := { rt := s.rt, disk := s.disk, reads := s.reads }

def onHost {α : Type} (x : Eff Exc Host α) : Eff Exc Console α :=
  Eff.zoom host (fun h s => { s with rt := h.rt, disk := h.disk, reads := h.reads }) x

def print (line : String) : Eff Exc Console Unit := onProcess (Process.print line)

end Console

/-- Reading in text mode: "\r\n" and "\r" end a line as "\n" does. -/
def universalNewlines : List Char → List Char
  | [] => []
  | '\r' :: '\n' :: cs => '\n' :: universalNewlines cs
  | '\r' :: cs => '\n' :: universalNewlines cs
  | c :: cs => c :: universalNewlines cs

/-- The text of a file that is open in text mode. -/
def readText (content : Bytes) : Except Exc PyStr := do
  match ← PyStr.decode content with
  | .text s => return .text (String.ofList (universalNewlines s.toList))
  | .surrogates codes => return .surrogates codes

/-- `deserialize_public_bundle(f.read())` on what the file holds. -/
def readBundle (content : Bytes) : Except Exc PublicBundle := do
  let text ← readText content
  deserializePublicBundle text

/-- The comparison in `_check_path_alias`. Files have no other names than their paths here. -/
def refuseAlias (inputPath outputPath : Destination) : Except Exc Unit :=
  if inputPath.path = outputPath.path then
    .error (.valueError s!"input and output paths resolve to the same file: '{inputPath.given}'")
  else .ok ()

def checkPathAlias (inputPath outputPath : Destination) : Eff Exc Console Unit := do
  -- Path.resolve, for each of the two
  Console.onDisk Disk.call
  Console.onDisk Disk.call
  Eff.lift (refuseAlias inputPath outputPath)

namespace Host

/-- `with open(path, "rb") as f:` around `f.read()`. -/
def readFile (path : Destination) : Eff Exc Host Bytes :=
  withInput path fun fin => onDisk (Disk.read osErrors fin)

/-- `with open(path, "r", encoding="utf-8") as f:` around the parsing of a bundle. -/
def loadBundle (path : Destination) : Eff Exc Host PublicBundle :=
  withInput path fun fin => do
    let content ← onDisk (Disk.read osErrors fin)
    Eff.lift (readBundle content)

/-- `with os.fdopen(fd, "wb") as fout:` in `_atomic_stream_write`. -/
def writeTemp (fd : Nat) (writeFn : Nat → Eff Exc Host Unit) : Eff Exc Host Unit := do
  -- os.fdopen
  onDisk Disk.call
  Eff.tryFinally (do
    writeFn fd
    onDisk (Disk.flush osErrors fd)
    -- os.fsync
    onDisk (tolerating Disk.call))
    (onDisk (Disk.close fd))

/-- `_atomic_stream_write`, where `write_fn` uses the package and an open input beside its file. -/
def atomicStreamWrite (destPath : Destination) (writeFn : Nat → Eff Exc Host Unit) :
    Eff Exc Host Unit := do
  let (fd, tempPath) ← onDisk (makeTempInDir destPath)
  Eff.tryCatch (do
    writeTemp fd writeFn
    onDisk (Disk.replace osErrors tempPath destPath.path)) fun e => do
    onDisk (discard tempPath)
    Eff.raise e

/-- The chunked mode of a command: a stream function from the input to the output. -/
def streamFile (inputPath outputPath : Destination)
    (x : Eff Exc (World FileInput FileObject) Unit) : Eff Exc Host Unit :=
  withInput inputPath fun fin => atomicStreamWrite outputPath fun fout => onStreams fin fout x

end Host

structure EncryptArgs where
  inputPath : Destination
  outputPath : Destination
  bundle : Destination
  stream : Bool := false

/-- The command line of `decrypt`, CRYPTOFLEX_PASSWORD, and what is typed at the prompt. -/
structure DecryptArgs where
  inputPath : Destination
  outputPath : Destination
  key : Destination
  password : Option PyStr := none
  minProfile : Option PyStr := none
  stream : Bool := false
  environ : Option PyStr := none
  typed : PyStr := ""

/-- `migrate` takes a bundle beside what `decrypt` takes. -/
structure MigrateArgs extends DecryptArgs where
  newBundle : Destination

inductive Command
  | keygen (args : KeygenArgs)
  | encrypt (args : EncryptArgs)
  | decrypt (args : DecryptArgs)
  | migrate (args : MigrateArgs)
  | info (file : Destination)

section Commands

open Console

variable (inst : Installation H)

/-- How `encrypt`, `decrypt` and `migrate` write their output: chunk by chunk, or from the whole
input at once. -/
def transformFile (inputPath outputPath : Destination) (stream : Bool)
    (x : Eff Exc (World FileInput FileObject) Unit) (f : Bytes → Eff Exc Runtime Bytes) :
    Eff Exc Console Unit :=
  if stream then onHost (Host.streamFile inputPath outputPath x)
  else do
    let input ← onHost (Host.readFile inputPath)
    let output ← onRuntime (f input)
    onDisk (atomicWriteBytes outputPath output)

def encryptCommand (args : EncryptArgs) : Eff Exc Console Unit := do
  checkPathAlias args.inputPath args.outputPath
  let bundle ← onHost (Host.loadBundle args.bundle)
  transformFile args.inputPath args.outputPath args.stream (encryptStream inst.env bundle)
    fun plaintext => encrypt inst.env bundle plaintext
  print s!"Successfully encrypted '{args.inputPath.given}' -> '{args.outputPath.given}'"

/-- The key file of `decrypt` and `migrate`, opened. -/
def loadKeyset (args : DecryptArgs) : Eff Exc Console (KeySet H) := do
  let password ← onProcess (resolvePassword args.environ args.password args.typed)
  let keyBytes ← onHost (Host.readFile args.key)
  onRuntime (importKeysetBytes inst.env inst.kdf keyBytes (.str password))

def decryptCommand (args : DecryptArgs) : Eff Exc Console Unit := do
  checkPathAlias args.inputPath args.outputPath
  let keyset ← loadKeyset inst args
  transformFile args.inputPath args.outputPath args.stream
    (decryptStream inst.env keyset.privateHandles args.minProfile)
    fun blob => decrypt inst.env keyset.privateHandles blob args.minProfile
  print s!"Successfully decrypted '{args.inputPath.given}' -> '{args.outputPath.given}'"

def migrateCommand (args : MigrateArgs) : Eff Exc Console Unit := do
  checkPathAlias args.inputPath args.outputPath
  let keyset ← loadKeyset inst args.toDecryptArgs
  let newBundle ← onHost (Host.loadBundle args.newBundle)
  transformFile args.inputPath args.outputPath args.stream
    (migrateStream inst.env keyset.privateHandles newBundle args.minProfile)
    fun blob => migrate inst.env keyset.privateHandles blob newBundle args.minProfile
  print (s!"Successfully migrated '{args.inputPath.given}' to target bundle" ++
    s!" profile '{newBundle.profileId}' -> '{args.outputPath.given}'")

/-- `b.hex()`. -/
def hexText (b : Bytes) : String :=
  String.ofList (b.flatMap fun v =>
    [Nat.digitChar (v.toNat / 16), Nat.digitChar (v.toNat % 16)])

def ruler : String := "=================================================="

/-- The lines that `info` prints. -/
def headerLines (file : Destination) (header : CryptoflexHeader) (consumed : Nat) : List String :=
  [ruler, s!"  cryptoflex File Header Inspection: {file.given}", ruler,
    "Magic               : CFLX",
    s!"Header Version      : {header.version}",
    s!"Profile ID          : {header.profileId}",
    s!"Header Consumed     : {consumed} bytes"] ++
  (header.nonce.filter (· ≠ [])).toList.map (fun nonce =>
    s!"AES-GCM Base Nonce  : {hexText nonce}") ++
  [s!"Components ({header.components.length}):"] ++
  header.components.map (fun (algId, ct) => s!"  - {algId}: {ct.length} bytes ciphertext") ++
  [ruler]

def printAll : List String → Eff Exc Console Unit
  | [] => return ()
  | line :: lines => do
    print line
    printAll lines

def infoCommand (file : Destination) : Eff Exc Console Unit := do
  let content ← onHost (Host.readFile file)
  -- f.read(65536)
  let data := content.take 65536
  let (header, consumed) ← Eff.lift (CryptoflexHeader.fromBytes data)
  printAll (headerLines file header consumed)

def Command.run : Command → Eff Exc Console Unit
  | keygen args => onProcess (CryptoFlex.keygen inst args)
  | encrypt args => encryptCommand inst args
  | decrypt args => decryptCommand inst args
  | migrate args => migrateCommand inst args
  | info file => infoCommand file

/-- `main` behind the parsing of the arguments: the exit code. -/
def main (command : Command) : Eff Exc Console Nat :=
  Eff.tryCatch (do
    command.run inst
    return 0) fun e => do
    onProcess (Process.printError s!"Error: {e.text}")
    return 1

end Commands

end CryptoFlex
