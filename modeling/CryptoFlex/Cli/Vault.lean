import CryptoFlex.Cli.Effects
import CryptoFlex.Lib.Transition

namespace CryptoFlex

open Lib

/-- What a file is known to be. Key pairs are numbered in the order of their generation. -/
inductive Doc
  | raw (content : Bytes)
  | bundle (pair : Nat)
  | key (pair : Nat) (password : PyStr)
  | sealed (pair : Nat) (stream : Bool) (inner : Doc)
  deriving DecidableEq

namespace Doc

/-- A file encrypted with the bundle in another. -/
def encrypted (stream : Bool) : Option Doc → Option Doc → Option Doc
  | some (bundle pair), some doc => some (sealed pair stream doc)
  | _, _ => none

/-- A file decrypted with the keys in another. -/
def decrypted (stream : Bool) (password : PyStr) : Option Doc → Option Doc → Option Doc
  | some (key pair password'), some (sealed pair' stream' doc) =>
    if pair = pair' ∧ password = password' ∧ stream = stream' then some doc else none
  | _, _ => none

theorem encrypted_eq_some {stream : Bool} {bundleDoc input : Option Doc} {doc : Doc} :
    encrypted stream bundleDoc input = some doc ↔
      ∃ pair inner, bundleDoc = some (bundle pair) ∧ input = some inner ∧
        doc = sealed pair stream inner := by
  constructor
  · intro h
    unfold encrypted at h
    split at h
    · cases h
      exact ⟨_, _, rfl, rfl, rfl⟩
    · cases h
  · rintro ⟨pair, inner, rfl, rfl, rfl⟩
    rfl

theorem decrypted_eq_some {stream : Bool} {password : PyStr} {keyDoc input : Option Doc}
    {doc : Doc} : decrypted stream password keyDoc input = some doc ↔
      ∃ pair, keyDoc = some (key pair password) ∧ input = some (sealed pair stream doc) := by
  constructor
  · intro h
    unfold decrypted at h
    split at h
    · split at h
      · next hsame =>
        obtain ⟨rfl, rfl, rfl⟩ := hsame
        cases h
        exact ⟨_, rfl, rfl⟩
      · cases h
    · cases h
  · rintro ⟨pair, rfl, rfl⟩
    simp [decrypted]

end Doc

/-- How many key pairs there are, and which files are known. -/
structure Vault where
  pairs : Nat
  docs : Path → Option Doc

namespace Vault

/-- Files before the tool is used. -/
def start (files : Contents) : Vault where
  pairs := 0
  docs p := (files p).map .raw

/-- What a command that does its work puts into its output files. -/
def outputs (v : Vault) : Command → List (Destination × Option Doc)
  | .keygen args => [(args.bundle, some (.bundle v.pairs)),
      (args.key, some (.key v.pairs (chosenPassword args.environ args.password args.typed)))]
  | .encrypt args => [(args.outputPath,
      Doc.encrypted args.stream (v.docs args.bundle.path) (v.docs args.inputPath.path))]
  | .decrypt args => [(args.outputPath,
      Doc.decrypted args.stream (chosenPassword args.environ args.password args.typed)
        (v.docs args.key.path) (v.docs args.inputPath.path))]
  | .migrate args => [(args.outputPath, Doc.encrypted args.stream (v.docs args.newBundle.path)
      (Doc.decrypted args.stream (chosenPassword args.environ args.password args.typed)
        (v.docs args.key.path) (v.docs args.inputPath.path)))]
  | .info _ => []

def put (docs : Path → Option Doc) : List (Destination × Option Doc) → Path → Option Doc
  | [] => docs
  | (dest, doc) :: outputs => put (Function.update docs dest.path doc) outputs

/-- The first `n` outputs of the command in their places. -/
def after (v : Vault) (command : Command) (n : Nat) : Vault where
  pairs := match command with
    | .keygen _ => v.pairs + 1
    | _ => v.pairs
  docs := put v.docs ((v.outputs command).take n)

end Vault

/-- What happens to the files: commands, each in a process of its own, and what other programs
do. -/
inductive FileEvent
  | command (command : Command) (succeeded : Bool)
  | write (path : Path) (content : Bytes)
  | copy (source target : Path)
  | remove (path : Path)

/-- The event is no command that failed. -/
def FileEvent.succeeded : FileEvent → Bool
  | command _ succeeded => succeeded
  | _ => true

/-- A command that succeeds does all of its work; one that fails does some of it or none. -/
inductive Vault.Step : Vault → FileEvent → Vault → Prop
  | succeeded {v : Vault} {command : Command} :
    Step v (.command command true) (v.after command (v.outputs command).length)
  | failed {v : Vault} {command : Command} (n : Nat) :
    Step v (.command command false) (v.after command n)
  | refused {v : Vault} {command : Command} : Step v (.command command false) v
  | write {v : Vault} {path : Path} {content : Bytes} : Step v (.write path content)
    { v with docs := Function.update v.docs path (some (.raw content)) }
  | copy {v : Vault} {source target : Path} : Step v (.copy source target)
    { v with docs := Function.update v.docs target (v.docs source) }
  | remove {v : Vault} {path : Path} : Step v (.remove path)
    { v with docs := Function.update v.docs path none }

namespace Vault

/-- The vault after an event in which no command fails. -/
def next (v : Vault) : FileEvent → Vault
  | .command command _ => v.after command (v.outputs command).length
  | .write path content => { v with docs := Function.update v.docs path (some (.raw content)) }
  | .copy source target => { v with docs := Function.update v.docs target (v.docs source) }
  | .remove path => { v with docs := Function.update v.docs path none }

theorem Step.eq_next {v v' : Vault} {e : FileEvent} (h : Step v e v')
    (he : e.succeeded = true) : v' = v.next e := by
  cases h with
  | succeeded => rfl
  | failed n => cases he
  | refused => cases he
  | write => rfl
  | copy => rfl
  | remove => rfl

/-- Where no command fails, what happened determines the vault. -/
theorem runs_eq {v v' : Vault} {es : List FileEvent} (h : Runs Step v es v')
    (hes : es.all FileEvent.succeeded = true) : v' = es.foldl next v := by
  induction h with
  | nil => rfl
  | cons first _ ih =>
    rw [List.all_cons, Bool.and_eq_true] at hes
    rw [ih hes.2, first.eq_next hes.1, List.foldl_cons]

end Vault

/-- The files of an event, where each command runs in any state of a process and in any way. -/
inductive Happens {H : Type} (inst : Installation H) : Contents → FileEvent → Contents → Prop
  | command {command : Command} {succeeded : Bool} {s s' : Console} {r : Except Exc Nat}
    (run : (main inst command).run s = (r, s')) (exitCode : succeeded = true ↔ r = .ok 0) :
    Happens inst s.disk.files (.command command succeeded) s'.disk.files
  | write {files : Contents} {path : Path} {content : Bytes} :
    Happens inst files (.write path content) (Function.update files path (some content))
  | copy {files : Contents} {source target : Path} :
    Happens inst files (.copy source target) (Function.update files target (files source))
  | remove {files : Contents} {path : Path} :
    Happens inst files (.remove path) (Function.update files path none)

end CryptoFlex
