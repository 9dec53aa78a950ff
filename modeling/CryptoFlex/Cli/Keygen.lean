import CryptoFlex.Cli.Files
import CryptoFlex.Keystore.RoundTrip

namespace CryptoFlex

open Lib

variable {H : Type}

/-- What a command runs on: the package's state, the disk, and the lines printed so far. -/
structure Process where
  rt : Runtime
  disk : Files
  stdout : List String := []
  stderr : List String := []

namespace Process

def onRuntime {α : Type} (x : Eff Exc Runtime α) : Eff Exc Process α :=
  Eff.zoom (·.rt) (fun rt s => { s with rt }) x

def onDisk {α : Type} (x : Eff Exc Files α) : Eff Exc Process α :=
  Eff.zoom (·.disk) (fun disk s => { s with disk }) x

/-- `print(line)`. -/
def print (line : String) : Eff Exc Process Unit := do
  onDisk Disk.call
  Eff.modify fun s => { s with stdout := s.stdout ++ [line] }

/-- `print(line, file=sys.stderr)`. -/
def printError (line : String) : Eff Exc Process Unit := do
  onDisk Disk.call
  Eff.modify fun s => { s with stderr := s.stderr ++ [line] }

end Process

open Process

/-- The installed package: its profiles and primitives, its password hashing, and what
`PolicyEngine()` gives. -/
structure Installation (H : Type) where
  env : Env H
  kdf : PasswordKdf
  policyEngine : Except Exc PolicyEngine

/-- The command line of `keygen`, CRYPTOFLEX_PASSWORD, and what is typed at the prompt. -/
structure KeygenArgs where
  key : Destination
  bundle : Destination
  password : Option PyStr := none
  kdf : String := "argon2id"
  constraint : Constraint := .balanced
  environ : Option PyStr := none
  typed : PyStr := ""

/-- `_resolve_password`. -/
def resolvePassword (environ parsedPassword : Option PyStr) (typed : PyStr) :
    Eff Exc Process PyStr :=
  match environ.filter (fun envPw => !envPw.isEmpty), parsedPassword with
  | some envPw, _ => return envPw
  | none, some parsedPassword => do
    printError ("WARNING: --password visible in process list. " ++
      "Use CRYPTOFLEX_PASSWORD env var or omit for interactive prompt.")
    return parsedPassword
  | none, none => do
    -- getpass.getpass
    onDisk Disk.call
    return typed

/-- The new key pair, as it is to be saved. -/
structure NewPair where
  profileId : PyStr
  bundle : Bytes
  key : Bytes

/-- The part of `keygen` that works in memory only. -/
def generatePair (inst : Installation H) (args : KeygenArgs) : Eff Exc Process NewPair := do
  let password ← resolvePassword args.environ args.password args.typed
  let engine ← Eff.lift inst.policyEngine
  let keyset ← onRuntime (establishKeys inst.env engine args.constraint false)
  let bundleJson := serializePublicBundle keyset.publicBundle
  let useArgon2 := args.kdf = "argon2id"
  let keysetBytes ←
    onRuntime (exportKeysetBytes inst.env inst.kdf keyset (.str password) useArgon2)
  let bundleBytes ← Eff.lift bundleJson.encode
  return { profileId := keyset.profile.profileId, bundle := bundleBytes, key := keysetBytes }

def keygen (inst : Installation H) (args : KeygenArgs) : Eff Exc Process Unit := do
  let pair ← generatePair inst args
  onDisk (atomicWriteBytes args.bundle pair.bundle)
  -- the key file takes its place, then os.chmod
  onDisk (atomicWrite args.key (fun fd => Disk.write osErrors fd pair.key)
    (tolerating Disk.call))
  print s!"Keypair generated under profile '{pair.profileId}' (KDF: {args.kdf})."
  print s!"  Public bundle saved to: {args.bundle.given}"
  print s!"  Encrypted key saved to: {args.key.given}"

/-- `main` on the `keygen` command: the exit code. -/
def mainKeygen (inst : Installation H) (args : KeygenArgs) : Eff Exc Process Nat :=
  Eff.tryCatch (do
    keygen inst args
    return 0) fun e => do
    printError s!"Error: {e.text}"
    return 1

/-- A frame condition: every file has the content it had. -/
def SameFiles (s s' : Process) : Prop := s'.disk.files = s.disk.files

namespace SameFiles

theorem refl (s : Process) : SameFiles s s := rfl

theorem trans (s s' s'' : Process) (h : SameFiles s s') (h' : SameFiles s' s'') :
    SameFiles s s'' := Eq.trans h' h

theorem onRuntime {α : Type} (x : Eff Exc Runtime α) : Eff.Keeps SameFiles (onRuntime x) :=
  fun _ => rfl

theorem call : Eff.Keeps SameFiles (onDisk Disk.call) := fun _ => rfl

theorem printError (line : String) : Eff.Keeps SameFiles (printError line) := by
  apply Eff.Keeps.bind trans call
  intro _
  exact Eff.Keeps.modify refl

theorem resolvePassword (environ parsedPassword : Option PyStr) (typed : PyStr) :
    Eff.Keeps SameFiles (resolvePassword environ parsedPassword typed) := by
  unfold CryptoFlex.resolvePassword
  split
  · exact Eff.Keeps.pure refl _
  · apply Eff.Keeps.bind trans (printError _)
    intro _
    exact Eff.Keeps.pure refl _
  · apply Eff.Keeps.bind trans call
    intro _
    exact Eff.Keeps.pure refl _

theorem generatePair (inst : Installation H) (args : KeygenArgs) :
    Eff.Keeps SameFiles (generatePair inst args) := by
  apply Eff.Keeps.bind trans (resolvePassword _ _ _)
  intro password
  apply Eff.Keeps.bind trans (Eff.Keeps.lift refl _)
  intro engine
  apply Eff.Keeps.bind trans (onRuntime _)
  intro keyset
  apply Eff.Keeps.bind trans (onRuntime _)
  intro keysetBytes
  apply Eff.Keeps.bind trans (Eff.Keeps.lift refl _)
  intro bundleBytes
  exact Eff.Keeps.pure refl _

end SameFiles

/-- The command replaces both files by the new pair, or leaves both as they were. -/
structure PairAllOrNothing (inst : Installation H) (args : KeygenArgs) (s : Process)
    (r : Except Exc Nat) (s' : Process) : Prop where
  succeeded : r = .ok 0 → ∃ pair s₁, (generatePair inst args).run s = (.ok pair, s₁) ∧
    s'.disk.files args.bundle.path = some pair.bundle ∧
    s'.disk.files args.key.path = some pair.key
  failed : r ≠ .ok 0 → s'.disk.files args.bundle.path = s.disk.files args.bundle.path ∧
    s'.disk.files args.key.path = s.disk.files args.key.path
  /-- A bundle that this call has put on the disk has its private keys saved beside it. -/
  paired : ∀ pair s₁, (generatePair inst args).run s = (.ok pair, s₁) →
    s'.disk.files args.bundle.path = some pair.bundle →
    s.disk.files args.bundle.path ≠ some pair.bundle →
    s'.disk.files args.key.path = some pair.key

/-- The steps behind the replacement of the key file: its chmod, and three lines printed. -/
structure Announced (plan : Nat → Outcome Exc) : Prop where
  restricted : tolerated (plan 0) = .ok ()
  profile : (plan 1).raised = none
  bundle : (plan 2).raised = none
  key : (plan 3).raised = none

/-- The bundle's own steps all go through, a later step raises, and the pair is not what the disk
held before. -/
inductive Torn (args : KeygenArgs) (pair : NewPair) (d : Files) : Prop
  | keyUnsaved (bundle : Saved d.files args.bundle d.plan)
    (key : ¬Saved d.files args.key (Disk.after d.plan 8))
    (new : d.files args.bundle.path ≠ some pair.bundle) : Torn args pair d
  | unannounced (bundle : Saved d.files args.bundle d.plan)
    (key : Saved d.files args.key (Disk.after d.plan 8))
    (late : ¬Announced (Disk.after d.plan 16))
    (new : ¬(d.files args.bundle.path = some pair.bundle ∧
      d.files args.key.path = some pair.key)) : Torn args pair d

theorem print_of_none {s : Process} (h : (s.disk.plan 0).raised = none) (line : String) :
    ∃ s', (print line).run s = (.ok (), s') ∧ SameFiles s s' ∧
      s'.disk.plan = Disk.after s.disk.plan 1 := by
  have hcall : (onDisk Disk.call).run s =
      (.ok (), { s with disk := { s.disk with plan := Disk.after s.disk.plan 1 } }) := by
    rw [onDisk, Eff.run_zoom, Disk.call_run, Outcome.result_of_none h]
  exact ⟨_, Eff.bind_ok hcall _, rfl, rfl⟩

theorem print_of_some {s : Process} {e : Exc} (h : (s.disk.plan 0).raised = some e)
    (line : String) : ∃ s', (print line).run s = (.error e, s') ∧ SameFiles s s' := by
  have hcall : (onDisk Disk.call).run s =
      (.error e, { s with disk := { s.disk with plan := Disk.after s.disk.plan 1 } }) := by
    rw [onDisk, Eff.run_zoom, Disk.call_run, Outcome.result_of_some h]
  exact ⟨_, Eff.bind_error hcall _, rfl⟩

/-- The three lines at the end are printed without touching a file. -/
theorem announce_run (a b c : String) (s : Process) : ∃ r s',
    (do print a; print b; print c : Eff Exc Process Unit).run s = (r, s') ∧ SameFiles s s' ∧
      (r = .ok () ↔ (s.disk.plan 0).raised = none ∧ (s.disk.plan 1).raised = none ∧
        (s.disk.plan 2).raised = none) := by
  cases h₀ : (s.disk.plan 0).raised with
  | some e =>
    obtain ⟨s₁, hrun, hsame⟩ := print_of_some h₀ a
    exact ⟨_, s₁, Eff.bind_error hrun _, hsame, by simp⟩
  | none =>
  obtain ⟨s₁, hrun₁, hsame₁, hplan₁⟩ := print_of_none h₀ a
  have hnext₁ : s₁.disk.plan 0 = s.disk.plan 1 := by rw [hplan₁]; rfl
  rw [Eff.bind_ok hrun₁]
  cases h₁ : (s.disk.plan 1).raised with
  | some e =>
    rw [← hnext₁] at h₁
    obtain ⟨s₂, hrun, hsame⟩ := print_of_some h₁ b
    exact ⟨_, s₂, Eff.bind_error hrun _, SameFiles.trans _ _ _ hsame₁ hsame, by simp⟩
  | none =>
  rw [← hnext₁] at h₁
  obtain ⟨s₂, hrun₂, hsame₂, hplan₂⟩ := print_of_none h₁ b
  have hnext₂ : s₂.disk.plan 0 = s.disk.plan 2 := by rw [hplan₂, hplan₁]; rfl
  have hsame₁₃ : ∀ s₃, SameFiles s₂ s₃ → SameFiles s s₃ := by
    intro s₃ hsame₃
    exact SameFiles.trans _ _ _ (SameFiles.trans _ _ _ hsame₁ hsame₂) hsame₃
  rw [Eff.bind_ok hrun₂]
  cases h₂ : (s.disk.plan 2).raised with
  | some e =>
    rw [← hnext₂] at h₂
    obtain ⟨s₃, hrun, hsame⟩ := print_of_some h₂ c
    exact ⟨_, s₃, hrun, hsame₁₃ _ hsame, by simp⟩
  | none =>
    rw [← hnext₂] at h₂
    obtain ⟨s₃, hrun₃, hsame₃, -⟩ := print_of_none h₂ c
    exact ⟨_, s₃, hrun₃, hsame₁₃ _ hsame₃, by simp⟩

/-- Both files as they were. -/
def Unchanged (args : KeygenArgs) (d d' : Files) : Prop :=
  d'.files args.bundle.path = d.files args.bundle.path ∧
    d'.files args.key.path = d.files args.key.path

/-- Both files replaced. -/
def Holds (args : KeygenArgs) (pair : NewPair) (d : Files) : Prop :=
  d.files args.bundle.path = some pair.bundle ∧ d.files args.key.path = some pair.key

/-- What `keygen` does once the bundle is in place. -/
def saveKey (args : KeygenArgs) (pair : NewPair) : Eff Exc Process Unit := do
  onDisk (atomicWrite args.key (fun fd => Disk.write osErrors fd pair.key)
    (tolerating Disk.call))
  print s!"Keypair generated under profile '{pair.profileId}' (KDF: {args.kdf})."
  print s!"  Public bundle saved to: {args.bundle.given}"
  print s!"  Encrypted key saved to: {args.key.given}"

/-- The second half of `keygen`. -/
def savePair (args : KeygenArgs) (pair : NewPair) : Eff Exc Process Unit := do
  onDisk (atomicWriteBytes args.bundle pair.bundle)
  saveKey args pair

theorem keygen_eq (inst : Installation H) (args : KeygenArgs) :
    keygen inst args = generatePair inst args >>= savePair args := rfl

theorem process_onRuntime_ok {α : Type} {x : Eff Exc Runtime α} {rt rt' : Runtime} {a : α}
    (h : x.run rt = (.ok a, rt')) (s : Process) (hs : s.rt = rt) :
    (onRuntime x).run s = (.ok a, { s with rt := rt' }) := by
  subst hs
  rw [onRuntime, Eff.run_zoom, h]

theorem onDisk_ok {α : Type} {x : Eff Exc Files α} {s : Process} {a : α} {d' : Files}
    (h : x.run s.disk = (.ok a, d')) : (onDisk x).run s = (.ok a, { s with disk := d' }) := by
  rw [onDisk, Eff.run_zoom, h]

theorem onDisk_error {α : Type} {x : Eff Exc Files α} {s : Process} {e : Exc} {d' : Files}
    (h : x.run s.disk = (.error e, d')) :
    (onDisk x : Eff Exc Process α).run s = (.error e, { s with disk := d' }) := by
  rw [onDisk, Eff.run_zoom, h]

/-- The replacement of one file is nothing to the temporary names of another. -/
theorem saved_replaced (d : Files) (args : KeygenArgs) (pair : NewPair) :
    Saved (replaced d args.bundle pair.bundle).files args.key
        (replaced d args.bundle pair.bundle).plan ↔
      Saved d.files args.key (Disk.after d.plan 8) := by
  have htemp : ∀ n, (replaced d args.bundle pair.bundle).files (args.key.temp n) =
      d.files (args.key.temp n) := fun n =>
    Function.update_of_ne (Ne.symm (Destination.path_ne_temp args.bundle args.key n)) _ _
  constructor
  · rintro ⟨created, fresh, restricted, written, replaced⟩
    exact ⟨created, (htemp _).symm.trans fresh, restricted, written, replaced⟩
  · rintro ⟨created, fresh, restricted, written, replaced⟩
    exact ⟨created, (htemp _).trans fresh, restricted, written, replaced⟩

theorem torn_iff_of_unsaved {args : KeygenArgs} {pair : NewPair} {d : Files}
    (hb : Saved d.files args.bundle d.plan) (hk : ¬Saved d.files args.key (Disk.after d.plan 8)) :
    Torn args pair d ↔ d.files args.bundle.path ≠ some pair.bundle := by
  constructor
  · intro htorn
    cases htorn with
    | keyUnsaved _ _ new => exact new
    | unannounced _ key _ _ => exact absurd key hk
  · exact Torn.keyUnsaved hb hk

theorem torn_iff_of_saved {args : KeygenArgs} {pair : NewPair} {d : Files}
    (hb : Saved d.files args.bundle d.plan) (hk : Saved d.files args.key (Disk.after d.plan 8)) :
    Torn args pair d ↔ ¬Announced (Disk.after d.plan 16) ∧ ¬Holds args pair d := by
  constructor
  · intro htorn
    cases htorn with
    | keyUnsaved _ key _ => exact absurd hk key
    | unannounced _ _ late new => exact ⟨late, new⟩
  · rintro ⟨late, new⟩
    exact Torn.unannounced hb hk late new

/-- Once both files are replaced, they are unchanged just if they held the pair before. -/
theorem unchanged_iff_holds {args : KeygenArgs} {pair : NewPair} {d d' : Files}
    (h : Holds args pair d') : Unchanged args d d' ↔ Holds args pair d := by
  unfold Unchanged Holds
  rw [h.1, h.2]
  exact and_congr eq_comm eq_comm

/-- With the bundle in place, the key file stays as it was, or the pair is complete and perhaps
the command fails to say so. -/
theorem saveKey_run (args : KeygenArgs) (hne : args.bundle.path ≠ args.key.path) (pair : NewPair)
    (s : Process) (hb : s.disk.files args.bundle.path = some pair.bundle) :
    ∃ r s', (saveKey args pair).run s = (r, s') ∧
      ((∃ e, r = .error e) ∧ ¬Saved s.disk.files args.key s.disk.plan ∧
          Unchanged args s.disk s'.disk ∨
        Saved s.disk.files args.key s.disk.plan ∧ Holds args pair s'.disk ∧
          (r = .ok () ↔ Announced (Disk.after s.disk.plan 8))) := by
  have htemp : ∀ (dest dest' : Destination) n, dest.path ≠ dest'.temp n :=
    Destination.path_ne_temp
  let d₁ : Files := replaced s.disk args.key pair.key
  have hholds : Holds args pair d₁ :=
    ⟨(Function.update_of_ne hne _ _).trans hb, Function.update_self _ _ _⟩
  have hchmod : (tolerating Disk.call).run d₁ =
      (tolerated (s.disk.plan 8), { d₁ with plan := Disk.after d₁.plan 1 }) :=
    tolerating_run (Disk.call_run d₁)
  unfold saveKey
  obtain ⟨r, d', hrun, hatomic⟩ := atomicWrite_run args.key pair.key (tolerating Disk.call) s.disk
  cases hatomic with
  | @kept e _ unsaved files =>
    have hsame : Unchanged args s.disk d' := ⟨files _ (htemp _ _ _), files _ (htemp _ _ _)⟩
    exact ⟨_, _, Eff.bind_error (onDisk_error hrun) _, Or.inl ⟨⟨e, rfl⟩, unsaved, hsame⟩⟩
  | @late e e' d₂ _ saved raised files =>
    rw [hchmod] at raised
    obtain ⟨hraised, rfl⟩ := Prod.mk.inj raised
    have hholds' : Holds args pair d' :=
      ⟨(files _ (htemp _ _ _)).trans hholds.1, (files _ (htemp _ _ _)).trans hholds.2⟩
    refine ⟨_, _, Eff.bind_error (onDisk_error hrun) _, Or.inr ⟨saved, hholds', nofun, ?_⟩⟩
    intro h
    have hrestricted : tolerated (s.disk.plan 8) = .ok () := h.restricted
    rw [hraised] at hrestricted
    cases hrestricted
  | done saved returned =>
    rw [hchmod] at returned
    obtain ⟨hrestricted, rfl⟩ := Prod.mk.inj returned
    rw [Eff.bind_ok (onDisk_ok hrun)]
    obtain ⟨r', s', hprint, hsame, hr'⟩ := announce_run
      s!"Keypair generated under profile '{pair.profileId}' (KDF: {args.kdf})."
      s!"  Public bundle saved to: {args.bundle.given}"
      s!"  Encrypted key saved to: {args.key.given}"
      { s with disk := { d₁ with plan := Disk.after d₁.plan 1 } }
    have hholds' : Holds args pair s'.disk := by
      have hfiles : s'.disk.files = d₁.files := hsame
      unfold Holds
      rw [hfiles]
      exact hholds
    refine ⟨r', s', hprint, Or.inr ⟨saved, hholds', ?_⟩⟩
    rw [hr']
    exact ⟨fun h => ⟨hrestricted, h.1, h.2.1, h.2.2⟩, fun h => ⟨h.profile, h.bundle, h.key⟩⟩

/-- `keygen` saves the pair, or raises; then the files are unchanged just if it was not torn. -/
theorem savePair_run (args : KeygenArgs) (hne : args.bundle.path ≠ args.key.path) (pair : NewPair)
    (s : Process) : ∃ r s', (savePair args pair).run s = (r, s') ∧
      (r = .ok () ∧ Holds args pair s'.disk ∧ ¬Torn args pair s.disk ∨
        (∃ e, r = .error e) ∧ (Unchanged args s.disk s'.disk ↔ ¬Torn args pair s.disk)) := by
  unfold savePair
  rcases atomicWriteBytes_run args.bundle pair.bundle s.disk with
    ⟨hbundle, hrun⟩ | ⟨hunsaved, e, d', hrun, hsame⟩
  swap
  · refine ⟨_, _, Eff.bind_error (onDisk_error hrun) _, Or.inr ⟨⟨e, rfl⟩, ?_⟩⟩
    have hkept : ∀ dest : Destination, d'.files dest.path = s.disk.files dest.path :=
      fun dest => hsame _ (Destination.path_ne_temp dest _ _)
    refine iff_of_true ⟨hkept _, hkept _⟩ ?_
    intro htorn
    cases htorn with
    | keyUnsaved bundle _ _ => exact hunsaved bundle
    | unannounced bundle _ _ _ => exact hunsaved bundle
  rw [Eff.bind_ok (onDisk_ok hrun)]
  let d₁ : Files := replaced s.disk args.bundle pair.bundle
  have hb₁ : d₁.files args.bundle.path = some pair.bundle := Function.update_self _ _ _
  have hk₁ : d₁.files args.key.path = s.disk.files args.key.path :=
    Function.update_of_ne (Ne.symm hne) _ _
  have hplan : Disk.after d₁.plan 8 = Disk.after s.disk.plan 16 :=
    Disk.after_after s.disk.plan 8 8
  obtain ⟨r, s', hkey, ⟨hraised, hunsaved, hsame⟩ | ⟨hsaved, hholds, hr⟩⟩ :=
    saveKey_run args hne pair { s with disk := d₁ } hb₁
  · refine ⟨r, s', hkey, Or.inr ⟨hraised, ?_⟩⟩
    have hb' : s'.disk.files args.bundle.path = some pair.bundle := hsame.1.trans hb₁
    have hk' : s'.disk.files args.key.path = s.disk.files args.key.path := hsame.2.trans hk₁
    rw [torn_iff_of_unsaved hbundle fun hk => hunsaved ((saved_replaced _ _ _).mpr hk), not_not]
    unfold Unchanged
    rw [hb', hk']
    exact ⟨fun h => h.1.symm, fun h => ⟨h.symm, rfl⟩⟩
  · refine ⟨r, s', hkey, ?_⟩
    have hlate : r = .ok () ↔ Announced (Disk.after s.disk.plan 16) := by
      rw [← hplan]
      exact hr
    rw [unchanged_iff_holds hholds, torn_iff_of_saved hbundle ((saved_replaced _ _ _).mp hsaved),
      ← hlate]
    cases r with
    | ok _ => exact Or.inl ⟨rfl, hholds, fun h => h.1 rfl⟩
    | error e =>
      refine Or.inr ⟨⟨e, rfl⟩, ?_⟩
      have hraised : ¬((.error e : Except Exc Unit) = .ok ()) := nofun
      tauto

theorem mainKeygen_of_ok {inst : Installation H} {args : KeygenArgs} {s s' : Process}
    (h : (keygen inst args).run s = (.ok (), s')) :
    (mainKeygen inst args).run s = (.ok 0, s') := by
  have hbody := Eff.bind_ok h fun _ => (pure 0 : Eff Exc Process Nat)
  exact Eff.tryCatch_ok hbody _

/-- A command that raises reports the exception and touches no file any more. -/
theorem mainKeygen_of_error {inst : Installation H} {args : KeygenArgs} {s s' : Process} {e : Exc}
    (h : (keygen inst args).run s = (.error e, s')) :
    ∃ r s'', (mainKeygen inst args).run s = (r, s'') ∧ r ≠ .ok 0 ∧ SameFiles s' s'' := by
  have hbody := Eff.bind_error h fun _ => (pure 0 : Eff Exc Process Nat)
  have hprint := SameFiles.printError s!"Error: {e.text}"
  unfold mainKeygen
  rw [Eff.tryCatch_error hbody]
  rcases hreport : (printError s!"Error: {e.text}").run s' with ⟨_ | _, s''⟩
  · exact ⟨_, _, Eff.bind_error hreport _, nofun, hprint.of_eq hreport⟩
  · exact ⟨_, _, Eff.bind_ok hreport _, nofun, hprint.of_eq hreport⟩

/-- On failure the rest of `PairAllOrNothing` follows from the files being unchanged. -/
theorem allOrNothing_of_failed {inst : Installation H} {args : KeygenArgs} {s s' : Process}
    {r : Except Exc Nat} (hr : r ≠ .ok 0) :
    PairAllOrNothing inst args s r s' ↔ Unchanged args s.disk s'.disk := by
  constructor
  · intro h
    exact h.failed hr
  · intro h
    refine ⟨fun hok => absurd hok hr, fun _ => h, ?_⟩
    intro pair s₁ _ hnew hold
    rw [h.1] at hnew
    exact absurd hnew hold

theorem mainKeygen_of_noPair {inst : Installation H} {args : KeygenArgs} {s s₁ : Process} {e : Exc}
    (hgenerate : (generatePair inst args).run s = (.error e, s₁)) :
    PairAllOrNothing inst args s ((mainKeygen inst args).run s).1 ((mainKeygen inst args).run s).2 := by
  have hsame : SameFiles s s₁ := (SameFiles.generatePair inst args).of_eq hgenerate
  have hkeygen : (keygen inst args).run s = (.error e, s₁) := Eff.bind_error hgenerate _
  obtain ⟨r, s', hrun, hr, hsame'⟩ := mainKeygen_of_error hkeygen
  have hfiles : s'.disk.files = s.disk.files := SameFiles.trans _ _ _ hsame hsame'
  rw [hrun, allOrNothing_of_failed hr]
  exact ⟨by rw [hfiles], by rw [hfiles]⟩

theorem mainKeygen_of_pair {inst : Installation H} {args : KeygenArgs}
    (hne : args.bundle.path ≠ args.key.path) {s s₁ : Process} {pair : NewPair}
    (hgenerate : (generatePair inst args).run s = (.ok pair, s₁)) :
    PairAllOrNothing inst args s ((mainKeygen inst args).run s).1 ((mainKeygen inst args).run s).2 ↔
      ¬Torn args pair s₁.disk := by
  have hsame : s₁.disk.files = s.disk.files :=
    (SameFiles.generatePair inst args).of_eq hgenerate
  obtain ⟨r, s₂, hsave, ⟨rfl, hholds, hwhole⟩ | ⟨⟨e, rfl⟩, hiff⟩⟩ := savePair_run args hne pair s₁
  · have hkeygen : (keygen inst args).run s = (.ok (), s₂) := by
      rw [keygen_eq, Eff.bind_ok hgenerate]
      exact hsave
    rw [mainKeygen_of_ok hkeygen]
    refine iff_of_true ⟨fun _ => ⟨pair, s₁, hgenerate, hholds⟩, fun h => absurd rfl h, ?_⟩ hwhole
    intro pair' s₁' heq _ _
    rw [hgenerate] at heq
    cases heq
    exact hholds.2
  · have hkeygen : (keygen inst args).run s = (.error e, s₂) := by
      rw [keygen_eq, Eff.bind_ok hgenerate]
      exact hsave
    obtain ⟨r, s', hrun, hr, hsame'⟩ := mainKeygen_of_error hkeygen
    have hfiles : s'.disk.files = s₂.disk.files := hsame'
    rw [hrun, allOrNothing_of_failed hr, ← hiff]
    unfold Unchanged
    rw [hfiles, hsame]

/-- `keygen` replaces the key pair all or nothing, except where the bundle has taken its place
when a later step raises. -/
theorem mainKeygen_allOrNothing_iff (inst : Installation H) (args : KeygenArgs)
    (hne : args.bundle.path ≠ args.key.path) (s : Process) :
    PairAllOrNothing inst args s ((mainKeygen inst args).run s).1 ((mainKeygen inst args).run s).2 ↔
      ∀ pair s₁, (generatePair inst args).run s = (.ok pair, s₁) → ¬Torn args pair s₁.disk := by
  rcases hgenerate : (generatePair inst args).run s with ⟨e | pair, s₁⟩
  · refine iff_of_true (mainKeygen_of_noPair hgenerate) ?_
    intro pair s₁' h
    cases h
  · rw [mainKeygen_of_pair hne hgenerate]
    constructor
    · intro h pair' s₁' heq
      cases heq
      exact h
    · intro h
      exact h pair s₁ rfl

def zeroInstallation : Installation (PrivateHandle Bytes Bytes) where
  env := xorEnv zeroTagAead
  kdf := padKdf
  policyEngine := .ok ⟨PolicyEngine.deprecatedMlkemTable⟩

/-- `keygen --key /keys/id.cflk --bundle /home/id.json`, the password in the environment. -/
def zeroArgs : KeygenArgs where
  key := { given := "/keys/id.cflk", dir := "/keys", name := "id.cflk" }
  bundle := { given := "/home/id.json", dir := "/home", name := "id.json" }
  environ := some "pw"

/-- An empty disk, on which `mkstemp` fails for the key file. -/
def noKeyDirectory : Files where
  files _ := none
  plan n := if n = 8 then { raised := some .osError } else {}

theorem zeroArgs_distinct : zeroArgs.bundle.path ≠ zeroArgs.key.path := by decide

theorem establishKeys_zeroArgs : ∃ keyset rt, (establishKeys zeroInstallation.env
      ⟨PolicyEngine.deprecatedMlkemTable⟩ zeroArgs.constraint false).run zeroRuntime =
        (.ok keyset, rt) ∧ rt.kdfPermits ≠ 0 ∧ keyset.publicBundle = zeroBundle ∧
      keyset.Consistent ∧ Serialized keyset.profile.sources keyset.privateHandles zeroEntries :=
  ⟨_, _, rfl, by decide, rfl, ⟨rfl, rfl, rfl⟩, zeroKeyset_serialized⟩

theorem generatePair_zero (disk : Files) : ∃ pair s₁,
    (generatePair zeroInstallation zeroArgs).run { rt := zeroRuntime, disk } = (.ok pair, s₁) ∧
      s₁.disk = disk ∧ pair.key.length ≤ maxKeystoreSize := by
  obtain ⟨keyset, rt, hkeys, hp, hzero, hconsistent, hentries⟩ := establishKeys_zeroArgs
  obtain ⟨bundleBytes, hbundle, -⟩ :=
    Json.encode_dumps (bundleJson_textual keyset.publicBundle) (some 2)
  have htext : (keyset.payload zeroEntries).Textual := keystoreJson_textual _ _ _
  obtain ⟨plaintext, hencode, -⟩ := Json.encode_dumps htext none
  have hplain := exportPlaintext_eq_ok.mpr ⟨hconsistent, zeroEntries, hentries, hencode⟩
  have haccepts : zeroInstallation.env.aead.Accepts plaintext := fun _ _ _ _ _ _ => ⟨_, rfl⟩
  have hpw : (Password.str "pw").encode = .ok [0x70, 0x77] := rfl
  have hkdf : zeroInstallation.kdf.Returns [0x70, 0x77] := padKdf_returns _
  obtain ⟨keysetBytes, rt', hexport⟩ := exportKeysetBytes_returns
    zeroTagAead_correct.toDocumented hplain haccepts hpw (by simp) hkdf
    (decide (zeroArgs.kdf = "argon2id")) hp
  have hsize : keysetBytes.length ≤ maxKeystoreSize := by
    obtain ⟨entries, -, -, hser, -, -, hlen, -⟩ :=
      exportKeysetBytes_sealed zeroTagAead_correct hexport
    rw [hlen, hser.unique hentries, KeySet.keystoreSize, hconsistent.profileId, hzero]
    exact zeroKeyset_size
  have hresolve : resolvePassword zeroArgs.environ zeroArgs.password zeroArgs.typed =
      pure (.text "pw") := rfl
  have hengine : (Eff.lift zeroInstallation.policyEngine : Eff Exc Process PolicyEngine) =
      pure ⟨PolicyEngine.deprecatedMlkemTable⟩ := rfl
  have hkeys' := process_onRuntime_ok hkeys { rt := zeroRuntime, disk } rfl
  have hexport' := process_onRuntime_ok hexport { rt, disk } rfl
  refine ⟨⟨keyset.profile.profileId, bundleBytes, keysetBytes⟩, { rt := rt', disk }, ?_, rfl, hsize⟩
  unfold generatePair
  rw [hresolve, Eff.pure_bind, hengine, Eff.pure_bind, Eff.bind_ok hkeys']
  dsimp only
  rw [Eff.bind_ok hexport', serializePublicBundle, hbundle]
  rfl

/-- The bundle is replaced, and then no key file can be created beside it. -/
theorem mainKeygen_noKeyDirectory :
    ¬PairAllOrNothing zeroInstallation zeroArgs { rt := zeroRuntime, disk := noKeyDirectory }
      ((mainKeygen zeroInstallation zeroArgs).run { rt := zeroRuntime, disk := noKeyDirectory }).1
      ((mainKeygen zeroInstallation zeroArgs).run
        { rt := zeroRuntime, disk := noKeyDirectory }).2 := by
  obtain ⟨pair, s₁, hgenerate, hdisk, -⟩ := generatePair_zero noKeyDirectory
  rw [mainKeygen_of_pair zeroArgs_distinct hgenerate, not_not, hdisk]
  refine Torn.keyUnsaved ⟨rfl, rfl, rfl, ⟨rfl, rfl, rfl, rfl, rfl⟩, rfl⟩ ?_ nofun
  intro hkey
  cases hkey.created

/-- An empty disk that is full. -/
def fullDisk : Files where
  files _ := none
  plan n := if n = 3 then { raised := some .osError } else {}

/-- The bundle cannot be written, and nothing is saved. -/
theorem mainKeygen_allOrNothing_fullDisk :
    PairAllOrNothing zeroInstallation zeroArgs { rt := zeroRuntime, disk := fullDisk }
      ((mainKeygen zeroInstallation zeroArgs).run { rt := zeroRuntime, disk := fullDisk }).1
      ((mainKeygen zeroInstallation zeroArgs).run { rt := zeroRuntime, disk := fullDisk }).2 := by
  apply (mainKeygen_allOrNothing_iff zeroInstallation zeroArgs zeroArgs_distinct _).mpr
  intro pair s₁ hgenerate htorn
  obtain ⟨pair', s₁', hgenerate', hdisk, -⟩ := generatePair_zero fullDisk
  rw [hgenerate'] at hgenerate
  cases hgenerate
  have hunsaved : ¬Saved s₁.disk.files zeroArgs.bundle s₁.disk.plan := by
    intro hsaved
    have hwritten := hsaved.written
    rw [hdisk] at hwritten
    cases hwritten.written
  cases htorn with
  | keyUnsaved bundle _ _ => exact hunsaved bundle
  | unannounced bundle _ _ _ => exact hunsaved bundle

end CryptoFlex
