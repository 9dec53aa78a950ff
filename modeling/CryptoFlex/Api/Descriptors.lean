import CryptoFlex.Api.AtomicFiles

namespace CryptoFlex

open Lib Host

variable {H : Type}

/-- A frame condition: no descriptor is opened or closed. -/
def SameLedger (s s' : Host) : Prop := s'.disk.table = s.disk.table ∧ s'.closed = s.closed

namespace SameLedger

theorem refl (s : Host) : SameLedger s s := ⟨rfl, rfl⟩

theorem trans (s s' s'' : Host) (h : SameLedger s s') (h' : SameLedger s' s'') :
    SameLedger s s'' := ⟨h'.1.trans h.1, h'.2.trans h.2⟩

theorem onDisk {α : Type} {x : Eff Exc Files α} (hx : Eff.Keeps Disk.SameTable x) :
    Eff.Keeps SameLedger (onDisk x) := fun s => ⟨hx s.disk, rfl⟩

theorem onRuntime {α : Type} (x : Eff Exc Runtime α) : Eff.Keeps SameLedger (onRuntime x) :=
  fun _ => ⟨rfl, rfl⟩

theorem tolerating : Eff.Keeps SameLedger (Host.onDisk (tolerating Disk.call)) := by
  apply onDisk
  intro d
  rw [tolerating_call_run]
  rfl

theorem discard (temp : Path) : Eff.Keeps SameLedger (Host.onDisk (discard temp)) := by
  apply onDisk
  apply Eff.Keeps.tryCatch Disk.SameTable.trans (Disk.SameTable.unlink osErrors temp)
  intro e
  split
  · exact Eff.Keeps.pure Disk.SameTable.refl _
  · exact Eff.Keeps.raise Disk.SameTable.refl _

/-- `migrate_stream` neither closes its streams nor opens any. -/
theorem streams_outputFrame : OutputFrame fun w w' : World FileInput FileObject =>
    Disk.SameTable w.sink.disk w'.sink.disk where
  same := by
    intro w w' hsink _
    rw [hsink]
    exact Disk.SameTable.refl _
  trans _ _ _ := Disk.SameTable.trans _ _ _
  write := by
    intro b w
    have hkeeps : Eff.Keeps Disk.SameTable (Disk.write osErrors w.sink.fd b : Eff Exc Files Unit) :=
      Disk.SameTable.write osErrors b
    rcases hrun : (Disk.write osErrors w.sink.fd b).run w.sink.disk with ⟨r, d'⟩
    obtain ⟨n, hwrite, -⟩ := fileObject_write w hrun
    rw [hwrite]
    exact hkeeps.of_eq hrun

theorem onStreams (fin fd : Nat) {x : Eff Exc (World FileInput FileObject) Unit}
    (hx : Eff.Keeps (fun w w' : World FileInput FileObject =>
      Disk.SameTable w.sink.disk w'.sink.disk) x) : Eff.Keeps SameLedger (onStreams fin fd x) := by
  apply Eff.Keeps.bind trans (onDisk (Disk.SameTable.handle osErrors))
  intro input s
  exact ⟨hx _, rfl⟩

end SameLedger

/-- Since `s₀` descriptors were opened, of which `opened` tells whether they are open still, and
`shut` were closed, one after the other. -/
def Ledger (s₀ : Host) (opened : List Bool) (shut : List Nat) (s : Host) : Prop :=
  s.disk.table = s₀.disk.table ++ opened ∧ s.closed = s₀.closed ++ shut

namespace Ledger

variable {s₀ s s' : Host} {opened : List Bool} {shut : List Nat}

theorem start (s : Host) : Ledger s [] [] s := by
  constructor
  · rw [List.append_nil]
  · rw [List.append_nil]

theorem same (h : Ledger s₀ opened shut s) (h' : SameLedger s s') : Ledger s₀ opened shut s' :=
  ⟨h'.1.trans h.1, h'.2.trans h.2⟩

theorem close {i : Nat} (h : Ledger s₀ opened shut s) (hi : opened[i]? = some true) :
    Eff.Post (close (s₀.disk.table.length + i)) s fun _ s' =>
      Ledger s₀ (opened.set i false) (shut ++ [s₀.disk.table.length + i]) s' := by
  obtain ⟨htable, hclosed⟩ := h
  apply Eff.Post.of_eq (close_run _ s)
  have hopen : s.disk.table[s₀.disk.table.length + i]? = some true := by
    rw [htable, List.getElem?_append_right (Nat.le_add_right _ _), Nat.add_sub_cancel_left]
    exact hi
  constructor
  · change ((Disk.close _).run s.disk).2.table = _
    rw [Disk.close_table hopen, htable, List.set_append_right _ _ (Nat.le_add_right _ _),
      Nat.add_sub_cancel_left]
  · change s.closed ++ _ = _
    rw [hclosed, List.append_assoc]

theorem opening (handle : Handle Path) {d : Files} (h : Ledger s₀ opened shut s)
    (hd : d.handles = s.disk.handles ++ [some handle]) :
    Ledger s₀ (opened ++ [true]) shut { s with disk := d } := by
  obtain ⟨htable, hclosed⟩ := h
  refine ⟨?_, hclosed⟩
  change d.handles.map Option.isSome = _
  rw [hd, List.map_append, ← List.append_assoc, ← htable]
  rfl

theorem length (h : Ledger s₀ opened shut s) :
    s.disk.handles.length = s₀.disk.table.length + opened.length := by
  have hlen := congrArg List.length h.1
  rw [List.length_append] at hlen
  unfold Disk.table at hlen ⊢
  rw [List.length_map] at hlen
  exact hlen

/-- All that was opened is closed. -/
theorem isOpen_iff {n : Nat} (h : Ledger s₀ (List.replicate n false) shut s) (fd : Nat) :
    s.disk.IsOpen fd ↔ s₀.disk.IsOpen fd := by
  rw [Disk.isOpen_iff, Disk.isOpen_iff, h.1]
  by_cases hfd : fd < s₀.disk.table.length
  · rw [List.getElem?_append_left hfd]
  · rw [List.getElem?_append_right (by omega), List.getElem?_replicate,
      List.getElem?_eq_none (by omega)]
    split
    · simp
    · simp

/-- The first descriptor is open still. -/
theorem lost {rest : List Bool} (h : Ledger s₀ (true :: rest) shut s) :
    ¬∀ fd, s.disk.IsOpen fd ↔ s₀.disk.IsOpen fd := by
  intro hsame
  have hopen : s.disk.IsOpen s₀.disk.table.length := by
    rw [Disk.isOpen_iff, h.1, List.getElem?_append_right (Nat.le_refl _), Nat.sub_self]
    rfl
  have hold := (hsame _).mp hopen
  rw [Disk.isOpen_iff, List.getElem?_eq_none (Nat.le_refl _)] at hold
  cases hold

end Ledger

/-- Every descriptor opened since `s₀` is closed, and the first of them was closed once. -/
def Settled (s₀ s : Host) : Prop :=
  ∃ n shut, Ledger s₀ (List.replicate (n + 1) false) shut s ∧
    shut.count s₀.disk.table.length = 1

/-- The first descriptor opened since `s₀` is still open. -/
def Lost (s₀ s : Host) : Prop := ∃ rest shut, Ledger s₀ (true :: rest) shut s

theorem Settled.same {s₀ s s' : Host} (h : Settled s₀ s) (h' : SameLedger s s') :
    Settled s₀ s' := by
  obtain ⟨n, shut, hledger, hcount⟩ := h
  exact ⟨n, shut, hledger.same h', hcount⟩

theorem Lost.same {s₀ s s' : Host} (h : Lost s₀ s) (h' : SameLedger s s') : Lost s₀ s' := by
  obtain ⟨rest, shut, hledger⟩ := h
  exact ⟨rest, shut, hledger.same h'⟩

/-- The first descriptor opened since `s₀` is lost if it was `orphaned`, and otherwise all are
closed. -/
def Accounted (orphaned : Prop) (s₀ s : Host) : Prop :=
  (orphaned → Lost s₀ s) ∧ (¬orphaned → Settled s₀ s)

namespace Accounted

variable {s₀ s s' : Host} {p q : Prop}

theorem lost (hp : p) (h : Lost s₀ s) : Accounted p s₀ s := ⟨fun _ => h, fun hn => absurd hp hn⟩

theorem settled (hp : ¬p) (h : Settled s₀ s) : Accounted p s₀ s := ⟨fun ho => absurd ho hp, fun _ => h⟩

theorem same (h : Accounted p s₀ s) (h' : SameLedger s s') : Accounted p s₀ s' :=
  ⟨fun ho => (h.1 ho).same h', fun hn => (h.2 hn).same h'⟩

theorem congr (hpq : p ↔ q) (h : Accounted p s₀ s) : Accounted q s₀ s := by
  rw [← propext hpq]
  exact h

end Accounted

/-- What an `open` does to the descriptors. -/
def OpensFile (x : Eff Exc Files Nat) : Prop :=
  ∀ d, Eff.Post x d fun r d' => match r with
    | .ok fd => fd = d.handles.length ∧ ∃ handle, d'.handles = d.handles ++ [some handle]
    | .error _ => d'.handles = d.handles

theorem openRead_opens (path : Path) : OpensFile (Disk.openRead osErrors path) := by
  intro d
  apply (Disk.openRead_post osErrors d path).mono
  rintro (e | fd) d' h
  · rw [h.2]
  · obtain ⟨rfl, -, -, rfl⟩ := h
    exact ⟨rfl, _, rfl⟩

theorem openWrite_opens (path : Path) : OpensFile (Disk.openWrite path) := by
  intro d
  apply (Disk.openWrite_post d path).mono
  rintro (e | fd) d' h
  · rw [h]
  · obtain ⟨rfl, rfl⟩ := h
    exact ⟨rfl, _, rfl⟩

/-- A `with open(...)` block closes what it opened. -/
theorem Settled.within {α : Type} {x : Eff Exc Files Nat} (hx : OpensFile x)
    {body : Nat → Eff Exc Host α} (hbody : ∀ fd, Eff.Keeps SameLedger (body fd)) {s₀ s : Host}
    (h : Settled s₀ s) :
    Eff.Post (do
      let fd ← onDisk x
      Eff.tryFinally (body fd) (Host.close fd)) s fun _ s' => Settled s₀ s' := by
  obtain ⟨n, shut, hledger, hcount⟩ := h
  apply Eff.Post.bind
  apply onDisk_post
  apply (hx s.disk).mono
  rintro (e | fd) d hd
  · have hsame : SameLedger s { s with disk := d } := by
      refine ⟨?_, rfl⟩
      change d.handles.map Option.isSome = s.disk.handles.map Option.isSome
      rw [hd]
    exact ⟨n, shut, hledger.same hsame, hcount⟩
  obtain ⟨rfl, handle, hhandles⟩ := hd
  have hopened := hledger.opening handle hhandles
  have hlen := hledger.length
  rw [List.length_replicate] at hlen
  rw [hlen]
  apply Eff.Post.tryFinally
  rcases hrun : (body (s₀.disk.table.length + (n + 1))).run { s with disk := d } with ⟨r, s₁⟩
  have hledger₁ := hopened.same ((hbody _).of_eq hrun)
  apply Eff.Post.of_eq hrun
  have hlast : (List.replicate (n + 1) false ++ [true])[n + 1]? = some true := by
    simp
  have hset : (List.replicate (n + 1) false ++ [true]).set (n + 1) false =
      List.replicate (n + 2) false := by
    rw [List.set_append_right _ _ (by simp)]
    simp [List.replicate_succ']
  apply (hledger₁.close hlast).mono
  intro r' s₂ hledger₂
  rw [hset] at hledger₂
  have hsettled : Settled s₀ s₂ := by
    refine ⟨n + 1, _, hledger₂, ?_⟩
    rw [List.count_append, hcount, List.count_eq_zero.mpr (by simp)]
  cases r' with
  | ok _ => exact hsettled
  | error e => exact hsettled

section Branches

variable (env : Env H) (privateHandles : List H) (newBundle : PublicBundle)
  (minProfile : Option PyStr) {s₀ s : Host}

/-- The last steps before a close. -/
theorem SameLedger.finish (fd : Nat) : Eff.Keeps SameLedger (do
    Host.onDisk (Disk.flush osErrors fd)
    Host.onDisk (CryptoFlex.tolerating Disk.call)) := by
  apply Eff.Keeps.bind trans (onDisk (Disk.SameTable.flush osErrors))
  intro _
  exact tolerating

theorem migrateBlob_settles {inputPath : Destination} {temp : Path}
    (h : Ledger s₀ [true] [] s) :
    Eff.Post (migrateBlob env privateHandles inputPath newBundle minProfile s₀.disk.table.length
      temp) s fun _ s' => Settled s₀ s' := by
  have hread : ∀ fin, Eff.Keeps SameLedger (Host.onDisk (Disk.read osErrors fin)) :=
    fun _ => SameLedger.onDisk (Disk.SameTable.read osErrors)
  have hfill : ∀ migrated fout, Eff.Keeps SameLedger (do
      Host.onDisk (Disk.write osErrors fout migrated)
      Host.onDisk (Disk.flush osErrors fout)
      Host.onDisk (tolerating Disk.call)) := by
    intro migrated fout
    apply Eff.Keeps.bind SameLedger.trans
      (SameLedger.onDisk (Disk.SameTable.write osErrors migrated))
    intro _
    exact SameLedger.finish fout
  unfold migrateBlob
  apply Eff.Post.bind
  apply (h.close (i := 0) rfl).mono
  intro r s₁ hledger
  have hsettled : Settled s₀ s₁ := ⟨0, _, hledger, by simp⟩
  cases r with
  | error e => exact hsettled
  | ok _ =>
  apply Eff.Post.bind
  apply (hsettled.within (openRead_opens _) hread).mono
  rintro (e | blob) s₂ hsettled₂
  · exact hsettled₂
  apply Eff.Post.bind_keeps (SameLedger.onRuntime _)
  · intro migrated s₃ hsame _
    exact (hsettled₂.same hsame).within (openWrite_opens temp) (hfill migrated)
  · intro e s₃ hsame
    exact hsettled₂.same hsame

theorem fillChunks_ledger {opened : List Bool} {shut : List Nat} {i : Nat}
    (h : Ledger s₀ opened shut s) (hi : opened[i]? = some true) (fin : Nat) :
    Eff.Post (fillChunks env privateHandles newBundle minProfile fin
      (s₀.disk.table.length + i)) s fun _ s' =>
      ((s.disk.plan 0).raised ≠ none → Ledger s₀ opened shut s') ∧
        ((s.disk.plan 0).raised = none →
          Ledger s₀ (opened.set i false) (shut ++ [s₀.disk.table.length + i]) s') := by
  have hlater : Ledger s₀ opened shut s.later := h.same ⟨rfl, rfl⟩
  unfold fillChunks
  apply Eff.Post.bind
  apply onDisk_post
  apply Eff.Post.of_eq (Disk.call_run s.disk)
  unfold Outcome.result
  cases hraised : (s.disk.plan 0).raised with
  | some e => exact ⟨fun _ => hlater, nofun⟩
  | none =>
  have hbody : Eff.Keeps SameLedger (do
      onStreams fin (s₀.disk.table.length + i)
        (migrateStream env privateHandles newBundle minProfile)
      Host.onDisk (Disk.flush osErrors (s₀.disk.table.length + i))
      Host.onDisk (tolerating Disk.call)) := by
    apply Eff.Keeps.bind SameLedger.trans
      (SameLedger.onStreams fin _ (SameLedger.streams_outputFrame.migrateStream env privateHandles
        newBundle minProfile))
    intro _
    exact SameLedger.finish _
  dsimp only
  apply Eff.Post.tryFinally
  rcases hrun : (do
      onStreams fin (s₀.disk.table.length + i)
        (migrateStream env privateHandles newBundle minProfile)
      Host.onDisk (Disk.flush osErrors (s₀.disk.table.length + i))
      Host.onDisk (tolerating Disk.call)).run s.later with ⟨r, s₁⟩
  apply Eff.Post.of_eq hrun
  apply ((hlater.same (hbody.of_eq hrun)).close hi).mono
  intro r' s₂ hledger
  cases r' with
  | ok _ => exact ⟨fun hne => absurd rfl hne, fun _ => hledger⟩
  | error e => exact ⟨fun hne => absurd rfl hne, fun _ => hledger⟩

/-- The calls between the creation of the descriptor and its first owner: the input cannot be
opened, or the file object cannot be made. -/
def Orphaned (inputPath : Destination) (s : Host) : Prop :=
  (s.disk.plan 0).raised ≠ none ∨ s.disk.files inputPath.path = none ∨
    (s.disk.plan 1).raised ≠ none

theorem migrateChunks_ledger {inputPath : Destination} (h : Ledger s₀ [true] [] s) :
    Eff.Post (migrateChunks env privateHandles inputPath newBundle minProfile
      s₀.disk.table.length) s fun _ s' => Accounted (Orphaned inputPath s) s₀ s' := by
  unfold migrateChunks withInput
  apply Eff.Post.bind
  apply onDisk_post
  apply (Disk.openRead_post osErrors s.disk inputPath.path).mono
  rintro (e | fin) d hd
  · obtain ⟨hmissing, rfl⟩ := hd
    refine Accounted.lost ?_ ⟨[], [], h.same ⟨rfl, rfl⟩⟩
    rcases hmissing with hraised | hnone
    · exact Or.inl (Option.isSome_iff_ne_none.mp hraised)
    · exact Or.inr (Or.inl hnone)
  obtain ⟨rfl, hraised, hinput, rfl⟩ := hd
  have hopened : Ledger s₀ [true, true] [] (s.reading inputPath.path) :=
    h.opening { path := inputPath.path } rfl
  have hfin : s.disk.handles.length = s₀.disk.table.length + 1 := h.length
  rw [hfin]
  apply Eff.Post.tryFinally
  apply (fillChunks_ledger env privateHandles newBundle minProfile hopened (i := 0) rfl
    (s₀.disk.table.length + 1)).mono
  rintro r s₁ ⟨herror, hdone⟩
  have hplan : ((s.reading inputPath.path).disk.plan 0).raised = (s.disk.plan 1).raised := rfl
  rw [hplan] at herror hdone
  by_cases hfdopen : (s.disk.plan 1).raised = none
  · have hnot : ¬Orphaned inputPath s := by
      rintro (hopen | hnone | hraise)
      · exact hopen hraised
      · rw [hnone] at hinput
        cases hinput
      · exact hraise hfdopen
    apply ((hdone hfdopen).close (i := 1) rfl).mono
    intro r' s₂ hledger
    have haccounted := Accounted.settled hnot ⟨1, _, hledger, by simp⟩
    cases r' with
    | ok _ => exact haccounted
    | error _ => exact haccounted
  · apply ((herror hfdopen).close (i := 1) rfl).mono
    intro r' s₂ hledger
    have haccounted : Accounted (Orphaned inputPath s) s₀ s₂ :=
      Accounted.lost (Or.inr (Or.inr hfdopen)) ⟨_, _, hledger⟩
    cases r' with
    | ok _ => exact haccounted
    | error _ => exact haccounted

end Branches

section Migrate

variable (env : Env H) (privateHandles : List H) (inputPath outputPath : Destination)
  (newBundle : PublicBundle) (minProfile : Option PyStr) (stream : Bool)

/-- From a state in which `mkstemp` is to come: it gives a descriptor. -/
def Made (s : Host) : Prop :=
  (s.disk.plan 0).raised = none ∧ s.disk.files (outputPath.temp (s.disk.plan 0).suffix) = none

/-- From there, the calls that raise while no one closes the descriptor of `mkstemp`: `os.chmod`
with what is not caught there and, for a stream, the opening of the input and `os.fdopen`. -/
def Unowned (s : Host) : Prop :=
  tolerated (s.disk.plan 1) ≠ .ok () ∨ stream = true ∧ ((s.disk.plan 2).raised ≠ none ∨
    s.disk.files inputPath.path = none ∨ (s.disk.plan 3).raised ≠ none)

/-- The state behind the check. -/
def behindCheck (s : Host) : Host :=
  { s with disk := { s.disk with
    plan := Disk.after s.disk.plan (checkCalls inputPath outputPath s) } }

/-- The check goes through and `mkstemp` gives a descriptor. -/
def Created (s : Host) : Prop :=
  Unaliased inputPath outputPath s ∧ Made outputPath (behindCheck inputPath outputPath s)

/-- The call gets a descriptor from `mkstemp` that nobody closes. -/
def Leaks (s : Host) : Prop :=
  Created inputPath outputPath s ∧
    Unowned inputPath stream (behindCheck inputPath outputPath s)

/-- The descriptors open before are open after, no others are, and the one that `mkstemp` gave has
been closed once. -/
structure Tidy (s s' : Host) : Prop where
  same : ∀ fd, s'.disk.IsOpen fd ↔ s.disk.IsOpen fd
  once : Created inputPath outputPath s →
    ∃ shut, s'.closed = s.closed ++ shut ∧ shut.count s.disk.handles.length = 1

theorem migrateInto_ledger {s₀ s : Host} (h : Ledger s₀ [true] [] s) (temp : Path) :
    Eff.Post (migrateInto env privateHandles inputPath newBundle minProfile stream
      s₀.disk.table.length temp) s fun _ s' =>
      Accounted (stream = true ∧ Orphaned inputPath s) s₀ s' := by
  cases stream with
  | true =>
    apply (migrateChunks_ledger env privateHandles newBundle minProfile h).mono
    intro r s' haccounted
    exact haccounted.congr (and_iff_right rfl).symm
  | false =>
    apply (migrateBlob_settles env privateHandles newBundle minProfile h).mono
    intro r s' hsettled
    exact Accounted.settled (fun h => nomatch h.1) hsettled

theorem migrateReplacement_ledger {s : Host} (hmade : Made outputPath s) :
    Eff.Post (migrateReplacement env privateHandles inputPath outputPath newBundle minProfile
      stream).toEff s fun _ s' => Accounted (Unowned inputPath stream s) s s' := by
  have hrun := Disk.mkstemp_run osErrors outputPath.temp hmade.1 hmade.2
  let temp := outputPath.temp (s.disk.plan 0).suffix
  have hledger : ∀ n, Ledger s [true] [] { s with disk := s.disk.drafting n temp [] [] } :=
    fun n => (Ledger.start s).opening { path := temp } rfl
  unfold Replacement.toEff migrateReplacement
  apply Eff.Post.bind
  apply onDisk_post
  apply Eff.Post.of_eq hrun
  dsimp only
  apply Eff.Post.bind
  apply onDisk_post
  apply Eff.Post.of_eq (call_tolerating_drafting temp 1 [] [])
  unfold Unowned
  cases hchmod : tolerated (s.disk.plan 1) with
  | error e => exact Accounted.lost (Or.inl nofun) ⟨[], [], hledger 2⟩
  | ok _ =>
  have hfile : (s.disk.drafting 2 temp [] []).files inputPath.path = s.disk.files inputPath.path :=
    Function.update_of_ne (inputPath.path_ne_temp outputPath _) _ _
  have horphaned : Orphaned inputPath { s with disk := s.disk.drafting 2 temp [] [] } ↔
      (s.disk.plan 2).raised ≠ none ∨ s.disk.files inputPath.path = none ∨
        (s.disk.plan 3).raised ≠ none := by
    unfold Orphaned
    rw [hfile]
    exact Iff.rfl
  have hlen : s.disk.handles.length = s.disk.table.length := (List.length_map _).symm
  have hclean : ∀ e : Exc, Eff.Keeps SameLedger (do
      onDisk (discard temp)
      Eff.raise e : Eff Exc Host Unit) := by
    intro e
    apply Eff.Keeps.bind SameLedger.trans (SameLedger.discard temp)
    intro _
    exact Eff.Keeps.raise SameLedger.refl e
  have hreplace : Eff.Keeps SameLedger (onDisk (Disk.replace osErrors temp outputPath.path)) :=
    SameLedger.onDisk (Disk.SameTable.replace osErrors temp outputPath.path)
  dsimp only
  rw [hlen]
  apply Eff.Post.tryCatch
  apply Eff.Post.bind
  apply (migrateInto_ledger env privateHandles inputPath newBundle minProfile stream
    (hledger 2) temp).mono
  intro r s₁ hinto
  rw [horphaned] at hinto
  have hrestricted : ¬(Except.ok () : Except Exc Unit) ≠ .ok () := fun hne => hne rfl
  have haccounted := hinto.congr (or_iff_right hrestricted).symm
  cases r with
  | error e => exact haccounted.same (hclean e s₁)
  | ok _ =>
  dsimp only
  rcases hswap : (onDisk (Disk.replace osErrors temp outputPath.path)).run s₁ with ⟨e | _, s₂⟩
  · apply Eff.Post.of_eq hswap
    exact haccounted.same (SameLedger.trans _ _ _ (hreplace.of_eq hswap) (hclean e s₂))
  · exact Eff.Post.of_eq hswap (haccounted.same (hreplace.of_eq hswap))

/-- How `migrate_file` ends as far as its descriptors go. -/
theorem migrateFile_ledger (s : Host) :
    Eff.Post (migrateFile env privateHandles inputPath outputPath newBundle minProfile stream) s
      fun _ s' => (¬Created inputPath outputPath s ∧ Ledger s [] [] s') ∨
        (Created inputPath outputPath s ∧
          Accounted (Unowned inputPath stream (behindCheck inputPath outputPath s)) s s') := by
  rw [migrateFile_eq]
  apply Eff.Post.bind
  apply (refuseSameFile_post inputPath outputPath s).mono
  rintro r s₁ ⟨hs₁, hchecked⟩
  have hs₁' : s₁ = behindCheck inputPath outputPath s := hs₁
  subst hs₁'
  have hledger : Ledger s [] [] (behindCheck inputPath outputPath s) :=
    (Ledger.start s).same ⟨rfl, rfl⟩
  cases r with
  | error e =>
    refine Or.inl ⟨?_, hledger⟩
    intro hcreated
    cases hchecked.mpr hcreated.1
  | ok _ =>
  dsimp only
  by_cases hmade : Made outputPath (behindCheck inputPath outputPath s)
  · apply (migrateReplacement_ledger env privateHandles inputPath outputPath newBundle minProfile
      stream hmade).mono
    intro r s' haccounted
    exact Or.inr ⟨⟨hchecked.mp rfl, hmade⟩, haccounted⟩
  · obtain ⟨e, hrun⟩ := Disk.mkstemp_error osErrors outputPath.temp hmade
    unfold Replacement.toEff migrateReplacement
    apply Eff.Post.bind
    apply onDisk_post
    apply Eff.Post.of_eq hrun
    exact Or.inl ⟨fun hcreated => hmade hcreated.2, hledger.same ⟨rfl, rfl⟩⟩

/-- Exactly when `migrate_file` leaves no descriptor open: the one of `mkstemp` finds an owner. -/
theorem migrateFile_tidy_iff (s : Host) :
    Tidy inputPath outputPath s ((migrateFile env privateHandles inputPath outputPath newBundle
      minProfile stream).run s).2 ↔ ¬Leaks inputPath outputPath stream s := by
  have hpost := migrateFile_ledger env privateHandles inputPath outputPath newBundle minProfile
    stream s
  rcases hrun : (migrateFile env privateHandles inputPath outputPath newBundle minProfile
    stream).run s with ⟨r, s'⟩
  have hlen : s.disk.table.length = s.disk.handles.length := List.length_map _
  rcases hpost.elim hrun with ⟨hnot, hledger⟩ | ⟨hcreated, hlost, hsettled⟩
  · refine iff_of_true ⟨?_, fun hcreated => absurd hcreated hnot⟩ (fun hleaks => hnot hleaks.1)
    have hnone : Ledger s (List.replicate 0 false) [] s' := hledger
    exact hnone.isOpen_iff
  · constructor
    · rintro htidy ⟨-, howner⟩
      obtain ⟨rest, shut, hledger⟩ := hlost howner
      exact hledger.lost htidy.same
    · intro hleaks
      obtain ⟨n, shut, hledger, hcount⟩ := hsettled fun howner => hleaks ⟨hcreated, howner⟩
      refine ⟨hledger.isOpen_iff, fun _ => ⟨shut, hledger.2, ?_⟩⟩
      rw [← hlen]
      exact hcount

end Migrate

/-- A process that has opened nothing, on a disk without files, with every call going well. -/
def emptyHost : Host where
  rt := zeroRuntime
  disk := { files := fun _ => none, plan := fun _ => {} }
  reads _ := none

/-- A chunked migration of a file that is not there: `mkstemp`'s descriptor stays open. -/
theorem migrateFile_missingInput_leaks :
    ¬∀ fd, ((migrateFile (xorEnv zeroTagAead) [] ⟨"in.cflx", "/tmp", "in.cflx"⟩
        ⟨"out.cflx", "/tmp", "out.cflx"⟩ zeroBundle none true).run emptyHost).2.disk.IsOpen fd ↔
      emptyHost.disk.IsOpen fd := by
  intro hsame
  obtain ⟨h, hfd⟩ := (hsame 0).mp ⟨_, rfl⟩
  cases hfd

end CryptoFlex
