import CryptoFlex.Cli.Files
import CryptoFlex.Lib.Replacement

namespace CryptoFlex

open Lib

/-- The names of temporary files for `dest`. -/
def Destination.IsTemp (dest : Destination) (path : Path) : Prop := ∃ suffix, path = dest.temp suffix

theorem Destination.path_not_isTemp (dest dest' : Destination) : ¬dest'.IsTemp dest.path := by
  rintro ⟨suffix, h⟩
  exact dest.path_ne_temp dest' suffix h

/-- A call with the output `dest` leaves there the whole new content or what was there, and no
other file changes. Stop it behind any of its system calls: no part of new content is at `dest`. -/
structure AtomicOutput {σ : Type} (disk : σ → Files) (interrupt : Nat → Exc → σ → σ)
    (x : Eff Exc σ Unit) (dest : Destination) (complete : σ → Bytes → Prop) (left : σ → Prop)
    (s : σ) : Prop where
  ends : Eff.Post x s fun r s' => Replaced dest.IsTemp dest.path (complete s) (left s)
    (disk s).files (disk s').files r
  visible : ∀ k e, Eff.Post x (interrupt k e s) fun _ s' =>
    (disk s').files dest.path = (disk s).files dest.path ∨
      ∃ content, complete (interrupt k e s) content ∧ (disk s').files dest.path = some content

/-- Being interrupted is a way for the calls to go. -/
theorem AtomicOutput.of_ends {σ : Type} {disk : σ → Files} {interrupt : Nat → Exc → σ → σ}
    {x : Eff Exc σ Unit} {dest : Destination} {complete : σ → Bytes → Prop} {left : σ → Prop}
    (hfiles : ∀ k e s, (disk (interrupt k e s)).files = (disk s).files)
    (h : ∀ s, Eff.Post x s fun r s' => Replaced dest.IsTemp dest.path (complete s) (left s)
      (disk s).files (disk s').files r) (s : σ) :
    AtomicOutput disk interrupt x dest complete left s := by
  refine ⟨h s, ?_⟩
  intro k e
  apply (h (interrupt k e s)).mono
  intro r s' hr
  rw [← hfiles k e s]
  exact hr.dest_or (dest.path_not_isTemp dest)

theorem Disk.Confined.tolerating {fd : Nat} {temp : Path} {x : Eff Exc Files Unit}
    (hx : Eff.Keeps (Disk.Confined fd temp) x) :
    Eff.Keeps (Disk.Confined fd temp) (tolerating x) := by
  apply Eff.Keeps.tryCatch Disk.Confined.trans hx
  intro e
  split
  · exact Eff.Keeps.pure Disk.Confined.refl _
  · exact Eff.Keeps.raise Disk.Confined.refl _

theorem Disk.Confined.writeTemp {fd : Nat} {temp : Path} {writeFn : Nat → Eff Exc Files Unit}
    (hfn : Eff.Keeps (Disk.Confined fd temp) (writeFn fd)) :
    Eff.Keeps (Disk.Confined fd temp) (writeTemp fd writeFn) := by
  apply Eff.Keeps.bind Disk.Confined.trans Disk.Confined.call
  intro _
  apply Eff.Keeps.tryFinally Disk.Confined.trans
  · apply Eff.Keeps.bind Disk.Confined.trans hfn
    intro _
    apply Eff.Keeps.bind Disk.Confined.trans (Disk.Confined.flush osErrors)
    intro _
    exact Disk.Confined.tolerating Disk.Confined.call
  · exact Disk.Confined.close

/-- The last steps of a file's writing: what it was to hold is in it when they return. -/
theorem finish_returned {fd : Nat} {temp : Path} {d d₁ d₂ d₃ : Files} {c : Bytes}
    (h : d.Drafts fd temp c) (hflush : (Disk.flush osErrors fd).run d = (.ok (), d₁))
    (hsync : (tolerating Disk.call).run d₁ = (.ok (), d₂))
    (hclose : (Disk.close fd).run d₂ = (.ok (), d₃)) : d₃.files temp = some c := by
  have hdrafts₁ : d₁.Drafts fd temp c := (h.flush osErrors).elim hflush
  rw [tolerating_run (Disk.call_run d₁)] at hsync
  have hdrafts₂ : d₂.Drafts fd temp c := by
    rw [← (Prod.mk.inj hsync).2]
    exact hdrafts₁
  exact (hdrafts₂.close).elim hclose rfl

/-- A `with` block that returns leaves in the file what `write_fn` put into its file object. -/
theorem writeTemp_returned {fd : Nat} {temp : Path} {writeFn : Nat → Eff Exc Files Unit}
    (hfn : Eff.Keeps (Disk.Confined fd temp) (writeFn fd)) {d d' : Files} {c : Bytes}
    (h : d.Drafts fd temp c) (hrun : (writeTemp fd writeFn).run d = (.ok (), d')) :
    ∃ d₀ d₁ content, Disk.call.run d = (.ok (), d₀) ∧ (writeFn fd).run d₀ = (.ok (), d₁) ∧
      d₁.Drafts fd temp content ∧ d'.files temp = some content := by
  obtain ⟨_, d₀, hopen, hwith⟩ := Eff.bind_eq_ok.mp hrun
  obtain ⟨d₂, hbody, hclose⟩ := Eff.tryFinally_eq_ok.mp hwith
  obtain ⟨_, d₁, hwrite, hrest⟩ := Eff.bind_eq_ok.mp hbody
  have howns₀ : d₀.Owns fd temp := (Disk.Confined.call.of_eq hopen h.owns).1
  obtain ⟨hfile, handle, hfd, hpath⟩ := (hfn.of_eq hwrite howns₀).1
  obtain ⟨content, hcontent⟩ := Option.isSome_iff_exists.mp hfile
  cases handle with
  | none =>
    -- `write_fn` closed its file: the flush raises
    rw [Eff.bind_error (Disk.flush_closed osErrors hfd)] at hrest
    cases hrest
  | some f =>
    have hf := hpath f rfl
    subst hf
    have hdrafts : d₁.Drafts fd f.path (content ++ f.buffer) :=
      ⟨content, f.buffer, hcontent, hfd, rfl⟩
    obtain ⟨_, d₃, hflush, hsync⟩ := Eff.bind_eq_ok.mp hrest
    exact ⟨d₀, d₁, _, hopen, hwrite, hdrafts, finish_returned hdrafts hflush hsync hclose⟩

/-- `os.replace` puts the finished temporary file in place, or does nothing. -/
theorem replace_staged {d d' : Files} {temp : Path} (dest : Path) {content : Bytes}
    (hfresh : d.files temp = none) (htouch : Disk.OnlyTouches temp d d')
    (hfile : d'.files temp = some content) :
    Eff.Post (Disk.replace osErrors temp dest) d' fun r d'' => match r with
      | .ok _ => d''.files = Function.update d.files dest (some content)
      | .error _ => Disk.OnlyTouches temp d d'' ∧ (d''.files temp).isSome := by
  have hback : Function.update d'.files temp none = d.files := by
    funext q
    by_cases hq : q = temp
    · rw [hq, Function.update_self, hfresh]
    · rw [Function.update_of_ne hq, htouch q hq]
  cases hraised : (d'.plan 0).raised with
  | some e =>
    apply Eff.Post.of_eq (Disk.replace_raised osErrors hraised)
    exact ⟨htouch, Option.isSome_iff_exists.mpr ⟨content, hfile⟩⟩
  | none =>
    have hrun : (Disk.replace osErrors temp dest).run d' = (.ok (), {
        files := Function.update d.files dest (some content)
        handles := d'.handles
        plan := Disk.after d'.plan 1 }) := by
      simp [Disk.replace, Disk.next, Outcome.result, Eff.run_bind, hraised, hfile, hback]
    exact Eff.Post.of_eq hrun rfl

/-- The handler removes the file, unless that raises. -/
theorem discard_removes (temp : Path) {d : Files} (hfile : (d.files temp).isSome)
    (hraised : (d.plan 0).raised = none) : ((discard temp).run d).2.files temp = none := by
  obtain ⟨content, hcontent⟩ := Option.isSome_iff_exists.mp hfile
  have hrun : (Disk.unlink osErrors temp).run d = (.ok (), { d with
      files := Function.update d.files temp none
      plan := Disk.after d.plan 1 }) := by
    simp [Disk.unlink, Disk.next, Outcome.result, Eff.run_bind, hraised, hcontent]
  unfold discard
  rw [Eff.tryCatch_ok hrun]
  exact Function.update_self ..

/-- `write_fn` changes nothing but the file object that it is given: whatever it writes to it, and
whether it returns, raises or closes it. -/
def OnlyItsFile (writeFn : Nat → Eff Exc Files Unit) : Prop :=
  ∀ fd temp, Eff.Keeps (Disk.Confined fd temp) (writeFn fd)

theorem OnlyItsFile.write (data : Bytes) : OnlyItsFile fun fd => Disk.write osErrors fd data :=
  fun _ _ => Disk.Confined.write osErrors data

/-- The steps of `_atomic_stream_write`. -/
def streamReplacement (destPath : Destination) (writeFn : Nat → Eff Exc Files Unit) :
    Replacement Path Exc Files where
  disk := id
  create := Disk.mkstemp osErrors destPath.temp
  restrict := tolerating Disk.call
  body fd tempPath := do
    writeTemp fd writeFn
    Disk.replace osErrors tempPath destPath.path
  clean := discard

theorem atomicStreamWrite_eq (destPath : Destination) (writeFn : Nat → Eff Exc Files Unit) :
    atomicStreamWrite destPath writeFn = (streamReplacement destPath writeFn).toEff := by
  have hpure : ∀ x : Eff Exc Files Unit, (x >>= fun _ => pure ()) = x := by
    intro x
    apply congrArg Eff.mk
    funext d
    dsimp only [Bind.bind, Eff.bind]
    rcases x.run d with ⟨_ | _, d'⟩ <;> rfl
  unfold atomicStreamWrite atomicWrite makeTempInDir Replacement.toEff streamReplacement
  simp only [Eff.bind_assoc, Eff.pure_bind, hpure]

/-- What `write_fn` puts into its file object, when it returns. -/
def StreamContent (destPath : Destination) (writeFn : Nat → Eff Exc Files Unit) (d : Files)
    (content : Bytes) : Prop :=
  ∃ fd tempPath d₀ d₁, (do
      let made ← makeTempInDir destPath
      Disk.call
      return made).run d = (.ok (fd, tempPath), d₀) ∧
    (writeFn fd).run d₀ = (.ok (), d₁) ∧ d₁.Drafts fd tempPath content

theorem mkstemp_post (destPath : Destination) (d : Files) :
    Eff.Post (Disk.mkstemp osErrors destPath.temp) d fun r d₁ => match r with
      | .ok made => destPath.IsTemp made.2 ∧ d.files made.2 = none ∧
        made.1 = d.handles.length ∧ d₁ = d.drafting 1 made.2 [] []
      | .error _ => d₁ = { d with plan := Disk.after d.plan 1 } := by
  by_cases hnew : (d.plan 0).raised = none ∧ d.files (destPath.temp (d.plan 0).suffix) = none
  · exact Eff.Post.of_eq (Disk.mkstemp_run osErrors destPath.temp hnew.1 hnew.2)
      ⟨⟨_, rfl⟩, hnew.2, rfl, rfl⟩
  · obtain ⟨e, hrun⟩ := Disk.mkstemp_error osErrors destPath.temp hnew
    exact Eff.Post.of_eq hrun rfl

theorem tolerating_call_run (d : Files) : (tolerating Disk.call).run d =
    (tolerated (d.plan 0), { d with plan := Disk.after d.plan 1 }) :=
  tolerating_run (Disk.call_run d)

/-- The disk between the creation of the temporary file and the first use of it. -/
theorem made_drafting {destPath : Destination} {d d₁ d₂ : Files} {fd : Nat} {temp : Path}
    (hmkstemp : (Disk.mkstemp osErrors destPath.temp).run d = (.ok (fd, temp), d₁))
    (hchmod : (tolerating Disk.call).run d₁ = (.ok (), d₂)) :
    destPath.IsTemp temp ∧ d.files temp = none ∧ fd = d.handles.length ∧
      d₂ = d.drafting 2 temp [] [] := by
  obtain ⟨hname, hfresh, hfd, hd₁⟩ := (mkstemp_post destPath d).elim hmkstemp
  dsimp only at hfresh hfd hd₁
  rw [hd₁, call_tolerating_drafting] at hchmod
  exact ⟨hname, hfresh, hfd, (Prod.mk.inj hchmod).2.symm⟩

theorem discard_cleans (temp : Path) : Eff.Keeps (fun d d' : Files => Disk.OnlyTouches temp d d' ∧
    ((d.files temp).isSome → (d.plan 0).raised = none → d'.files temp = none)) (discard temp) :=
  fun d => ⟨discard_keeps temp d, discard_removes temp⟩

theorem drafting_drafts (d : Files) (n : Nat) (temp : Path) :
    (d.drafting n temp [] []).Drafts d.handles.length temp [] := by
  refine ⟨[], [], ?_, ?_, rfl⟩
  · simp [Disk.drafting]
  · simp [Disk.drafting]

theorem streamReplacement_sound (destPath : Destination) {writeFn : Nat → Eff Exc Files Unit}
    (hfn : OnlyItsFile writeFn) (d : Files) :
    (streamReplacement destPath writeFn).Sound destPath.IsTemp destPath.path
      (StreamContent destPath writeFn d) d where
  created := by
    apply (mkstemp_post destPath d).mono
    rintro (e | ⟨fd, temp⟩) d₁ hmade
    · rw [hmade]
      rfl
    · obtain ⟨hname, hfresh, -, rfl⟩ := hmade
      refine ⟨hname, hfresh, Disk.OnlyTouches.of_update rfl, ?_⟩
      change (Function.update d.files temp (some []) temp).isSome
      rw [Function.update_self]
      rfl
  restricted := by
    intro d₁
    change ((tolerating Disk.call).run d₁).2.files = d₁.files
    rw [tolerating_call_run]
  filled := by
    rintro ⟨fd, temp⟩ d₁ d₂ hcreate hrestrict
    have hmkstemp : (Disk.mkstemp osErrors destPath.temp).run d = (.ok (fd, temp), d₁) := hcreate
    have hchmod : (tolerating Disk.call).run d₁ = (.ok (), d₂) := hrestrict
    have hmade : (makeTempInDir destPath).run d = (.ok (fd, temp), d₂) := by
      unfold makeTempInDir
      rw [Eff.bind_ok hmkstemp, Eff.bind_ok hchmod]
      rfl
    obtain ⟨-, hfresh, hfd, hd₂⟩ := made_drafting hmkstemp hchmod
    have hdrafts : d₂.Drafts fd temp [] := by
      rw [hd₂, hfd]
      exact drafting_drafts d 2 temp
    have htouch : Disk.OnlyTouches temp d d₂ := by
      rw [hd₂]
      exact Disk.OnlyTouches.of_update rfl
    apply Eff.Post.bind
    rcases hwrite : (writeTemp fd writeFn).run d₂ with ⟨r, d₃⟩
    obtain ⟨howns, htouch₃, -⟩ :=
      (Disk.Confined.writeTemp (hfn fd temp)).of_eq hwrite hdrafts.owns
    have htouch' := Disk.OnlyTouches.trans _ _ _ htouch htouch₃
    apply Eff.Post.of_eq hwrite
    cases r with
    | error e => exact ⟨htouch', howns.1⟩
    | ok _ =>
    obtain ⟨d₄, d₅, content, hopen, hfilled, hcontent, hfile⟩ :=
      writeTemp_returned (hfn fd temp) hdrafts hwrite
    apply (replace_staged destPath.path hfresh htouch' hfile).mono
    rintro (e | _) d₆ hreplace
    · exact hreplace
    · refine ⟨content, ⟨fd, temp, d₄, d₅, ?_, hfilled, hcontent⟩, hreplace⟩
      rw [Eff.bind_ok hmade, Eff.bind_ok hopen]
      rfl
  cleaned := discard_cleans

/-- For every `write_fn` that keeps to its file object, and every way for the calls to go. -/
theorem atomicStreamWrite_output (destPath : Destination) {writeFn : Nat → Eff Exc Files Unit}
    (hfn : OnlyItsFile writeFn) (d : Files) :
    AtomicOutput id Disk.interrupt (atomicStreamWrite destPath writeFn) destPath
      (StreamContent destPath writeFn) (streamReplacement destPath writeFn).Left d := by
  refine AtomicOutput.of_ends Disk.interrupt_files ?_ d
  intro d'
  rw [atomicStreamWrite_eq]
  exact (streamReplacement_sound destPath hfn d').ends

/-- The temporary file starts empty. -/
theorem makeTempInDir_drafts (destPath : Destination) {d d' : Files} {fd : Nat} {temp : Path}
    (h : (makeTempInDir destPath).run d = (.ok (fd, temp), d')) : d'.Drafts fd temp [] := by
  obtain ⟨made, d₁, hmkstemp, hrest⟩ := Eff.bind_eq_ok.mp h
  obtain ⟨_, d₂, hchmod, hret⟩ := Eff.bind_eq_ok.mp hrest
  obtain ⟨-, -, hfd, hd₂⟩ := made_drafting hmkstemp hchmod
  cases hret
  rw [hd₂, hfd]
  exact drafting_drafts d 2 _

theorem streamContent_write {destPath : Destination} {data content : Bytes} {d : Files}
    (h : StreamContent destPath (fun fd => Disk.write osErrors fd data) d content) :
    content = data := by
  obtain ⟨fd, temp, d₀, d₁, hmade, hwrite, hcontent⟩ := h
  obtain ⟨made, d₂, hmake, hrest⟩ := Eff.bind_eq_ok.mp hmade
  obtain ⟨_, d₃, hopen, hret⟩ := Eff.bind_eq_ok.mp hrest
  cases hret
  have hdrafts := makeTempInDir_drafts destPath hmake
  have hdrafts₀ : d₀.Drafts fd temp [] := by
    rw [← (Prod.mk.inj hopen).2]
    exact hdrafts
  have hdata : d₁.Drafts fd temp ([] ++ data) := (hdrafts₀.write osErrors data).elim hwrite
  exact hcontent.unique hdata

theorem atomicWriteBytes_output (destPath : Destination) (data : Bytes) (d : Files) :
    AtomicOutput id Disk.interrupt (atomicWriteBytes destPath data) destPath
      (fun _ content => content = data)
      (streamReplacement destPath fun fd => Disk.write osErrors fd data).Left d := by
  refine AtomicOutput.of_ends Disk.interrupt_files ?_ d
  intro d'
  have hbytes : atomicWriteBytes destPath data =
      atomicStreamWrite destPath fun fd => Disk.write osErrors fd data := rfl
  rw [hbytes, atomicStreamWrite_eq]
  apply (streamReplacement_sound destPath (OnlyItsFile.write data) d').ends.mono
  intro r d'' hr
  exact hr.mono (fun _ => streamContent_write) id

end CryptoFlex
