import CryptoFlex.Lib.Replacement

namespace CryptoFlex.Lib

namespace Eff

variable {ε σ τ α β : Type}

/-- Started in `s`, `x` returns, and the result and the state it leaves satisfy `Q`. -/
def Total (x : Eff ε σ α) (s : σ) (Q : α → σ → Prop) : Prop :=
  ∃ a t, x.run s = (.ok a, t) ∧ Q a t

namespace Total

variable {x : Eff ε σ α} {s : σ} {Q : α → σ → Prop}

theorem of_eq {a : α} {t : σ} (h : x.run s = (.ok a, t)) (hq : Q a t) : Total x s Q :=
  ⟨a, t, h, hq⟩

theorem mono {R : α → σ → Prop} (h : Total x s Q) (imp : ∀ a t, Q a t → R a t) :
    Total x s R := by
  obtain ⟨a, t, hrun, hq⟩ := h
  exact ⟨a, t, hrun, imp a t hq⟩

theorem bind {f : α → Eff ε σ β} {R : β → σ → Prop}
    (h : Total x s fun a t => Total (f a) t R) : Total (x >>= f) s R := by
  obtain ⟨a, t, hx, b, u, hf, hr⟩ := h
  exact ⟨b, u, by rw [bind_ok hx, hf], hr⟩

/-- A handler takes no part in a run that returns. -/
theorem tryCatch (h : Total x s Q) (k : ε → Eff ε σ α) : Total (tryCatch x k) s Q := by
  obtain ⟨a, t, hrun, hq⟩ := h
  exact ⟨a, t, tryCatch_ok hrun k, hq⟩

theorem tryFinally {fin : Eff ε σ Unit} {R : α → σ → Prop}
    (h : Total x s fun a t => Total fin t fun _ u => R a u) : Total (tryFinally x fin) s R := by
  obtain ⟨a, t, hx, _, u, hfin, hr⟩ := h
  exact ⟨a, u, tryFinally_run hx hfin, hr⟩

theorem zoom {view : τ → σ} {put : σ → τ → τ} {t : τ} {R : α → τ → Prop}
    (h : Total x (view t) fun a s => R a (put s t)) : Total (zoom view put x) t R := by
  obtain ⟨a, s, hrun, hr⟩ := h
  exact ⟨a, put s t, zoom_run hrun, hr⟩

/-- What is known of both exits is known of the one that is taken. -/
theorem and_post {R : Except ε α → σ → Prop} (h : Total x s Q) (hp : Post x s R) :
    Total x s fun a t => Q a t ∧ R (.ok a) t := by
  obtain ⟨a, t, hrun, hq⟩ := h
  exact ⟨a, t, hrun, hq, hp.elim hrun⟩

/-- There is no other exit. -/
theorem post {R : Except ε α → σ → Prop} (h : Total x s Q) (imp : ∀ a t, Q a t → R (.ok a) t) :
    Post x s R := by
  obtain ⟨a, t, hrun, hq⟩ := h
  exact Post.of_eq hrun (imp a t hq)

theorem and_keeps {K : σ → σ → Prop} (h : Total x s Q) (hk : Keeps K x) :
    Total x s fun a t => Q a t ∧ K s t := by
  obtain ⟨a, t, hrun, hq⟩ := h
  exact ⟨a, t, hrun, hq, hk.of_eq hrun⟩

end Total

end Eff

namespace Disk

variable {P ε : Type} {d d' : Disk P ε}

/-- No system call to come raises. -/
def Quiet (d : Disk P ε) : Prop := ∀ n, (d.plan n).raised = none

/-- A frame condition: some system calls were made. -/
def Calls (d d' : Disk P ε) : Prop := ∃ k, d'.plan = after d.plan k

theorem Calls.quiet (h : Calls d d') (hq : d.Quiet) : d'.Quiet := by
  obtain ⟨k, hplan⟩ := h
  intro n
  rw [hplan]
  exact hq (k + n)

namespace Calls

theorem of_same (h : d'.plan = d.plan) : Calls d d' := ⟨0, by rw [h, after_zero]⟩

theorem refl (d : Disk P ε) : Calls d d := of_same rfl

theorem trans (d d' d'' : Disk P ε) (h : Calls d d') (h' : Calls d' d'') : Calls d d'' := by
  obtain ⟨k, hplan⟩ := h
  obtain ⟨k', hplan'⟩ := h'
  exact ⟨k + k', by rw [hplan', hplan, after_after]⟩

theorem next : Eff.Keeps Calls (next : Eff ε (Disk P ε) (Outcome ε)) := fun _ => ⟨1, rfl⟩

theorem lift {α : Type} (x : Except ε α) : Eff.Keeps Calls (Eff.lift x : Eff ε (Disk P ε) α) :=
  Eff.Keeps.lift refl x

theorem get : Eff.Keeps Calls (Eff.get : Eff ε (Disk P ε) (Disk P ε)) := refl

/-- A change of the files and descriptors. -/
theorem modify {f : Disk P ε → Disk P ε} (hf : ∀ d, (f d).plan = d.plan) :
    Eff.Keeps Calls (Eff.modify f : Eff ε (Disk P ε) Unit) := fun d => of_same (hf d)

theorem call : Eff.Keeps Calls (call : Eff ε (Disk P ε) Unit) := by
  apply Eff.Keeps.bind trans next
  intro o
  exact lift _

variable (os : OsErrors ε)

theorem handle (fd : Nat) : Eff.Keeps Calls (handle os fd : Eff ε (Disk P ε) (Handle P)) := by
  apply Eff.Keeps.bind trans get
  intro d
  split
  · exact Eff.Keeps.pure refl _
  · exact Eff.Keeps.raise refl _

/-- The calls on a descriptor. -/
theorem onHandle {α : Type} (fd : Nat) {f : Outcome ε → Handle P → Eff ε (Disk P ε) α}
    (hf : ∀ o h, Eff.Keeps Calls (f o h)) :
    Eff.Keeps Calls (Disk.next >>= fun o => Disk.handle os fd >>= f o) := by
  apply Eff.Keeps.bind trans next
  intro o
  exact Eff.Keeps.bind trans (handle os fd) fun h => hf o h

/-- The calls that look at the disk when they have not failed. -/
theorem onDisk {α : Type} {f : Outcome ε → Disk P ε → Eff ε (Disk P ε) α}
    (hf : ∀ o d, Eff.Keeps Calls (f o d)) :
    Eff.Keeps Calls (Disk.next >>= fun o => Eff.lift o.result >>= fun _ => Eff.get >>= f o) := by
  apply Eff.Keeps.bind trans next
  intro o
  apply Eff.Keeps.bind trans (lift _)
  intro _
  exact Eff.Keeps.bind trans get fun d => hf o d

theorem openRead (path : P) : Eff.Keeps Calls (openRead os path : Eff ε (Disk P ε) Nat) := by
  apply onDisk
  intro o d
  split
  · exact Eff.Keeps.raise refl _
  · apply Eff.Keeps.bind trans
    · apply modify
      intro _
      rfl
    intro _
    exact Eff.Keeps.pure refl _

theorem read (fd : Nat) : Eff.Keeps Calls (read os fd : Eff ε (Disk P ε) (List UInt8)) := by
  apply onHandle
  intro o h
  apply Eff.Keeps.bind trans (lift _)
  intro _
  apply Eff.Keeps.bind trans get
  intro d
  split
  · exact Eff.Keeps.raise refl _
  · exact Eff.Keeps.pure refl _

variable [DecidableEq P]

theorem spill (fd k : Nat) (h : Handle P) :
    Eff.Keeps Calls (spill fd k h : Eff ε (Disk P ε) Unit) := modify fun _ => rfl

theorem mkstemp (name : Nat → P) :
    Eff.Keeps Calls (mkstemp os name : Eff ε (Disk P ε) (Nat × P)) := by
  apply onDisk
  intro o d
  dsimp only
  split
  · exact Eff.Keeps.raise refl _
  · apply Eff.Keeps.bind trans
    · apply modify
      intro _
      rfl
    intro _
    exact Eff.Keeps.pure refl _

theorem write (fd : Nat) (data : List UInt8) :
    Eff.Keeps Calls (write os fd data : Eff ε (Disk P ε) Unit) := by
  apply onHandle
  intro o h
  exact Eff.Keeps.bind trans (spill _ _ _) fun _ => lift _

theorem flush (fd : Nat) : Eff.Keeps Calls (flush os fd : Eff ε (Disk P ε) Unit) := by
  apply onHandle
  intro o h
  exact Eff.Keeps.bind trans (spill _ _ _) fun _ => lift _

omit os in
theorem close (fd : Nat) : Eff.Keeps Calls (close fd : Eff ε (Disk P ε) Unit) := by
  apply Eff.Keeps.bind trans get
  intro d
  split
  · apply Eff.Keeps.bind trans next
    intro o
    apply Eff.Keeps.bind trans (spill _ _ _)
    intro _
    apply Eff.Keeps.bind trans
    · apply modify
      intro _
      rfl
    intro _
    exact lift _
  · exact Eff.Keeps.pure refl _

theorem replace (src dst : P) : Eff.Keeps Calls (replace os src dst : Eff ε (Disk P ε) Unit) := by
  apply onDisk
  intro o d
  split
  · exact Eff.Keeps.raise refl _
  · exact modify fun _ => rfl

theorem unlink (path : P) : Eff.Keeps Calls (unlink os path : Eff ε (Disk P ε) Unit) := by
  apply onDisk
  intro o d
  split
  · exact Eff.Keeps.raise refl _
  · exact modify fun _ => rfl

end Calls

theorem Quiet.result (h : d.Quiet) : (d.plan 0).result = .ok () := Outcome.result_of_none (h 0)

theorem call_total (h : d.Quiet) : Eff.Total call d fun _ d' =>
    d' = { d with plan := after d.plan 1 } :=
  Eff.Total.of_eq (by rw [call_run, h.result]) rfl

variable (os : OsErrors ε) {fd : Nat} {path : P} {c : List UInt8}

theorem openRead_total (h : d.Quiet) (hfile : (d.files path).isSome) :
    Eff.Total (openRead os path) d fun fd d' => fd = d.handles.length ∧
      d' = { d with handles := d.handles ++ [some { path }], plan := after d.plan 1 } := by
  have hpost := openRead_post os d path
  rcases hrun : (openRead os path).run d with ⟨e | fd, d'⟩
  · obtain ⟨hraised | hnone, -⟩ := hpost.elim hrun
    · rw [h 0] at hraised
      cases hraised
    · rw [hnone] at hfile
      cases hfile
  · obtain ⟨hfd, -, -, hd'⟩ := hpost.elim hrun
    exact Eff.Total.of_eq hrun ⟨hfd, hd'⟩

theorem read_total (h : d.Quiet) {f : Handle P} (hfd : d.handles[fd]? = some (some f))
    (hfile : d.files f.path = some c) : Eff.Total (read os fd) d fun b d' =>
      b = c ∧ d' = { d with plan := after d.plan 1 } := by
  have hrun : (read os fd).run d = (.ok c, { d with plan := after d.plan 1 }) := by
    unfold read
    rw [onHandle_open os hfd, h.result]
    simp [hfile]
  exact Eff.Total.of_eq hrun ⟨rfl, rfl⟩

variable [DecidableEq P]

theorem flush_total (h : d.Quiet) (hd : d.Drafts fd path c) :
    Eff.Total (flush os fd) d fun _ d' => d'.Quiet ∧ d'.Drafts fd path c := by
  obtain ⟨content, buffer, -, hfd, -⟩ := id hd
  have hrun := flush_run os hfd
  rw [h.result] at hrun
  exact Eff.Total.of_eq hrun ⟨((Calls.flush os fd).of_eq hrun).quiet h, (hd.flush os).elim hrun⟩

theorem close_total (h : d.Quiet) (hd : d.Drafts fd path c) :
    Eff.Total (close fd) d fun _ d' => d'.Quiet ∧ d'.files path = some c := by
  obtain ⟨content, buffer, -, hfd, -⟩ := id hd
  have hrun := close_run hfd
  rw [h.result] at hrun
  exact Eff.Total.of_eq hrun
    ⟨((Calls.close fd).of_eq hrun).quiet h, (hd.close).elim hrun rfl⟩

theorem replace_total {src : P} (h : d.Quiet) (hfile : d.files src = some c) (dst : P) :
    Eff.Total (replace os src dst) d fun _ _ => True := by
  have hrun : ∃ d', (replace os src dst).run d = (.ok (), d') := by
    simp [replace, next, Eff.run_bind, h.result, hfile]
  obtain ⟨d', hrun⟩ := hrun
  exact Eff.Total.of_eq hrun trivial

end Disk

namespace Replacement

variable {P ε σ : Type} [DecidableEq P] {x : Replacement P ε σ} {s : σ}

/-- Steps that make calls, and of which none fails but for what it is asked to do. -/
structure Calling (x : Replacement P ε σ) : Prop where
  create : Eff.Keeps (fun s s' => Disk.Calls (x.disk s) (x.disk s')) x.create
  restrict : Eff.Keeps (fun s s' => Disk.Calls (x.disk s) (x.disk s')) x.restrict
  body : ∀ fd temp, Eff.Keeps (fun s s' => Disk.Calls (x.disk s) (x.disk s')) (x.body fd temp)
  restricts : ∀ s, (x.disk s).Quiet → Eff.Total x.restrict s fun _ _ => True

omit [DecidableEq P] in
/-- Nothing is left behind. -/
theorem Calling.not_left (h : x.Calling) (hq : (x.disk s).Quiet) : ¬x.Left s := by
  intro hleft
  cases hleft with
  | unrestricted created raised =>
    obtain ⟨_, _, hrestrict, -⟩ := h.restricts _ ((h.create.of_eq created).quiet hq)
    rw [hrestrict] at raised
    cases raised
  | unremoved created restricted failed raised =>
    have hq₁ := (h.create.of_eq created).quiet hq
    have hq₂ := (h.restrict.of_eq restricted).quiet hq₁
    have hq₃ := ((h.body _ _).of_eq failed).quiet hq₂
    rw [hq₃ 0] at raised
    cases raised

/-- Such a call that raises leaves the files as they were. -/
theorem Calling.ends {names : P → Prop} {dest : P} {complete : List UInt8 → Prop} (h : x.Calling)
    (hq : (x.disk s).Quiet) (hsound : x.Sound names dest complete s) :
    Eff.Post x.toEff s fun r s' => ∀ e, r = .error e → (x.disk s').files = (x.disk s).files := by
  apply hsound.ends.mono
  intro r s' hend e he
  subst he
  cases hend with
  | raised same => exact same
  | leftBehind why _ _ _ => exact absurd why (h.not_left hq)

end Replacement

end CryptoFlex.Lib
