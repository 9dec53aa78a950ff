import CryptoFlex.Lib.Disk

namespace CryptoFlex.Lib

variable {P ε σ : Type} [DecidableEq P]

/-- How a call that puts new content at `dest` may end. The names of temporary files are `names`;
one of them stays behind only for the reason `left`. -/
inductive Replaced (names : P → Prop) (dest : P) (complete : List UInt8 → Prop) (left : Prop)
    (files files' : P → Option (List UInt8)) : Except ε Unit → Prop
  | returned {content : List UInt8} (whole : complete content)
    (new : files' = Function.update files dest (some content)) :
    Replaced names dest complete left files files' (.ok ())
  | raised {e : ε} (same : files' = files) :
    Replaced names dest complete left files files' (.error e)
  | leftBehind {e : ε} {temp : P} (why : left) (name : names temp) (fresh : files temp = none)
    (others : ∀ q, q ≠ temp → files' q = files q) :
    Replaced names dest complete left files files' (.error e)

namespace Replaced

variable {names : P → Prop} {dest : P} {complete : List UInt8 → Prop} {left : Prop}
  {files files' : P → Option (List UInt8)} {r : Except ε Unit}

theorem start {files₀ : P → Option (List UInt8)} (hfiles : files = files₀)
    (h : Replaced names dest complete left files files' r) :
    Replaced names dest complete left files₀ files' r := by
  rw [← hfiles]
  exact h

theorem mono {complete' : List UInt8 → Prop} {left' : Prop}
    (hc : ∀ c, complete c → complete' c) (hl : left → left')
    (h : Replaced names dest complete left files files' r) :
    Replaced names dest complete' left' files files' r := by
  cases h with
  | returned whole new => exact returned (hc _ whole) new
  | raised same => exact raised same
  | leftBehind why name fresh others => exact leftBehind (hl why) name fresh others

/-- The destination holds what it held, or new content that is whole. -/
theorem dest_or (hdest : ¬names dest) (h : Replaced names dest complete left files files' r) :
    files' dest = files dest ∨ ∃ content, complete content ∧ files' dest = some content := by
  cases h with
  | returned whole new =>
    refine Or.inr ⟨_, whole, ?_⟩
    rw [new, Function.update_self]
  | raised same => exact Or.inl (congrFun same dest)
  | leftBehind why name fresh others =>
    apply Or.inl
    apply others
    rintro rfl
    exact hdest name

/-- No file but the destination changes, apart from a temporary one left behind. -/
theorem other {q : P} (hq : ¬names q) (hne : q ≠ dest)
    (h : Replaced names dest complete left files files' r) : files' q = files q := by
  cases h with
  | returned whole new => rw [new, Function.update_of_ne hne]
  | raised same => exact congrFun same q
  | leftBehind why name fresh others =>
    apply others
    rintro rfl
    exact hq name

theorem dest_of_error {e : ε} (hdest : ¬names dest)
    (h : Replaced names dest complete left files files' (.error e)) :
    files' dest = files dest := by
  cases h with
  | raised same => exact congrFun same dest
  | leftBehind why name fresh others =>
    apply others
    rintro rfl
    exact hdest name

end Replaced

/-- The steps of such a call: make the temporary file, restrict who may read it, fill it and
rename it; if that raises, remove it. -/
structure Replacement (P ε σ : Type) where
  disk : σ → Disk P ε
  create : Eff ε σ (Nat × P)
  restrict : Eff ε σ Unit
  body : Nat → P → Eff ε σ Unit
  clean : P → Eff ε σ Unit

namespace Replacement

def toEff (x : Replacement P ε σ) : Eff ε σ Unit := do
  let (fd, temp) ← x.create
  x.restrict
  Eff.tryCatch (x.body fd temp) fun e => do
    x.clean temp
    Eff.raise e

/-- Why the temporary file of a call from `s` stays behind: the step between its creation and the
`try` raises, or its removal does. -/
inductive Left (x : Replacement P ε σ) (s : σ) : Prop
  | unrestricted {made : Nat × P} {s₁ s₂ : σ} {e : ε} (created : x.create.run s = (.ok made, s₁))
    (raised : x.restrict.run s₁ = (.error e, s₂)) : Left x s
  | unremoved {made : Nat × P} {s₁ s₂ s₃ : σ} {e e' : ε}
    (created : x.create.run s = (.ok made, s₁)) (restricted : x.restrict.run s₁ = (.ok (), s₂))
    (failed : (x.body made.1 made.2).run s₂ = (.error e, s₃))
    (raised : ((x.disk s₃).plan 0).raised = some e') : Left x s

/-- Compared with `s`, there is one file more. -/
def Staged (x : Replacement P ε σ) (temp : P) (s s' : σ) : Prop :=
  Disk.OnlyTouches temp (x.disk s) (x.disk s') ∧ ((x.disk s').files temp).isSome

omit [DecidableEq P] in
theorem Staged.same_files {x : Replacement P ε σ} {temp : P} {s s' s'' : σ}
    (h : x.Staged temp s s') (hfiles : (x.disk s'').files = (x.disk s').files) :
    x.Staged temp s s'' := by
  refine ⟨fun q hq => ?_, ?_⟩
  · rw [hfiles]
    exact h.1 q hq
  · rw [hfiles]
    exact h.2

/-- The handler's end: the file is gone, or its removal raised. -/
theorem Staged.removed {x : Replacement P ε σ} {names : P → Prop} {dest : P}
    {complete : List UInt8 → Prop} {made : Nat × P} {s s₁ s₂ s₃ s₄ : σ} {e e' : ε}
    (created : x.create.run s = (.ok made, s₁)) (restricted : x.restrict.run s₁ = (.ok (), s₂))
    (failed : (x.body made.1 made.2).run s₂ = (.error e, s₃)) (name : names made.2)
    (fresh : (x.disk s).files made.2 = none) (staged : x.Staged made.2 s s₃)
    (touches : Disk.OnlyTouches made.2 (x.disk s₃) (x.disk s₄))
    (removes : ((x.disk s₃).files made.2).isSome → ((x.disk s₃).plan 0).raised = none →
      (x.disk s₄).files made.2 = none) :
    Replaced names dest complete (x.Left s) (x.disk s).files (x.disk s₄).files (.error e') := by
  have hothers : ∀ q, q ≠ made.2 → (x.disk s₄).files q = (x.disk s).files q := by
    intro q hq
    rw [touches q hq, staged.1 q hq]
  cases hraised : ((x.disk s₃).plan 0).raised with
  | some e'' =>
    exact Replaced.leftBehind (Left.unremoved created restricted failed hraised) name fresh hothers
  | none =>
    apply Replaced.raised
    funext q
    by_cases hq : q = made.2
    · rw [hq, removes staged.2 hraised, fresh]
    · exact hothers q hq

/-- What is asked of the steps of a call from `s`. -/
structure Sound (x : Replacement P ε σ) (names : P → Prop) (dest : P)
    (complete : List UInt8 → Prop) (s : σ) : Prop where
  created : Eff.Post x.create s fun r s₁ => match r with
    | .ok made => names made.2 ∧ (x.disk s).files made.2 = none ∧ x.Staged made.2 s s₁
    | .error _ => (x.disk s₁).files = (x.disk s).files
  restricted : Eff.Keeps (fun s s' => (x.disk s').files = (x.disk s).files) x.restrict
  filled : ∀ made s₁ s₂, x.create.run s = (.ok made, s₁) → x.restrict.run s₁ = (.ok (), s₂) →
    Eff.Post (x.body made.1 made.2) s₂ fun r s₃ => match r with
      | .ok _ => ∃ content, complete content ∧
        (x.disk s₃).files = Function.update (x.disk s).files dest (some content)
      | .error _ => x.Staged made.2 s s₃
  cleaned : ∀ temp, Eff.Keeps (fun s s' => Disk.OnlyTouches temp (x.disk s) (x.disk s') ∧
    (((x.disk s).files temp).isSome → ((x.disk s).plan 0).raised = none →
      (x.disk s').files temp = none)) (x.clean temp)

/-- Such a call ends with the whole new content or with the old one. -/
theorem Sound.ends {x : Replacement P ε σ} {names : P → Prop} {dest : P}
    {complete : List UInt8 → Prop} {s : σ} (h : x.Sound names dest complete s) :
    Eff.Post x.toEff s fun r s' =>
      Replaced names dest complete (x.Left s) (x.disk s).files (x.disk s').files r := by
  unfold toEff
  apply Eff.Post.bind
  rcases hcreate : x.create.run s with ⟨e | made, s₁⟩
  · exact Eff.Post.of_eq hcreate (Replaced.raised (h.created.elim hcreate))
  obtain ⟨hname, hfresh, hstaged⟩ := h.created.elim hcreate
  apply Eff.Post.of_eq hcreate
  dsimp only
  apply Eff.Post.bind
  rcases hrestrict : x.restrict.run s₁ with ⟨e | _, s₂⟩
  · have hstaged₂ := hstaged.same_files (h.restricted.of_eq hrestrict)
    exact Eff.Post.of_eq hrestrict
      (Replaced.leftBehind (Left.unrestricted hcreate hrestrict) hname hfresh hstaged₂.1)
  apply Eff.Post.of_eq hrestrict
  apply Eff.Post.tryCatch
  have hfilled := h.filled made s₁ s₂ hcreate hrestrict
  rcases hbody : (x.body made.1 made.2).run s₂ with ⟨e | _, s₃⟩
  · have hstaged₃ := hfilled.elim hbody
    apply Eff.Post.of_eq hbody
    dsimp only
    apply Eff.Post.bind_keeps (h.cleaned made.2)
    · intro _ s₄ hclean _
      exact Eff.Post.of_eq rfl
        (hstaged₃.removed hcreate hrestrict hbody hname hfresh hclean.1 hclean.2)
    · intro e' s₄ hclean
      exact hstaged₃.removed hcreate hrestrict hbody hname hfresh hclean.1 hclean.2
  · obtain ⟨content, hwhole, hnew⟩ := hfilled.elim hbody
    exact Eff.Post.of_eq hbody (Replaced.returned hwhole hnew)

end Replacement

end CryptoFlex.Lib
