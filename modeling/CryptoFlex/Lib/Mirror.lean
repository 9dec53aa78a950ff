import CryptoFlex.Lib.Loop

namespace CryptoFlex.Lib

variable {ε σ τ α β : Type} {R : σ → τ → Prop}

namespace Eff

/-- From states that `R` relates: where `x` returns, `y` returns the same, and leaves a state that
is related to the one `x` leaves. -/
def Mirrors (R : σ → τ → Prop) (x : Eff ε σ α) (y : Eff ε τ α) : Prop :=
  ∀ s t, R s t → ∀ a s', x.run s = (.ok a, s') → ∃ t', y.run t = (.ok a, t') ∧ R s' t'

/-- No run of `x` returns. -/
def Stuck (x : Eff ε σ α) : Prop := ∀ s a s', x.run s ≠ (.ok a, s')

theorem Stuck.raise (e : ε) : Stuck (Eff.raise e : Eff ε σ α) := by
  intro s a s' h
  cases h

theorem Stuck.mirrors {x : Eff ε σ α} (hx : Stuck x) (y : Eff ε τ α) : Mirrors R x y := by
  intro s t _ a s' h
  exact absurd h (hx s a s')

namespace Mirrors

theorem pure (a : α) : Mirrors R (Pure.pure a : Eff ε σ α) (Pure.pure a : Eff ε τ α) := by
  intro s t hr b s' h
  cases h
  exact ⟨t, rfl, hr⟩

theorem raise (e : ε) (y : Eff ε τ α) : Mirrors R (Eff.raise e : Eff ε σ α) y :=
  (Stuck.raise e).mirrors y

theorem lift (x : Except ε α) : Mirrors R (Eff.lift x : Eff ε σ α) (Eff.lift x : Eff ε τ α) := by
  intro s t hr a s' h
  cases h
  exact ⟨t, rfl, hr⟩

theorem modify {f : σ → σ} {g : τ → τ} (h : ∀ s t, R s t → R (f s) (g t)) :
    Mirrors R (Eff.modify f : Eff ε σ Unit) (Eff.modify g : Eff ε τ Unit) := by
  intro s t hr a s' hrun
  cases hrun
  exact ⟨g t, rfl, h s t hr⟩

theorem get_bind {f : σ → Eff ε σ α} {g : τ → Eff ε τ α}
    (h : ∀ s t, R s t → Mirrors R (f s) (g t)) : Mirrors R (Eff.get >>= f) (Eff.get >>= g) := by
  intro s t hr a s' hrun
  rw [run_get_bind] at hrun ⊢
  exact h s t hr s t hr a s' hrun

theorem bind {x : Eff ε σ α} {y : Eff ε τ α} {f : α → Eff ε σ β} {g : α → Eff ε τ β}
    (hx : Mirrors R x y) (hf : ∀ a, Mirrors R (f a) (g a)) : Mirrors R (x >>= f) (y >>= g) := by
  intro s t hr b s' hrun
  obtain ⟨a, s₁, hxs, hfs⟩ := bind_eq_ok.mp hrun
  obtain ⟨t₁, hyt, hr₁⟩ := hx s t hr a s₁ hxs
  obtain ⟨t', hgt, hr'⟩ := hf a s₁ t₁ hr₁ b s' hfs
  exact ⟨t', by rw [bind_ok hyt, hgt], hr'⟩

theorem ite {c : Prop} [Decidable c] {x x' : Eff ε σ α} {y y' : Eff ε τ α}
    (h : c → Mirrors R x y) (h' : ¬c → Mirrors R x' y') :
    Mirrors R (if c then x else x') (if c then y else y') := by
  by_cases hc : c
  · simp only [if_pos hc]
    exact h hc
  · simp only [if_neg hc]
    exact h' hc

/-- A handler that never returns takes no part in a run that does. -/
theorem tryCatch {x : Eff ε σ α} {y : Eff ε τ α} {k : ε → Eff ε σ α} {l : ε → Eff ε τ α}
    (hx : Mirrors R x y) (hk : ∀ e, Stuck (k e)) :
    Mirrors R (Eff.tryCatch x k) (Eff.tryCatch y l) := by
  intro s t hr a s' hrun
  rcases hxs : x.run s with ⟨e | b, s₁⟩
  · rw [tryCatch_error hxs] at hrun
    exact absurd hrun (hk e s₁ a s')
  · rw [tryCatch_ok hxs] at hrun
    cases hrun
    obtain ⟨t', hyt, hr'⟩ := hx s t hr a s' hxs
    exact ⟨t', tryCatch_ok hyt l, hr'⟩

theorem tryFinally {x : Eff ε σ α} {y : Eff ε τ α} {fin : Eff ε σ Unit} {fin' : Eff ε τ Unit}
    (hx : Mirrors R x y) (hfin : Mirrors R fin fin') :
    Mirrors R (Eff.tryFinally x fin) (Eff.tryFinally y fin') := by
  intro s t hr a s' hrun
  obtain ⟨s₁, hxs, hfs⟩ := tryFinally_eq_ok.mp hrun
  obtain ⟨t₁, hyt, hr₁⟩ := hx s t hr a s₁ hxs
  obtain ⟨t', hft, hr'⟩ := hfin s₁ t₁ hr₁ () s' hfs
  exact ⟨t', tryFinally_run hyt hft, hr'⟩

/-- Computations on components of the two states. -/
theorem zoom {σ' τ' : Type} {S : σ' → τ' → Prop} {view : σ → σ'} {put : σ' → σ → σ}
    {view' : τ → τ'} {put' : τ' → τ → τ} {x : Eff ε σ' α} {y : Eff ε τ' α} (hx : Mirrors S x y)
    (hview : ∀ s t, R s t → S (view s) (view' t))
    (hput : ∀ s t u v, R s t → S u v → R (put u s) (put' v t)) :
    Mirrors R (Eff.zoom view put x) (Eff.zoom view' put' y) := by
  intro s t hr a s' hrun
  rw [run_zoom] at hrun
  obtain ⟨hok, hs'⟩ := Prod.mk.inj hrun
  obtain ⟨v, hyv, hs⟩ := hx _ _ (hview s t hr) a _ (Prod.ext hok rfl)
  refine ⟨put' v t, ?_, ?_⟩
  · rw [run_zoom, hyv]
  · rw [← hs']
    exact hput s t _ v hr hs

end Mirrors

end Eff

/-- A loop whose passes mirror those of another. -/
theorem Loop.run_mirrors {S Q : Type} (L : Loop ε σ S Q) (M : Loop ε τ S Q)
    (hstep : ∀ v, Eff.Mirrors R (L.step v) (M.step v)) (v : S) :
    Eff.Mirrors R (L.toEff v) (M.toEff v) := by
  intro s
  induction v, s using L.induction with
  | h v s ih =>
    intro t hr a s' hrun
    rcases hpass : (L.step v).run s with ⟨r, s₁⟩
    match r, hpass with
    | .ok (.inl v₁), hpass =>
      rw [L.run_continue hpass] at hrun
      obtain ⟨t₁, hpass', hr₁⟩ := hstep v s t hr _ s₁ hpass
      obtain ⟨t', hrest, hr'⟩ := ih v₁ s₁ hpass t₁ hr₁ a s' hrun
      exact ⟨t', by rw [M.run_continue hpass', hrest], hr'⟩
    | .ok (.inr b), hpass =>
      rw [L.run_break hpass] at hrun
      cases hrun
      obtain ⟨t', hpass', hr'⟩ := hstep v s t hr _ _ hpass
      exact ⟨t', M.run_break hpass', hr'⟩
    | .error e, hpass =>
      rw [L.run_raise hpass] at hrun
      cases hrun

end CryptoFlex.Lib
