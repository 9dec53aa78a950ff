import Mathlib.Data.List.Basic

namespace CryptoFlex.Lib

variable {σ τ ε : Type}

/-- The system takes steps with these labels, one after the other. -/
inductive Runs (step : σ → ε → σ → Prop) : σ → List ε → σ → Prop
  | nil {s : σ} : Runs step s [] s
  | cons {s s₁ s' : σ} {e : ε} {es : List ε} (first : step s e s₁) (rest : Runs step s₁ es s') :
    Runs step s (e :: es) s'

namespace Runs

variable {step : σ → ε → σ → Prop} {s s₁ s' : σ} {es es' : List ε}

theorem append (h : Runs step s es s₁) (h' : Runs step s₁ es' s') :
    Runs step s (es ++ es') s' := by
  induction h with
  | nil => exact h'
  | cons first _ ih => exact cons first (ih h')

/-- What every step keeps, every run keeps. -/
theorem invariant {I : σ → Prop} (hstep : ∀ s e s', I s → step s e s' → I s')
    (h : Runs step s es s') (hs : I s) : I s' := by
  induction h with
  | nil => exact hs
  | cons first _ ih => exact ih (hstep _ _ _ hs first)

/-- Where steps are simulated, runs are. -/
theorem simulates {step' : τ → ε → τ → Prop} {R : σ → τ → Prop}
    (hstep : ∀ s t e s', R s t → step s e s' → ∃ t', step' t e t' ∧ R s' t')
    (h : Runs step s es s') {t : τ} (hr : R s t) : ∃ t', Runs step' t es t' ∧ R s' t' := by
  induction h generalizing t with
  | nil => exact ⟨t, nil, hr⟩
  | cons first _ ih =>
    obtain ⟨t₁, first', hr₁⟩ := hstep _ _ _ _ hr first
    obtain ⟨t', rest', hr'⟩ := ih hr₁
    exact ⟨t', cons first' rest', hr'⟩

end Runs

end CryptoFlex.Lib
