import CryptoFlex.Lib.Effect

namespace CryptoFlex.Lib

variable {ε σ S R : Type}

/-- A `while True` loop with its termination proof. A step either continues with new loop
variables (`inl`) or leaves the loop (`inr`); each continuing step lowers the rank. -/
structure Loop (ε σ S R : Type) where
  step : S → Eff ε σ (S ⊕ R)
  rank : S → σ → Nat
  decreases : ∀ s w s' w', (step s).run w = (.ok (.inl s'), w') → rank s' w' < rank s w

namespace Loop

def exec (L : Loop ε σ S R) (s : S) (w : σ) : Except ε R × σ :=
  match _h : (L.step s).run w with
  | (.ok (.inl s'), w') => L.exec s' w'
  | (.ok (.inr r), w') => (.ok r, w')
  | (.error e, w') => (.error e, w')
termination_by L.rank s w
decreasing_by exact L.decreases s w s' w' _h

def toEff (L : Loop ε σ S R) (s : S) : Eff ε σ R := ⟨L.exec s⟩

variable (L : Loop ε σ S R)

theorem run_continue {s s' : S} {w w' : σ} (h : (L.step s).run w = (.ok (.inl s'), w')) :
    (L.toEff s).run w = (L.toEff s').run w' := by
  change L.exec s w = L.exec s' w'
  rw [exec]
  split <;> simp_all

theorem run_break {s : S} {r : R} {w w' : σ} (h : (L.step s).run w = (.ok (.inr r), w')) :
    (L.toEff s).run w = (.ok r, w') := by
  change L.exec s w = _
  rw [exec]
  split <;> simp_all

theorem run_raise {s : S} {e : ε} {w w' : σ} (h : (L.step s).run w = (.error e, w')) :
    (L.toEff s).run w = (.error e, w') := by
  change L.exec s w = _
  rw [exec]
  split <;> simp_all

/-- Induction along a run: the claim for a loop state may use the claim for the state the step
continues with. -/
theorem induction {P : S → σ → Prop}
    (h : ∀ s w, (∀ s' w', (L.step s).run w = (.ok (.inl s'), w') → P s' w') → P s w)
    (s : S) (w : σ) : P s w := by
  induction hn : L.rank s w using Nat.strongRecOn generalizing s w with
  | ind n ih =>
    apply h
    intro s' w' hs
    have hlt := L.decreases s w s' w' hs
    exact ih _ (by omega) s' w' rfl

/-- The invariant rule: what every step preserves, or turns into the exit condition, holds at the
exit of every run. -/
theorem run_post {I : S → σ → Prop} {Q : Except ε R → σ → Prop}
    (hstep : ∀ s w, I s w → Eff.Post (L.step s) w fun r w' => match r with
      | .ok (.inl s') => I s' w'
      | .ok (.inr b) => Q (.ok b) w'
      | .error e => Q (.error e) w')
    (s : S) (w : σ) (hi : I s w) : Eff.Post (L.toEff s) w Q := by
  induction s, w using L.induction with
  | h s w ih =>
    have hs := hstep s w hi
    rcases h : (L.step s).run w with ⟨r, w'⟩
    have hq := hs.elim h
    match r, h, hq with
    | .ok (.inl s'), h, hq =>
      have hr := ih s' w' h hq
      unfold Eff.Post at hr ⊢
      rw [L.run_continue h]
      exact hr
    | .ok (.inr b), h, hq => exact Eff.Post.of_eq (L.run_break h) hq
    | .error e, h, hq => exact Eff.Post.of_eq (L.run_raise h) hq

/-- A frame condition of the step is one of the run. -/
theorem run_keeps {K : σ → σ → Prop} (trans : ∀ s t u, K s t → K t u → K s u)
    (hstep : ∀ s, Eff.Keeps K (L.step s)) (s : S) : Eff.Keeps K (L.toEff s) := by
  intro w
  induction s, w using L.induction with
  | h s w ih =>
    rcases h : (L.step s).run w with ⟨r, w'⟩
    have hk := (hstep s).of_eq h
    match r, h with
    | .ok (.inl s'), h => rw [L.run_continue h]; exact trans _ _ _ hk (ih s' w' h)
    | .ok (.inr b), h => rw [L.run_break h]; exact hk
    | .error e, h => rw [L.run_raise h]; exact hk

/-- An exception of a run is one of a step. -/
theorem run_raises {P : ε → Prop} (hstep : ∀ s, Eff.Raises P (L.step s)) (s : S) :
    Eff.Raises P (L.toEff s) := by
  intro w
  induction s, w using L.induction with
  | h s w ih =>
    intro e t hrun
    rcases h : (L.step s).run w with ⟨r, w'⟩
    match r, h with
    | .ok (.inl s'), h =>
      rw [L.run_continue h] at hrun
      exact ih s' w' h e t hrun
    | .ok (.inr b), h =>
      rw [L.run_break h] at hrun
      cases hrun
    | .error e', h =>
      rw [L.run_raise h] at hrun
      cases hrun
      exact hstep s w _ _ h

/-- The loop states that a run from `s` and `w` goes through. -/
inductive Reaches : S → σ → S → σ → Prop
  | refl (s : S) (w : σ) : Reaches s w s w
  | step {s s₁ s₂ : S} {w w₁ w₂ : σ} (pass : (L.step s).run w = (.ok (.inl s₁), w₁))
    (more : Reaches s₁ w₁ s₂ w₂) : Reaches s w s₂ w₂

/-- What every continuing step keeps holds in every loop state of a run. -/
theorem Reaches.post {I : S → σ → Prop}
    (hstep : ∀ s w s' w', I s w → (L.step s).run w = (.ok (.inl s'), w') → I s' w')
    {s s' : S} {w w' : σ} (h : L.Reaches s w s' w') (hi : I s w) : I s' w' := by
  induction h with
  | refl s w => exact hi
  | step pass more ih => exact ih (hstep _ _ _ _ hi pass)

/-- The same for what is said of the loop variables alone. -/
theorem Reaches.invariant {I : S → Prop}
    (hstep : ∀ s w s' w', I s → (L.step s).run w = (.ok (.inl s'), w') → I s')
    {s s' : S} {w w' : σ} (h : L.Reaches s w s' w') (hi : I s) : I s' :=
  Reaches.post L (I := fun s _ => I s) hstep h hi

/-- The loop states a run goes through, with the number of passes made to get there. -/
inductive ReachesIn : Nat → S → σ → S → σ → Prop
  | refl (s : S) (w : σ) : ReachesIn 0 s w s w
  | step {n : Nat} {s s₁ s₂ : S} {w w₁ w₂ : σ} (pass : (L.step s).run w = (.ok (.inl s₁), w₁))
    (more : ReachesIn n s₁ w₁ s₂ w₂) : ReachesIn (n + 1) s w s₂ w₂

/-- A measure that every pass lowers, while an invariant holds, bounds the number of passes. -/
theorem ReachesIn.le_measure {I : S → σ → Prop} (m : S → σ → Nat)
    (hstep : ∀ s w s' w', I s w → (L.step s).run w = (.ok (.inl s'), w') →
      I s' w' ∧ m s' w' < m s w)
    {n : Nat} {s s' : S} {w w' : σ} (h : L.ReachesIn n s w s' w') (hi : I s w) :
    n + m s' w' ≤ m s w := by
  induction h with
  | refl s w => omega
  | step pass _ ih =>
    obtain ⟨hi', hlt⟩ := hstep _ _ _ _ hi pass
    have hle := ih hi'
    omega

theorem ReachesIn.le_rank {n : Nat} {s s' : S} {w w' : σ} (h : L.ReachesIn n s w s' w') :
    n ≤ L.rank s w := by
  have hle := ReachesIn.le_measure L (I := fun _ _ => True) L.rank
    (fun s w s' w' _ hpass => ⟨trivial, L.decreases s w s' w' hpass⟩) h trivial
  omega

/-- The run makes `n` passes that continue and one that leaves the loop. -/
inductive ExitsIn : Nat → S → σ → Except ε R → σ → Prop
  | break {s : S} {w w' : σ} {r : R} (pass : (L.step s).run w = (.ok (.inr r), w')) :
    ExitsIn 0 s w (.ok r) w'
  | raise {s : S} {w w' : σ} {e : ε} (pass : (L.step s).run w = (.error e, w')) :
    ExitsIn 0 s w (.error e) w'
  | continue {n : Nat} {s s₁ : S} {w w₁ w' : σ} {r : Except ε R}
    (pass : (L.step s).run w = (.ok (.inl s₁), w₁)) (more : ExitsIn n s₁ w₁ r w') :
    ExitsIn (n + 1) s w r w'

/-- Every run ends, with no more passes than the rank. -/
theorem exitsIn_run (s : S) (w : σ) :
    ∃ n, n ≤ L.rank s w ∧ L.ExitsIn n s w ((L.toEff s).run w).1 ((L.toEff s).run w).2 := by
  induction s, w using L.induction with
  | h s w ih =>
    rcases h : (L.step s).run w with ⟨r, w'⟩
    match r, h with
    | .ok (.inl s'), h =>
      obtain ⟨n, hn, hexit⟩ := ih s' w' h
      have hlt := L.decreases s w s' w' h
      rw [L.run_continue h]
      exact ⟨n + 1, by omega, ExitsIn.continue h hexit⟩
    | .ok (.inr b), h =>
      rw [L.run_break h]
      exact ⟨0, Nat.zero_le _, ExitsIn.break h⟩
    | .error e, h =>
      rw [L.run_raise h]
      exact ⟨0, Nat.zero_le _, ExitsIn.raise h⟩

end Loop

end CryptoFlex.Lib
