import CryptoFlex.Lib.Transition
import Mathlib

namespace CryptoFlex.Lib

/-- Threads that are where they are in their programs, and what they share. -/
structure Pool (τ σ : Type) where
  threads : List τ
  shared : σ

inductive PoolEvent (τ : Type)
  | spawn (t : τ)
  | run (i : Nat)
  | outside

/-- What the threads of a pool do: `next` is an atomic step of a thread on the shared state, and
`outside` what else may happen to that state. -/
structure ThreadSystem (τ σ : Type) where
  next : τ → σ → τ × σ
  Finished : τ → Prop
  Fresh : τ → Prop
  Outside : σ → σ → Prop

namespace Pool

variable {τ σ : Type}

/-- The pool after a step of the thread `t` in the place `i`. -/
def advance (S : ThreadSystem τ σ) (p : Pool τ σ) (i : Nat) (t : τ) : Pool τ σ where
  threads := p.threads.set i (S.next t p.shared).1
  shared := (S.next t p.shared).2

/-- The scheduler lets any thread that has not finished take its next step; threads are spawned at
any time. -/
inductive Step (S : ThreadSystem τ σ) : Pool τ σ → PoolEvent τ → Pool τ σ → Prop
  | spawn {p : Pool τ σ} {t : τ} (fresh : S.Fresh t) :
    Step S p (.spawn t) { p with threads := p.threads ++ [t] }
  | run {p : Pool τ σ} {i : Nat} {t : τ} (thread : p.threads[i]? = some t)
    (unfinished : ¬S.Finished t) : Step S p (.run i) (p.advance S i t)
  | outside {p : Pool τ σ} {s : σ} (outside : S.Outside p.shared s) :
    Step S p .outside { p with shared := s }

variable {S : ThreadSystem τ σ} {p p' : Pool τ σ} {es : List (PoolEvent τ)}

/-- A promise about a thread that its steps keep, whatever they find in the shared state, holds of
all threads. -/
theorem forall_threads {P : τ → Prop} (hfresh : ∀ t, S.Fresh t → P t)
    (hnext : ∀ t s, P t → P (S.next t s).1) (h : Runs (Step S) p es p')
    (hp : ∀ t ∈ p.threads, P t) : ∀ t ∈ p'.threads, P t := by
  apply h.invariant (I := fun p => ∀ t ∈ p.threads, P t) _ hp
  intro p e p' hp hstep
  cases hstep with
  | spawn fresh =>
    intro t ht
    rcases List.mem_append.mp ht with ht | ht
    · exact hp t ht
    · rw [List.mem_singleton.mp ht]
      exact hfresh _ fresh
  | run thread _ =>
    intro t ht
    rcases List.mem_or_eq_of_mem_set ht with ht | rfl
    · exact hp t ht
    · exact hnext _ _ (hp _ (List.mem_of_getElem? thread))
  | outside _ => exact hp

/-- The places that all threads together hold. -/
def held (hold : τ → Nat) (p : Pool τ σ) : Nat := (p.threads.map hold).sum

theorem held_eq_zero {hold : τ → Nat} :
    p.held hold = 0 ↔ ∀ t ∈ p.threads, hold t = 0 := by
  simp [held, List.sum_eq_zero_iff_forall_eq_nat]

theorem sum_set (f : τ → Nat) {l : List τ} {i : Nat} {t : τ} (h : l[i]? = some t) (t' : τ) :
    ((l.set i t').map f).sum + f t = (l.map f).sum + f t' := by
  induction l generalizing i with
  | nil => simp at h
  | cons a l ih =>
    cases i with
    | zero =>
      have hhead : a = t := by simpa using h
      simp only [List.set_cons_zero, List.map_cons, List.sum_cons, hhead]
      omega
    | succ i =>
      have htail := ih (i := i) (by simpa using h)
      simp only [List.set_cons_succ, List.map_cons, List.sum_cons]
      omega

theorem held_advance (hold : τ → Nat) {i : Nat} {t : τ} (h : p.threads[i]? = some t) :
    (p.advance S i t).held hold + hold t = p.held hold + hold (S.next t p.shared).1 :=
  sum_set hold h _

theorem advance_conserved {free : σ → Nat} {hold : τ → Nat}
    (hnext : ∀ t s, free (S.next t s).2 + hold (S.next t s).1 = free s + hold t)
    {i : Nat} {t : τ} (h : p.threads[i]? = some t) :
    free (p.advance S i t).shared + (p.advance S i t).held hold =
      free p.shared + p.held hold := by
  have hheld := held_advance (S := S) hold h
  have hplaces : free (p.advance S i t).shared + hold (S.next t p.shared).1 =
      free p.shared + hold t := hnext t p.shared
  omega

/-- Steps that take what they hold from the free places, and give it back, lose no place. -/
theorem conserved {free : σ → Nat} {hold : τ → Nat} (hfresh : ∀ t, S.Fresh t → hold t = 0)
    (hnext : ∀ t s, free (S.next t s).2 + hold (S.next t s).1 = free s + hold t)
    (houtside : ∀ s s', S.Outside s s' → free s' = free s) (h : Runs (Step S) p es p') :
    free p'.shared + p'.held hold = free p.shared + p.held hold := by
  apply h.invariant
    (I := fun q => free q.shared + q.held hold = free p.shared + p.held hold) _ rfl
  intro q e q' hq hstep
  cases hstep with
  | @spawn t fresh =>
    have hnew : ({ q with threads := q.threads ++ [t] } : Pool τ σ).held hold = q.held hold := by
      simp [held, hfresh t fresh]
    rw [hnew]
    exact hq
  | @run i t thread _ =>
    rw [advance_conserved hnext thread]
    exact hq
  | outside outside =>
    rw [← hq]
    exact congrArg (· + q.held hold) (houtside _ _ outside)

/-- A relation between two lists of threads that the step of one thread keeps. -/
theorem forall₂_set {R : τ → τ → Prop} {l l' : List τ} (h : List.Forall₂ R l l') {i : Nat}
    {t t' : τ} (ht : l'[i]? = some t) (hR : ∀ a, R a t → R a t') :
    List.Forall₂ R l (l'.set i t') := by
  induction h generalizing i with
  | nil => exact List.Forall₂.nil
  | @cons a b _ _ hab hrest ih =>
    cases i with
    | zero =>
      have hhead : b = t := by simpa using ht
      exact List.Forall₂.cons (hR a (hhead ▸ hab)) hrest
    | succ i => exact List.Forall₂.cons hab (ih (by simpa using ht))

/-- The steps that the thread in the place `i` takes in a run. -/
def stepsOf (i : Nat) (es : List (PoolEvent τ)) : Nat :=
  es.countP fun
    | .run j => j = i
    | _ => false

/-- The steps that the thread in the place `i` has still to take, at most, or any thread that may
yet come to that place. -/
def remaining (rank : τ → Nat) (bound : Nat) (p : Pool τ σ) (i : Nat) : Nat :=
  (p.threads[i]?.map rank).getD bound

theorem remaining_spawn {rank : τ → Nat} {bound : Nat} {t : τ} (h : rank t ≤ bound) (i : Nat) :
    remaining rank bound { p with threads := p.threads ++ [t] } i ≤ remaining rank bound p i := by
  unfold remaining
  rcases Nat.lt_trichotomy i p.threads.length with hlt | rfl | hgt
  · rw [List.getElem?_append_left hlt]
  · simpa using h
  · rw [List.getElem?_eq_none hgt.le, List.getElem?_eq_none (by simp; omega)]

theorem remaining_advance_ne (rank : τ → Nat) (bound : Nat) {i j : Nat} {t : τ} (h : j ≠ i) :
    remaining rank bound (p.advance S j t) i = remaining rank bound p i := by
  unfold remaining advance
  rw [List.getElem?_set_ne h]

theorem remaining_advance_lt {rank : τ → Nat} (bound : Nat) {i : Nat} {t : τ}
    (h : p.threads[i]? = some t) (hlt : rank (S.next t p.shared).1 < rank t) :
    remaining rank bound (p.advance S i t) i < remaining rank bound p i := by
  obtain ⟨hi, ht⟩ := List.getElem?_eq_some_iff.mp h
  simpa [remaining, advance, hi, ht] using hlt

/-- Threads that come nearer to their end with each step take a bounded number of steps each,
however they are scheduled. -/
theorem stepsOf_le {rank : τ → Nat} {bound : Nat} (hfresh : ∀ t, S.Fresh t → rank t ≤ bound)
    (hnext : ∀ t s, ¬S.Finished t → rank (S.next t s).1 < rank t) (h : Runs (Step S) p es p')
    (i : Nat) : stepsOf i es + remaining rank bound p' i ≤ remaining rank bound p i := by
  induction h with
  | nil => simp [stepsOf]
  | @cons p p₁ p' e es first _ ih =>
    cases first with
    | @spawn t fresh =>
      have hle := remaining_spawn (p := p) (hfresh t fresh) i
      simp only [stepsOf, List.countP_cons, Bool.false_eq_true, if_false, add_zero] at ih ⊢
      omega
    | @run j t thread unfinished =>
      by_cases hji : j = i
      · subst hji
        have hlt := remaining_advance_lt bound thread (hnext t p.shared unfinished)
        simp only [stepsOf, List.countP_cons, decide_true, if_true] at ih ⊢
        omega
      · have hsame := remaining_advance_ne (S := S) (p := p) (t := t) rank bound hji
        simp only [stepsOf, List.countP_cons, decide_eq_true_eq, if_neg hji, add_zero] at ih ⊢
        omega
    | outside _ => simpa [stepsOf, remaining] using ih

theorem held_advance_lt {rank : τ → Nat} (hnext : ∀ t s, ¬S.Finished t → rank (S.next t s).1 < rank t)
    {i : Nat} {t : τ} (h : p.threads[i]? = some t) (hf : ¬S.Finished t) :
    (p.advance S i t).held rank < p.held rank := by
  have hheld := held_advance (S := S) rank h
  have hlt := hnext t p.shared hf
  omega

/-- Where some thread can always take a step that keeps `I`, the threads of a pool can all be run
to their ends, with `I` kept throughout. -/
theorem drains {I : Pool τ σ → Prop} {rank : τ → Nat}
    (hnext : ∀ t s, ¬S.Finished t → rank (S.next t s).1 < rank t)
    (hgood : ∀ p, I p → (∃ t ∈ p.threads, ¬S.Finished t) →
      ∃ i t, p.threads[i]? = some t ∧ ¬S.Finished t ∧ I (p.advance S i t)) (hp : I p) :
    ∃ (schedule : List Nat) (p' : Pool τ σ), Runs (Step S) p (schedule.map PoolEvent.run) p' ∧
      (∀ t ∈ p'.threads, S.Finished t) ∧ I p' := by
  induction hn : p.held rank using Nat.strong_induction_on generalizing p with
  | _ n ih =>
    by_cases hall : ∀ t ∈ p.threads, S.Finished t
    · exact ⟨[], p, Runs.nil, hall, hp⟩
    · have hsome : ∃ t ∈ p.threads, ¬S.Finished t := by
        simpa only [not_forall, exists_prop] using hall
      obtain ⟨i, t, hi, hf, hkept⟩ := hgood p hp hsome
      have hlt := held_advance_lt hnext hi hf
      obtain ⟨schedule, p', hrun, hends, hp'⟩ := ih _ (hn ▸ hlt) hkept rfl
      exact ⟨i :: schedule, p', Runs.cons (Step.run hi hf) hrun, hends, hp'⟩

end Pool

end CryptoFlex.Lib
