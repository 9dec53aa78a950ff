import Mathlib.Logic.Basic
import Mathlib.Tactic.Tauto

namespace CryptoFlex.Lib

/-- A computation over a mutable state that may raise. The state survives the exception. -/
structure Eff (ε σ α : Type) where
  run : σ → Except ε α × σ

namespace Eff

variable {ε σ τ α β : Type}

def ret (a : α) : Eff ε σ α := ⟨fun s => (.ok a, s)⟩

def bind (x : Eff ε σ α) (f : α → Eff ε σ β) : Eff ε σ β := ⟨fun s =>
  match x.run s with
  | (.ok a, s') => (f a).run s'
  | (.error e, s') => (.error e, s')⟩

instance : Monad (Eff ε σ) where
  pure := ret
  bind := bind

def raise (e : ε) : Eff ε σ α := ⟨fun s => (.error e, s)⟩

/-- A pure computation that may raise leaves the state alone. -/
def lift (x : Except ε α) : Eff ε σ α := ⟨fun s => (x, s)⟩

def get : Eff ε σ σ := ⟨fun s => (.ok s, s)⟩

def modify (f : σ → σ) : Eff ε σ Unit := ⟨fun s => (.ok (), f s)⟩

/-- `try x except e: h e`: the handler starts from the state the exception left. -/
def tryCatch (x : Eff ε σ α) (h : ε → Eff ε σ α) : Eff ε σ α := ⟨fun s =>
  match x.run s with
  | (.ok a, s') => (.ok a, s')
  | (.error e, s') => (h e).run s'⟩

/-- `try x finally: fin`: an exception of `fin` replaces the outcome of `x`. -/
def tryFinally (x : Eff ε σ α) (fin : Eff ε σ Unit) : Eff ε σ α := ⟨fun s =>
  match x.run s with
  | (r, s') =>
    match fin.run s' with
    | (.ok _, s'') => (r, s'')
    | (.error e, s'') => (.error e, s'')⟩

/-- Run a computation on one component of the state. -/
def zoom (view : σ → τ) (put : τ → σ → σ) (x : Eff ε τ α) : Eff ε σ α := ⟨fun s =>
  ((x.run (view s)).1, put (x.run (view s)).2 s)⟩

@[simp] theorem run_pure (a : α) (s : σ) : (pure a : Eff ε σ α).run s = (.ok a, s) := rfl
@[simp] theorem run_raise (e : ε) (s : σ) :
    (raise e : Eff ε σ α).run s = (.error e, s) := rfl
@[simp] theorem run_lift (x : Except ε α) (s : σ) :
    (lift x : Eff ε σ α).run s = (x, s) := rfl
@[simp] theorem run_get (s : σ) : (get : Eff ε σ σ).run s = (.ok s, s) := rfl
@[simp] theorem run_modify (f : σ → σ) (s : σ) :
    (modify f : Eff ε σ Unit).run s = (.ok (), f s) := rfl
@[simp] theorem run_zoom (view : σ → τ) (put : τ → σ → σ) (x : Eff ε τ α) (s : σ) :
    (zoom view put x).run s = ((x.run (view s)).1, put (x.run (view s)).2 s) := rfl

theorem run_bind (x : Eff ε σ α) (f : α → Eff ε σ β) (s : σ) :
    (x >>= f).run s = match x.run s with
      | (.ok a, s') => (f a).run s'
      | (.error e, s') => (.error e, s') := rfl

theorem bind_ok {x : Eff ε σ α} {s s' : σ} {a : α} (h : x.run s = (.ok a, s'))
    (f : α → Eff ε σ β) : (x >>= f).run s = (f a).run s' := by
  rw [run_bind, h]

theorem bind_error {x : Eff ε σ α} {s s' : σ} {e : ε} (h : x.run s = (.error e, s'))
    (f : α → Eff ε σ β) : (x >>= f).run s = (.error e, s') := by
  rw [run_bind, h]

@[simp] theorem run_pure_bind (a : α) (f : α → Eff ε σ β) (s : σ) :
    ((pure a : Eff ε σ α) >>= f).run s = (f a).run s := rfl
@[simp] theorem run_raise_bind (e : ε) (f : α → Eff ε σ β) (s : σ) :
    ((raise e : Eff ε σ α) >>= f).run s = (.error e, s) := rfl
@[simp] theorem run_modify_bind (g : σ → σ) (f : Unit → Eff ε σ β) (s : σ) :
    ((modify g : Eff ε σ Unit) >>= f).run s = (f ()).run (g s) := rfl
@[simp] theorem run_get_bind (f : σ → Eff ε σ β) (s : σ) :
    ((get : Eff ε σ σ) >>= f).run s = (f s).run s := rfl
@[simp] theorem run_lift_ok_bind (a : α) (f : α → Eff ε σ β) (s : σ) :
    ((lift (.ok a) : Eff ε σ α) >>= f).run s = (f a).run s := rfl
@[simp] theorem run_lift_error_bind (e : ε) (f : α → Eff ε σ β) (s : σ) :
    ((lift (.error e) : Eff ε σ α) >>= f).run s = (.error e, s) := rfl

theorem bind_pure (x : Eff ε σ α) : (x >>= fun a => pure a) = x := by
  apply congrArg Eff.mk
  funext s
  dsimp only [Bind.bind, Eff.bind]
  rcases x.run s with ⟨_ | _, t⟩ <;> rfl

theorem bind_assoc {γ : Type} (x : Eff ε σ α) (f : α → Eff ε σ β) (g : β → Eff ε σ γ) :
    (x >>= f) >>= g = x >>= fun a => f a >>= g := by
  apply congrArg Eff.mk
  funext s
  dsimp only [Bind.bind, bind]
  rcases x.run s with ⟨r, t⟩
  cases r <;> rfl

theorem pure_bind (a : α) (f : α → Eff ε σ β) : (pure a : Eff ε σ α) >>= f = f a := rfl

theorem raise_bind (e : ε) (f : α → Eff ε σ β) : (raise e : Eff ε σ α) >>= f = raise e := rfl

theorem ite_bind {c : Prop} [Decidable c] (x y : Eff ε σ α) (f : α → Eff ε σ β) :
    (if c then x else y) >>= f = if c then x >>= f else y >>= f := by
  split <;> rfl

theorem tryCatch_ok {x : Eff ε σ α} {s s' : σ} {a : α} (h : x.run s = (.ok a, s'))
    (k : ε → Eff ε σ α) : (tryCatch x k).run s = (.ok a, s') := by
  simp only [tryCatch, h]

theorem tryCatch_returns {x : Eff ε σ α} {s : σ} {a : α} (h : ∃ t, x.run s = (.ok a, t))
    (k : ε → Eff ε σ α) : ∃ t, (tryCatch x k).run s = (.ok a, t) := by
  obtain ⟨t, hx⟩ := h
  exact ⟨t, tryCatch_ok hx k⟩

theorem tryCatch_error {x : Eff ε σ α} {s s' : σ} {e : ε} (h : x.run s = (.error e, s'))
    (k : ε → Eff ε σ α) : (tryCatch x k).run s = (k e).run s' := by
  simp only [tryCatch, h]

/-- A handler that only changes the exception. -/
theorem tryCatch_raise {x : Eff ε σ α} {s t : σ} {r : Except ε α} (h : x.run s = (r, t))
    (f : ε → ε) : (tryCatch x fun e => raise (f e)).run s = (r.mapError f, t) := by
  cases r with
  | ok a => exact tryCatch_ok h _
  | error e => exact tryCatch_error h _

/-- A pure last step. -/
theorem bind_lift {x : Eff ε σ α} {s t : σ} {r : Except ε α} (h : x.run s = (r, t))
    (f : α → Except ε β) : (x >>= fun a => lift (f a)).run s = (r >>= f, t) := by
  cases r with
  | ok a => exact bind_ok h _
  | error e => exact bind_error h _

theorem tryFinally_run {x : Eff ε σ α} {fin : Eff ε σ Unit} {s t u : σ} {r : Except ε α}
    (h : x.run s = (r, t)) (hf : fin.run t = (.ok (), u)) :
    (tryFinally x fin).run s = (r, u) := by
  simp only [tryFinally, h, hf]

theorem tryFinally_error {x : Eff ε σ α} {fin : Eff ε σ Unit} {s t u : σ} {r : Except ε α} {e : ε}
    (h : x.run s = (r, t)) (hf : fin.run t = (.error e, u)) :
    (tryFinally x fin).run s = (.error e, u) := by
  simp only [tryFinally, h, hf]

/-- A computation that returned did so after each of its parts returned. -/
theorem bind_eq_ok {x : Eff ε σ α} {f : α → Eff ε σ β} {s t : σ} {b : β} :
    (x >>= f).run s = (.ok b, t) ↔
      ∃ a s', x.run s = (.ok a, s') ∧ (f a).run s' = (.ok b, t) := by
  rw [run_bind]
  constructor
  · intro h
    split at h
    · next a s' hx => exact ⟨a, s', hx, h⟩
    · cases h
  · rintro ⟨a, s', hx, hf⟩
    rw [hx]
    exact hf

theorem tryFinally_eq_ok {x : Eff ε σ α} {fin : Eff ε σ Unit} {s u : σ} {a : α} :
    (tryFinally x fin).run s = (.ok a, u) ↔
      ∃ t, x.run s = (.ok a, t) ∧ fin.run t = (.ok (), u) := by
  constructor
  · intro h
    rcases hx : x.run s with ⟨r, t⟩
    rcases hf : fin.run t with ⟨e | _, u'⟩
    · rw [tryFinally_error hx hf] at h
      cases h
    · rw [tryFinally_run hx hf] at h
      cases h
      exact ⟨t, rfl, hf⟩
  · rintro ⟨t, hx, hf⟩
    exact tryFinally_run hx hf

section Zoom

variable {view : σ → τ} {put : τ → σ → σ}

theorem zoom_run {x : Eff ε τ α} {s : σ} {r : Except ε α} {t : τ} (h : x.run (view s) = (r, t)) :
    (zoom view put x).run s = (r, put t s) := by
  rw [run_zoom, h]

/-- A second computation on the component finds there what the first has left. -/
theorem zoom_run_put (hview : ∀ t s, view (put t s) = t)
    (hput : ∀ t t' s, put t' (put t s) = put t' s) {x : Eff ε τ α} {t u : τ} {r : Except ε α}
    (h : x.run t = (r, u)) (s : σ) : (zoom view put x).run (put t s) = (r, put u s) := by
  rw [run_zoom, hview, h, hput]

theorem zoom_bind (hview : ∀ t s, view (put t s) = t) (hput : ∀ t t' s, put t' (put t s) = put t' s)
    (x : Eff ε τ α) (f : α → Eff ε τ β) :
    zoom view put (x >>= f) = zoom view put x >>= fun a => zoom view put (f a) := by
  apply congrArg Eff.mk
  funext s
  show (zoom view put (x >>= f)).run s = (zoom view put x >>= fun a => zoom view put (f a)).run s
  rcases hx : x.run (view s) with ⟨e | a, t⟩
  · rw [bind_error (zoom_run hx), zoom_run (bind_error hx f)]
  · rw [bind_ok (zoom_run hx), zoom_run_put hview hput (r := ((f a).run t).1) rfl,
      zoom_run (bind_ok hx f)]

theorem zoom_tryCatch (hview : ∀ t s, view (put t s) = t)
    (hput : ∀ t t' s, put t' (put t s) = put t' s) (x : Eff ε τ α) (k : ε → Eff ε τ α) :
    zoom view put (tryCatch x k) = tryCatch (zoom view put x) fun e => zoom view put (k e) := by
  apply congrArg Eff.mk
  funext s
  show (zoom view put (tryCatch x k)).run s =
    (tryCatch (zoom view put x) fun e => zoom view put (k e)).run s
  rcases hx : x.run (view s) with ⟨e | a, t⟩
  · rw [tryCatch_error (zoom_run hx), zoom_run_put hview hput (r := ((k e).run t).1) rfl,
      zoom_run (tryCatch_error hx k)]
  · rw [tryCatch_ok (zoom_run hx), zoom_run (tryCatch_ok hx k)]

theorem zoom_tryFinally (hview : ∀ t s, view (put t s) = t)
    (hput : ∀ t t' s, put t' (put t s) = put t' s) (x : Eff ε τ α) (fin : Eff ε τ Unit) :
    zoom view put (tryFinally x fin) = tryFinally (zoom view put x) (zoom view put fin) := by
  apply congrArg Eff.mk
  funext s
  show (zoom view put (tryFinally x fin)).run s =
    (tryFinally (zoom view put x) (zoom view put fin)).run s
  rcases hx : x.run (view s) with ⟨r, t⟩
  rcases hfin : fin.run t with ⟨e | _, u⟩
  · rw [tryFinally_error (zoom_run hx) (zoom_run_put hview hput hfin s),
      zoom_run (tryFinally_error hx hfin)]
  · rw [tryFinally_run (zoom_run hx) (zoom_run_put hview hput hfin s),
      zoom_run (tryFinally_run hx hfin)]

end Zoom

/-- `Post x s Q`: started in `s`, the outcome and the state `x` leaves satisfy `Q`. -/
def Post (x : Eff ε σ α) (s : σ) (Q : Except ε α → σ → Prop) : Prop :=
  Q (x.run s).1 (x.run s).2

theorem Post.of_eq {x : Eff ε σ α} {s t : σ} {r : Except ε α} {Q : Except ε α → σ → Prop}
    (h : x.run s = (r, t)) (hq : Q r t) : Post x s Q := by
  unfold Post
  rw [h]
  exact hq

theorem Post.elim {x : Eff ε σ α} {s t : σ} {r : Except ε α} {Q : Except ε α → σ → Prop}
    (hp : Post x s Q) (h : x.run s = (r, t)) : Q r t := by
  unfold Post at hp
  rw [h] at hp
  exact hp

theorem Post.mono {x : Eff ε σ α} {s : σ} {Q R : Except ε α → σ → Prop}
    (h : Post x s Q) (imp : ∀ r t, Q r t → R r t) : Post x s R := imp _ _ h

theorem Post.bind {x : Eff ε σ α} {f : α → Eff ε σ β} {s : σ} {Q : Except ε β → σ → Prop}
    (h : Post x s fun r t => match r with
      | .ok a => Post (f a) t Q
      | .error e => Q (.error e) t) : Post (x >>= f) s Q := by
  unfold Post at h ⊢
  rw [run_bind]
  rcases hx : x.run s with ⟨r, t⟩
  rw [hx] at h
  cases r with
  | ok a => exact h
  | error e => exact h

theorem Post.lift_ok {a : α} {f : α → Eff ε σ β} {s : σ} {Q : Except ε β → σ → Prop}
    (h : Post (f a) s Q) : Post (Eff.lift (.ok a) >>= f) s Q := h

theorem Post.tryCatch {x : Eff ε σ α} {k : ε → Eff ε σ α} {s : σ}
    {Q : Except ε α → σ → Prop}
    (h : Post x s fun r t => match r with
      | .ok a => Q (.ok a) t
      | .error e => Post (k e) t Q) : Post (tryCatch x k) s Q := by
  unfold Post at h ⊢
  rcases hx : x.run s with ⟨r, t⟩
  rw [hx] at h
  cases r with
  | ok a => rw [tryCatch_ok hx]; exact h
  | error e => rw [tryCatch_error hx]; exact h

theorem Post.tryFinally {x : Eff ε σ α} {fin : Eff ε σ Unit} {s : σ}
    {Q : Except ε α → σ → Prop}
    (h : Post x s fun r t => Post fin t fun r' u => match r' with
      | .ok _ => Q r u
      | .error e => Q (.error e) u) : Post (tryFinally x fin) s Q := by
  unfold Post at h ⊢
  rcases hx : x.run s with ⟨r, t⟩
  rw [hx] at h
  dsimp only at h
  rcases hf : fin.run t with ⟨_ | _, u⟩
  · rw [hf] at h
    simp only [Eff.tryFinally, hx, hf]
    exact h
  · rw [hf] at h
    simp only [Eff.tryFinally, hx, hf]
    exact h

/-- Every run of `x`, whether it returns or raises, leaves a state `K`-related to its start. -/
def Keeps (K : σ → σ → Prop) (x : Eff ε σ α) : Prop := ∀ s, K s (x.run s).2

section Keeps

variable {K : σ → σ → Prop}

theorem Keeps.of_eq {x : Eff ε σ α} (hk : Keeps K x) {s t : σ} {r : Except ε α}
    (h : x.run s = (r, t)) : K s t := by
  have hs := hk s
  rw [h] at hs
  exact hs

theorem Keeps.mono {L : σ → σ → Prop} (imp : ∀ s t, K s t → L s t) {x : Eff ε σ α}
    (hk : Keeps K x) : Keeps L x := fun s => imp _ _ (hk s)

theorem Keeps.modify {f : σ → σ} (hf : ∀ s, K s (f s)) : Keeps K (Eff.modify f : Eff ε σ Unit) :=
  hf

theorem Keeps.pure (refl : ∀ s, K s s) (a : α) : Keeps K (Pure.pure a : Eff ε σ α) :=
  fun s => refl s

theorem Keeps.raise (refl : ∀ s, K s s) (e : ε) : Keeps K (Eff.raise e : Eff ε σ α) :=
  fun s => refl s

theorem Keeps.lift (refl : ∀ s, K s s) (x : Except ε α) : Keeps K (Eff.lift x : Eff ε σ α) :=
  fun s => refl s

theorem Keeps.bind (trans : ∀ s t u, K s t → K t u → K s u) {x : Eff ε σ α}
    {f : α → Eff ε σ β} (hx : Keeps K x) (hf : ∀ a, Keeps K (f a)) : Keeps K (x >>= f) := by
  intro s
  rw [run_bind]
  rcases h : x.run s with ⟨r, t⟩
  cases r with
  | ok a => exact trans _ _ _ (hx.of_eq h) (hf a t)
  | error e => exact hx.of_eq h

theorem Keeps.tryCatch (trans : ∀ s t u, K s t → K t u → K s u) {x : Eff ε σ α}
    {k : ε → Eff ε σ α} (hx : Keeps K x) (hk : ∀ e, Keeps K (k e)) :
    Keeps K (tryCatch x k) := by
  intro s
  rcases h : x.run s with ⟨r, t⟩
  cases r with
  | ok a => rw [tryCatch_ok h]; exact hx.of_eq h
  | error e => rw [tryCatch_error h]; exact trans _ _ _ (hx.of_eq h) (hk e t)

theorem Keeps.tryFinally (trans : ∀ s t u, K s t → K t u → K s u) {x : Eff ε σ α}
    {fin : Eff ε σ Unit} (hx : Keeps K x) (hf : Keeps K fin) : Keeps K (tryFinally x fin) := by
  intro s
  rcases h : x.run s with ⟨r, t⟩
  rcases h' : fin.run t with ⟨r', u⟩
  have hu : K s u := trans _ _ _ (hx.of_eq h) (hf.of_eq h')
  cases r' <;> simp only [Eff.tryFinally, h, h'] <;> exact hu

/-- Behind a part of which no more is known than its frame. -/
theorem Post.bind_keeps {x : Eff ε σ α} {f : α → Eff ε σ β} {s : σ} {Q : Except ε β → σ → Prop}
    (hx : Keeps K x) (hf : ∀ a t, K s t → x.run s = (.ok a, t) → Post (f a) t Q)
    (he : ∀ e t, K s t → Q (.error e) t) : Post (x >>= f) s Q := by
  apply Post.bind
  rcases h : x.run s with ⟨r, t⟩
  have hk := hx.of_eq h
  apply Post.of_eq h
  cases r with
  | ok a => exact hf a t hk h
  | error e => exact he e t hk

end Keeps

/-- Every exception of `x` satisfies `P`. -/
def Raises (P : ε → Prop) (x : Eff ε σ α) : Prop := ∀ s e t, x.run s = (.error e, t) → P e

section Raises

variable {P Q : ε → Prop}

theorem Raises.pure (a : α) : Raises P (Pure.pure a : Eff ε σ α) := by
  intro s e t h
  cases h

theorem Raises.raise {e : ε} (he : P e) : Raises P (Eff.raise e : Eff ε σ α) := by
  intro s e' t h
  cases h
  exact he

theorem Raises.lift {x : Except ε α} (hx : ∀ e, x = .error e → P e) :
    Raises P (Eff.lift x : Eff ε σ α) := by
  intro s e t h
  exact hx e (Prod.mk.inj h).1

theorem Raises.modify (f : σ → σ) : Raises P (Eff.modify f : Eff ε σ Unit) := by
  intro s e t h
  cases h

theorem Raises.get : Raises P (Eff.get : Eff ε σ σ) := by
  intro s e t h
  cases h

theorem Raises.bind {x : Eff ε σ α} {f : α → Eff ε σ β} (hx : Raises P x)
    (hf : ∀ a, Raises P (f a)) : Raises P (x >>= f) := by
  intro s e t h
  rw [run_bind] at h
  rcases hrun : x.run s with ⟨_ | a, s'⟩
  · rw [hrun] at h
    cases h
    exact hx s _ _ hrun
  · rw [hrun] at h
    exact hf a s' e t h

theorem Raises.lift_bind {x : Except ε α} {f : α → Eff ε σ β} (hx : ∀ e, x = .error e → P e)
    (hf : ∀ a, x = .ok a → Raises P (f a)) : Raises P (Eff.lift x >>= f) := by
  cases x with
  | error e => exact Raises.raise (hx e rfl)
  | ok a => exact hf a rfl

theorem Raises.tryCatch {x : Eff ε σ α} {k : ε → Eff ε σ α} (hx : Raises Q x)
    (hk : ∀ e, Q e → Raises P (k e)) : Raises P (tryCatch x k) := by
  intro s e t h
  rcases hrun : x.run s with ⟨e' | a, s'⟩
  · rw [tryCatch_error hrun] at h
    exact hk e' (hx s e' s' hrun) s' e t h
  · rw [tryCatch_ok hrun] at h
    cases h

theorem Raises.tryFinally {x : Eff ε σ α} {fin : Eff ε σ Unit} (hx : Raises P x)
    (hf : Raises P fin) : Raises P (tryFinally x fin) := by
  intro s e t h
  rcases hrun : x.run s with ⟨r, s'⟩
  rcases hfin : fin.run s' with ⟨e' | _, s''⟩
  · simp only [Eff.tryFinally, hrun, hfin] at h
    cases h
    exact hf s' _ _ hfin
  · rw [tryFinally_run hrun hfin] at h
    cases h
    exact hx s _ _ hrun

theorem Raises.zoom {view : σ → τ} {put : τ → σ → σ} {x : Eff ε τ α} (hx : Raises P x) :
    Raises P (zoom view put x) := by
  intro s e t h
  rw [run_zoom] at h
  exact hx (view s) e _ (Prod.ext (Prod.mk.inj h).1 rfl)

end Raises

/-- The outcome of `x` is `r` from every state. -/
def Yields (x : Eff ε σ α) (r : Except ε α) : Prop := ∀ s, (x.run s).1 = r

theorem Yields.pure (a : α) : Yields (Pure.pure a : Eff ε σ α) (.ok a) := fun _ => rfl

theorem Yields.lift (r : Except ε α) : Yields (Eff.lift r : Eff ε σ α) r := fun _ => rfl

theorem Yields.bind_ok {x : Eff ε σ α} {a : α} (hx : Yields x (.ok a)) {f : α → Eff ε σ β}
    {r : Except ε β} (hf : Yields (f a) r) : Yields (x >>= f) r := by
  intro s
  have hs := hx s
  rw [run_bind]
  rcases h : x.run s with ⟨r', t⟩
  rw [h] at hs
  dsimp only at hs
  subst hs
  exact hf t

theorem Yields.tryCatch_ok {x : Eff ε σ α} {a : α} (hx : Yields x (.ok a)) (k : ε → Eff ε σ α) :
    Yields (tryCatch x k) (.ok a) := by
  intro s
  have hs := hx s
  rcases h : x.run s with ⟨r', t⟩
  rw [h] at hs
  dsimp only at hs
  subst hs
  rw [Eff.tryCatch_ok h]

theorem Yields.run_eq {x : Eff ε σ α} {r : Except ε α} (hx : Yields x r) (s : σ) :
    x.run s = (r, (x.run s).2) := by
  rw [← hx s]

/-- The outcome of `x`, and what it leaves of the part that `view` shows, depend on that part
alone. -/
def Through (view : σ → τ) (x : Eff ε σ α) : Prop :=
  ∀ s t, view s = view t → (x.run s).1 = (x.run t).1 ∧ view (x.run s).2 = view (x.run t).2

section Through

variable {view : σ → τ}

theorem Through.pure (a : α) : Through view (Pure.pure a : Eff ε σ α) := fun _ _ h => ⟨rfl, h⟩

theorem Through.raise (e : ε) : Through view (Eff.raise e : Eff ε σ α) := fun _ _ h => ⟨rfl, h⟩

theorem Through.lift (x : Except ε α) : Through view (Eff.lift x : Eff ε σ α) :=
  fun _ _ h => ⟨rfl, h⟩

theorem Through.bind {x : Eff ε σ α} {f : α → Eff ε σ β} (hx : Through view x)
    (hf : ∀ a, Through view (f a)) : Through view (x >>= f) := by
  intro s t hst
  have h := hx s t hst
  rw [run_bind, run_bind]
  rcases hs : x.run s with ⟨r, s'⟩
  rcases ht : x.run t with ⟨r', t'⟩
  rw [hs, ht] at h
  obtain ⟨rfl, hview⟩ := h
  cases r with
  | ok a => exact hf a s' t' hview
  | error e => exact ⟨rfl, hview⟩

end Through

end Eff

end CryptoFlex.Lib
