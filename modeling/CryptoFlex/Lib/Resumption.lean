import CryptoFlex.Lib.Effect

namespace CryptoFlex.Lib

/-- A computation that others may interrupt between its steps. A step leaves the state `effect` and
goes on with `next`, both told by the state that it finds. -/
inductive Resumption (ε σ α : Type) : Type
  | done (r : Except ε α)
  | step (next : σ → Resumption ε σ α) (effect : σ → σ)

namespace Resumption

variable {ε σ α β : Type}

/-- The steps one after the other, with nothing in between. -/
def toEff : Resumption ε σ α → Eff ε σ α
  | done r => Eff.lift r
  | step next effect => ⟨fun s => (next s).toEff.run (effect s)⟩

/-- All in one step. -/
def atomic (x : Eff ε σ α) : Resumption ε σ α :=
  step (fun s => done (x.run s).1) fun s => (x.run s).2

def bind : Resumption ε σ α → (α → Resumption ε σ β) → Resumption ε σ β
  | done (.ok a), f => f a
  | done (.error e), _ => done (.error e)
  | step next effect, f => step (fun s => (next s).bind f) effect

instance instMonadResumption : Monad (Resumption ε σ) where
  pure a := done (.ok a)
  bind := bind

/-- `try x except e: h e`. -/
def tryCatch : Resumption ε σ α → (ε → Resumption ε σ α) → Resumption ε σ α
  | done (.ok a), _ => done (.ok a)
  | done (.error e), h => h e
  | step next effect, h => step (fun s => (next s).tryCatch h) effect

/-- `try x finally: fin`. -/
def tryFinally : Resumption ε σ α → Resumption ε σ Unit → Resumption ε σ α
  | done r, fin => fin.bind fun _ => done r
  | step next effect, fin => step (fun s => (next s).tryFinally fin) effect

theorem toEff_atomic (x : Eff ε σ α) : (atomic x).toEff = x := rfl

theorem toEff_pure (a : α) : (pure a : Resumption ε σ α).toEff = pure a := rfl

theorem toEff_bind (x : Resumption ε σ α) (f : α → Resumption ε σ β) :
    (x >>= f).toEff = x.toEff >>= fun a => (f a).toEff := by
  induction x with
  | done r => cases r <;> rfl
  | step next effect ih =>
    apply congrArg Eff.mk
    funext s
    exact congrArg (fun y => Eff.run y (effect s)) (ih s)

theorem toEff_tryCatch (x : Resumption ε σ α) (h : ε → Resumption ε σ α) :
    (x.tryCatch h).toEff = Eff.tryCatch x.toEff fun e => (h e).toEff := by
  induction x with
  | done r => cases r <;> rfl
  | step next effect ih =>
    apply congrArg Eff.mk
    funext s
    exact congrArg (fun y => Eff.run y (effect s)) (ih s)

theorem toEff_tryFinally (x : Resumption ε σ α) (fin : Resumption ε σ Unit) :
    (x.tryFinally fin).toEff = Eff.tryFinally x.toEff fin.toEff := by
  induction x with
  | done r =>
    have hfin : (tryFinally (done r) fin).toEff =
        fin.toEff >>= fun _ => (done r : Resumption ε σ α).toEff :=
      toEff_bind fin fun _ => done r
    rw [hfin]
    apply congrArg Eff.mk
    funext s
    simp only [toEff, Eff.run_lift]
    rcases fin.toEff.run s with ⟨_ | _, t⟩ <;> rfl
  | step next effect ih =>
    apply congrArg Eff.mk
    funext s
    exact congrArg (fun y => Eff.run y (effect s)) (ih s)

end Resumption

end CryptoFlex.Lib
