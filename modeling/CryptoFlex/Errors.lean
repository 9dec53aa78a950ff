import Mathlib.Logic.Basic

namespace CryptoFlex

/-- The Python exceptions the package raises, catches or lets pass. -/
inductive Exc
  | decryptionError (msg : String)
  | downgradeError (msg : String)
  | headerParseError (msg : String)
  | valueError (msg : String)
  | unicodeEncodeError
  | unicodeDecodeError
  | indexError
  | keyError
  | typeError
  | attributeError
  | structError
  | overflowError (msg : String)
  | runtimeError (msg : String)
  | sourceUnavailable (msg : String)
  | osError
  | invalidTag
  | other (name : String)
  deriving DecidableEq, Repr

namespace Exc

/-- `except DecryptionError`: `DowngradeError` is a subclass. -/
def isDecryptionError : Exc → Bool
  | decryptionError _ => true
  | downgradeError _ => true
  | _ => false

def isDowngradeError : Exc → Bool
  | downgradeError _ => true
  | _ => false

/-- `except ValueError`: the parse and Unicode errors are subclasses. -/
def isValueError : Exc → Bool
  | valueError _ => true
  | headerParseError _ => true
  | unicodeEncodeError => true
  | unicodeDecodeError => true
  | _ => false

/-- `str(e)`. -/
def text : Exc → String
  | decryptionError m | downgradeError m | headerParseError m | valueError m => m
  | overflowError m | runtimeError m | sourceUnavailable m => m
  | unicodeEncodeError => "'utf-8' codec can't encode"
  | unicodeDecodeError => "'utf-8' codec can't decode"
  | indexError => "index out of range"
  | structError => "struct error"
  | keyError => "key error"
  | typeError => "type error"
  | attributeError => "attribute error"
  | osError => "OS error"
  | invalidTag => ""
  | other name => name

/-- `except (DowngradeError, DecryptionError): raise` followed by
`except Exception: raise DecryptionError("decryption failed")`. -/
def collapse (e : Exc) : Exc :=
  if e.isDecryptionError then e else .decryptionError "decryption failed"

theorem collapse_isDecryptionError (e : Exc) : e.collapse.isDecryptionError = true := by
  unfold collapse
  split
  · assumption
  · rfl

theorem collapse_isDowngradeError (e : Exc) :
    e.collapse.isDowngradeError = e.isDowngradeError := by
  cases e <;> rfl

end Exc

/-- Whatever else a failure is, it is no downgrade. -/
def NotDowngrade (e : Exc) : Prop := e.isDowngradeError = false

theorem NotDowngrade.ne {e : Exc} (h : NotDowngrade e) (m : String) : e ≠ .downgradeError m := by
  rintro rfl
  cases h

theorem bind_eq_ok {α β : Type} {x : Except Exc α} {f : α → Except Exc β} {b : β} :
    (x >>= f) = .ok b ↔ ∃ a, x = .ok a ∧ f a = .ok b := by
  constructor
  · intro h
    cases x with
    | error e => cases h
    | ok a => exact ⟨a, rfl, h⟩
  · rintro ⟨a, rfl, h⟩
    exact h

theorem bind_eq_error {α β : Type} {x : Except Exc α} {f : α → Except Exc β} {e : Exc} :
    (x >>= f) = .error e ↔ x = .error e ∨ ∃ a, x = .ok a ∧ f a = .error e := by
  constructor
  · intro h
    cases x with
    | error e' =>
      cases h
      exact Or.inl rfl
    | ok a => exact Or.inr ⟨a, rfl, h⟩
  · rintro (rfl | ⟨a, rfl, h⟩)
    · rfl
    · exact h

@[simp] theorem ok_bind {α β : Type} (a : α) (f : α → Except Exc β) :
    ((.ok a : Except Exc α) >>= f) = f a := rfl

@[simp] theorem error_bind {α β : Type} (e : Exc) (f : α → Except Exc β) :
    ((.error e : Except Exc α) >>= f) = .error e := rfl

@[simp] theorem pure_eq_ok {α : Type} (a : α) : (pure a : Except Exc α) = .ok a := rfl

end CryptoFlex
