import Mathlib.Data.List.Basic

namespace CryptoFlex.Lib

/-- A decoder that takes a value off the front of its input and returns the rest. -/
structure Scanner (ε α β : Type) where
  run : List α → Except ε (β × List α)

namespace Scanner

variable {ε α β γ : Type}

def ret (x : β) : Scanner ε α β := ⟨fun d => .ok (x, d)⟩

def bind (p : Scanner ε α β) (f : β → Scanner ε α γ) : Scanner ε α γ := ⟨fun d =>
  match p.run d with
  | .ok (x, r) => (f x).run r
  | .error e => .error e⟩

instance : Monad (Scanner ε α) where
  pure := ret
  bind := bind

def fail (e : ε) : Scanner ε α β := ⟨fun _ => .error e⟩

def ofExcept (x : Except ε β) : Scanner ε α β := ⟨fun d => x.map fun y => (y, d)⟩

/-- Exactly `n` symbols. -/
def take (n : Nat) (e : ε) : Scanner ε α (List α) := ⟨fun d =>
  if d.length < n then .error e else .ok (d.take n, d.drop n)⟩

/-- Whether the next symbol is `c`, which is then taken. -/
def accept [DecidableEq α] (c : α) : Scanner ε α Bool := ⟨fun d =>
  match d with
  | [] => .ok (false, [])
  | x :: r => if x = c then .ok (true, r) else .ok (false, x :: r)⟩

def expect [DecidableEq α] (c : α) (e : ε) : Scanner ε α Unit := do
  if ← accept c then return () else fail e

def skipWhile (p : α → Bool) : Scanner ε α Unit := ⟨fun d => .ok ((), d.dropWhile p)⟩

@[simp] theorem run_pure (x : β) (d : List α) :
    (pure x : Scanner ε α β).run d = .ok (x, d) := rfl
@[simp] theorem run_fail (e : ε) (d : List α) :
    (fail e : Scanner ε α β).run d = .error e := rfl
@[simp] theorem run_ofExcept_ok (x : β) (d : List α) :
    (ofExcept (.ok x) : Scanner ε α β).run d = .ok (x, d) := rfl
@[simp] theorem run_ofExcept_error (e : ε) (d : List α) :
    (ofExcept (.error e) : Scanner ε α β).run d = .error e := rfl

theorem run_bind (p : Scanner ε α β) (f : β → Scanner ε α γ) (d : List α) :
    (p >>= f).run d = match p.run d with
      | .ok (x, r) => (f x).run r
      | .error e => .error e := rfl

@[simp] theorem run_accept [DecidableEq α] (c : α) (r : List α) :
    (accept c : Scanner ε α Bool).run (c :: r) = .ok (true, r) := by
  simp [accept]

@[simp] theorem run_expect [DecidableEq α] (c : α) (e : ε) (r : List α) :
    (expect c e).run (c :: r) = .ok ((), r) := by
  simp [expect, run_bind]

theorem run_accept_ne [DecidableEq α] {c x : α} (h : x ≠ c) (r : List α) :
    (accept c : Scanner ε α Bool).run (x :: r) = .ok (false, x :: r) := by
  simp [accept, h]

theorem run_skipWhile {p : α → Bool} {ws r : List α} {x : α} (hws : ∀ y ∈ ws, p y = true)
    (hx : p x = false) :
    (skipWhile p : Scanner ε α Unit).run (ws ++ x :: r) = .ok ((), x :: r) := by
  simp only [skipWhile]
  rw [List.dropWhile_append_of_pos hws, List.dropWhile_cons_of_neg (by simp [hx])]

theorem run_take_lt {n : Nat} {d : List α} (h : d.length < n) (e : ε) :
    (take n e).run d = .error e := by
  simp [take, h]

theorem run_take_le {n : Nat} {d : List α} (h : n ≤ d.length) (e : ε) :
    (take n e).run d = .ok (d.take n, d.drop n) := by
  simp [take, Nat.not_lt.mpr h]

theorem bind_eq_ok {p : Scanner ε α β} {f : β → Scanner ε α γ} {d r : List α} {y : γ} :
    (p >>= f).run d = .ok (y, r) ↔
      ∃ x m, p.run d = .ok (x, m) ∧ (f x).run m = .ok (y, r) := by
  rw [run_bind]
  constructor
  · intro h
    split at h
    · next x m hp => exact ⟨x, m, hp, h⟩
    · cases h
  · rintro ⟨x, m, hp, hf⟩
    rw [hp]
    exact hf

theorem take_eq_ok {n : Nat} {e : ε} {d c r : List α}
    (h : (take n e).run d = .ok (c, r)) : c.length = n ∧ d = c ++ r := by
  by_cases hn : d.length < n
  · rw [run_take_lt hn] at h
    cases h
  · rw [run_take_le (by omega)] at h
    cases h
    exact ⟨by rw [List.length_take]; omega, (List.take_append_drop n d).symm⟩

theorem ofExcept_eq_ok {y : Except ε β} {d r : List α} {x : β}
    (h : (ofExcept y).run d = .ok (x, r)) : y = .ok x ∧ d = r := by
  cases y with
  | error e => cases h
  | ok v => cases h; exact ⟨rfl, rfl⟩

theorem ite_fail_eq_ok {P : Prop} [Decidable P] {e : ε} {p : Scanner ε α β} {d r : List α}
    {x : β} (h : (if P then fail e else p).run d = .ok (x, r)) :
    ¬P ∧ p.run d = .ok (x, r) := by
  by_cases hp : P
  · rw [if_pos hp] at h
    cases h
  · rw [if_neg hp] at h
    exact ⟨hp, h⟩

/-- `p` reads `x` off the code word `c`, whatever follows it. -/
def Reads (p : Scanner ε α β) (c : List α) (x : β) : Prop := ∀ t, p.run (c ++ t) = .ok (x, t)

theorem Reads.pure (x : β) : Reads (Pure.pure x : Scanner ε α β) [] x := fun _ => rfl

theorem Reads.bind {p : Scanner ε α β} {f : β → Scanner ε α γ} {c c' : List α} {x : β} {y : γ}
    (hp : Reads p c x) (hf : Reads (f x) c' y) : Reads (p >>= f) (c ++ c') y := by
  intro t
  rw [List.append_assoc, run_bind, hp]
  exact hf t

theorem Reads.run_bind {p : Scanner ε α β} {c : List α} {x : β} (hp : Reads p c x)
    (f : β → Scanner ε α γ) (t : List α) : (p >>= f).run (c ++ t) = (f x).run t := by
  rw [Scanner.run_bind, hp]

theorem Reads.take {n : Nat} {c : List α} (hc : c.length = n) (e : ε) :
    Reads (take n e) c c := by
  subst hc
  intro t
  rw [run_take_le (by simp) e]
  simp

/-- A scanner is exact when what it accepts is a code word it reads before any suffix. -/
def Exact (p : Scanner ε α β) : Prop :=
  ∀ d x r, p.run d = .ok (x, r) → ∃ c, d = c ++ r ∧ Reads p c x

theorem Exact.pure (x : β) : Exact (Pure.pure x : Scanner ε α β) := by
  intro d y r h
  cases h
  exact ⟨[], rfl, Reads.pure x⟩

theorem Exact.fail (e : ε) : Exact (fail e : Scanner ε α β) := by
  intro d x r h
  cases h

theorem Exact.ofExcept (y : Except ε β) : Exact (ofExcept y : Scanner ε α β) := by
  cases y with
  | ok x => exact Exact.pure x
  | error e => exact Exact.fail e

theorem Exact.take (n : Nat) (e : ε) : Exact (take n e : Scanner ε α (List α)) := by
  intro d x r h
  by_cases hn : d.length < n
  · rw [run_take_lt hn] at h
    cases h
  · have hn' : n ≤ d.length := by omega
    rw [run_take_le hn'] at h
    cases h
    refine ⟨d.take n, (List.take_append_drop n d).symm, ?_⟩
    exact Reads.take (by simp [hn']) e

theorem Exact.bind {p : Scanner ε α β} {f : β → Scanner ε α γ} (hp : Exact p)
    (hf : ∀ x, Exact (f x)) : Exact (p >>= f) := by
  intro d y r h
  obtain ⟨x, m, h1, h2⟩ := bind_eq_ok.mp h
  obtain ⟨c, rfl, hc⟩ := hp d x m h1
  obtain ⟨c', rfl, hc'⟩ := hf x m y r h2
  exact ⟨c ++ c', by simp, hc.bind hc'⟩

theorem Exact.ite {P : Prop} [Decidable P] {p q : Scanner ε α β} (hp : Exact p) (hq : Exact q) :
    Exact (if P then p else q) := by
  split
  · exact hp
  · exact hq

/-- Whatever `p` rejects, it rejects with an exception in `P`. -/
def Fails (P : ε → Prop) (p : Scanner ε α β) : Prop := ∀ d e, p.run d = .error e → P e

theorem Fails.pure {P : ε → Prop} (x : β) : Fails P (Pure.pure x : Scanner ε α β) := by
  intro d e h
  cases h

theorem Fails.fail {P : ε → Prop} {e : ε} (he : P e) : Fails P (fail e : Scanner ε α β) := by
  intro d e' h
  cases h
  exact he

theorem Fails.ofExcept {P : ε → Prop} {y : Except ε β} (hy : ∀ e, y = .error e → P e) :
    Fails P (ofExcept y : Scanner ε α β) := by
  intro d e h
  cases y with
  | ok x => cases h
  | error e' => cases h; exact hy _ rfl

theorem Fails.take {P : ε → Prop} {e : ε} (n : Nat) (he : P e) :
    Fails P (take n e : Scanner ε α (List α)) := by
  intro d e' h
  by_cases hn : d.length < n
  · rw [run_take_lt hn] at h
    cases h
    exact he
  · rw [run_take_le (Nat.not_lt.mp hn)] at h
    cases h

theorem Fails.bind {P : ε → Prop} {p : Scanner ε α β} {f : β → Scanner ε α γ} (hp : Fails P p)
    (hf : ∀ d x r, p.run d = .ok (x, r) → Fails P (f x)) : Fails P (p >>= f) := by
  intro d e h
  rw [Scanner.run_bind] at h
  split at h
  · next x r hx => exact hf d x r hx _ _ h
  · next e' hx => cases h; exact hp _ _ hx

theorem Fails.ite {P : ε → Prop} {c : Prop} [Decidable c] {p q : Scanner ε α β}
    (hp : Fails P p) (hq : Fails P q) : Fails P (if c then p else q) := by
  split
  · exact hp
  · exact hq

/-- Two code words of one scanner are equal or neither is a prefix of the other. -/
theorem Reads.prefix_free {p : Scanner ε α β} {c c' : List α} {x x' : β} (h : Reads p c x)
    (h' : Reads p c' x') (hpre : c <+: c') : c = c' := by
  obtain ⟨t, rfl⟩ := hpre
  have h1 := h t
  have h2 := h' []
  rw [List.append_nil, h1] at h2
  have ht : t = [] := by simpa using (Prod.mk.inj (Except.ok.inj h2)).2
  simp [ht]

/-- An exact scanner rejects every proper prefix of its code words. -/
theorem Exact.reject_cut {p : Scanner ε α β} (he : Exact p) {c : List α} {x : β}
    (h : Reads p c x) {m : Nat} (hm : m < c.length) : ∃ e, p.run (c.take m) = .error e := by
  cases hr : p.run (c.take m) with
  | error e => exact ⟨e, rfl⟩
  | ok y =>
    obtain ⟨y, r⟩ := y
    obtain ⟨c', hc', hy⟩ := he _ y r hr
    have hpre : c' <+: c := (hc' ▸ List.prefix_append c' r).trans (List.take_prefix m c)
    have heq := hy.prefix_free h hpre
    have hlen := congrArg List.length hc'
    simp only [List.length_take, List.length_append, heq] at hlen
    omega

/-- Of `m` symbols at least `k` were taken off, or something of `E` was raised. -/
def Takes (E : ε → Prop) (k m : Nat) : Except ε (β × List α) → Prop
  | .ok (_, r) => r.length + k ≤ m
  | .error e => E e

theorem Takes.le {E : ε → Prop} {k k' m m' : Nat} {x : Except ε (β × List α)} (h : Takes E k m x)
    (hle : k' + m ≤ k + m') : Takes E k' m' x := by
  rcases x with e | ⟨y, r⟩
  · exact h
  · change r.length + k ≤ m at h
    change r.length + k' ≤ m'
    omega

theorem Takes.map {E : ε → Prop} {k m : Nat} {x : Except ε (β × List α)} (h : Takes E k m x)
    (f : β → γ) : Takes E k m (x.map fun r => (f r.1, r.2)) := by
  rcases x with e | ⟨y, r⟩ <;> exact h

/-- What `p` does on at most `n` symbols. -/
def Consumes (E : ε → Prop) (k n : Nat) (p : Scanner ε α β) : Prop :=
  ∀ d : List α, d.length ≤ n → Takes E k d.length (p.run d)

namespace Consumes

variable {E : ε → Prop} {k k' n : Nat} {p : Scanner ε α β}

theorem mono (h : Consumes E k n p) (hk : k' ≤ k) : Consumes E k' n p :=
  fun d hd => (h d hd).le (by omega)

theorem pure (x : β) : Consumes E 0 n (Pure.pure x : Scanner ε α β) := fun d _ => Nat.le_refl d.length

theorem fail {e : ε} (he : E e) : Consumes E k n (Scanner.fail e : Scanner ε α β) := fun _ _ => he

theorem skipWhile (f : α → Bool) : Consumes E 0 n (Scanner.skipWhile f : Scanner ε α Unit) :=
  fun _ _ => (List.dropWhile_suffix f).length_le

theorem bind {f : β → Scanner ε α γ} (hp : Consumes E k n p)
    (hf : ∀ x, k ≤ n → Consumes E k' (n - k) (f x)) : Consumes E (k + k') n (p >>= f) := by
  intro d hd
  have hfirst := hp d hd
  rw [Scanner.run_bind]
  rcases hrun : p.run d with e | ⟨x, r⟩
  · rw [hrun] at hfirst
    exact hfirst
  · rw [hrun] at hfirst
    change r.length + k ≤ d.length at hfirst
    exact (hf x (by omega) r (by omega)).le (by omega)

variable [DecidableEq α]

/-- The branch behind `c` is only taken when there is a symbol left, and has one less. -/
theorem ite_accept (c : α) {q : Scanner ε α β} (hp : 0 < n → Consumes E k (n - 1) p)
    (hq : Consumes E (k + 1) n q) :
    Consumes E (k + 1) n (accept c >>= fun b => if b = true then p else q) := by
  intro d hd
  cases d with
  | nil => exact hq [] hd
  | cons x r =>
    rw [List.length_cons] at hd
    by_cases hx : x = c
    · subst hx
      rw [Scanner.run_bind, run_accept]
      exact (hp (by omega) r (by omega)).le (by rw [List.length_cons]; omega)
    · rw [Scanner.run_bind, run_accept_ne hx]
      exact hq _ hd

theorem expect (c : α) {e : ε} (he : E e) : Consumes E 1 n (Scanner.expect c e) :=
  ite_accept c (fun _ => pure ()) (fail he)

end Consumes

end Scanner

end CryptoFlex.Lib
