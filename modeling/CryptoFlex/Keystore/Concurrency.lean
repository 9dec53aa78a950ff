import CryptoFlex.Keystore.Failures
import CryptoFlex.Lib.Pool

namespace CryptoFlex

open Lib

/-- The arguments of a call. -/
structure DeriveCall where
  password : Password
  salt : Bytes
  kdfType : KdfType

/-- What the function raises when no place is free in time. -/
def kdfBusy : Exc :=
  .runtimeError ("KDF concurrency limit reached: too many simultaneous " ++
    "key-derivation operations. Try again shortly.")

/-- Where a call is. From one point to the next it touches `_KDF_SEMAPHORE` at most once. -/
inductive DerivePoint
  | called
  /-- At `_KDF_SEMAPHORE.acquire`, with the encoded password. -/
  | acquire (password : Bytes)
  /-- In the `try` block. -/
  | derive (password : Bytes)
  /-- In the `finally` block. -/
  | release (result : Except Exc Bytes)
  | ended (result : Except Exc Bytes)

/-- A thread that calls the function. -/
structure DeriveThread where
  call : DeriveCall
  point : DerivePoint

section Threads

variable (kdf : PasswordKdf)

/-- The call on its own, in a process that does nothing else meanwhile. -/
def DeriveCall.alone (call : DeriveCall) : Eff Exc Runtime Bytes :=
  deriveWrappingKey kdf call.password call.salt call.kdfType

/-- A thread that waits for a place is not scheduled; it is scheduled with no place free when its
time is up. -/
def DerivePoint.next (call : DeriveCall) : DerivePoint → Runtime → DerivePoint × Runtime
  | .called, rt =>
    match call.password.encode with
    | .error e => (.ended (.error e), rt)
    | .ok password =>
      if password = [] then
        (.ended (.error (.valueError "keystore password must not be empty")), rt)
      else (.acquire password, rt)
  | .acquire password, rt =>
    match Runtime.acquireKdf.run rt with
    | (.ok true, rt) => (.derive password, rt)
    | (.ok false, rt) => (.ended (.error kdfBusy), rt)
    | (.error e, rt) => (.ended (.error e), rt)
  | .derive password, rt =>
    (.release ((kdf.derive call.kdfType call.salt password).map Subtype.val), rt)
  | .release result, rt =>
    match Runtime.releaseKdf.run rt with
    | (.ok (), rt) => (.ended result, rt)
    | (.error e, rt) => (.ended (.error e), rt)
  | .ended result, rt => (.ended result, rt)

def DeriveThread.next (t : DeriveThread) (rt : Runtime) : DeriveThread × Runtime :=
  (⟨t.call, (t.point.next kdf t.call rt).1⟩, (t.point.next kdf t.call rt).2)

/-- Any number of threads that derive wrapping keys, in a process that meanwhile does anything that
leaves the semaphore alone. -/
def derivations : ThreadSystem DeriveThread Runtime where
  next := DeriveThread.next kdf
  Finished t := ∃ result, t.point = .ended result
  Fresh t := t.point = .called
  Outside rt rt' := rt'.kdfPermits = rt.kdfPermits

theorem next_acquire_free (call : DeriveCall) (password : Bytes) {rt : Runtime}
    (hp : rt.kdfPermits ≠ 0) : (DerivePoint.acquire password).next kdf call rt =
      (.derive password, { rt with kdfPermits := rt.kdfPermits - 1 }) := by
  have hacquire : Runtime.acquireKdf.run rt =
      (.ok true, { rt with kdfPermits := rt.kdfPermits - 1 }) := by
    rw [Runtime.acquireKdf, Eff.run_get_bind, if_neg hp]
    rfl
  simp only [DerivePoint.next, hacquire]

theorem next_acquire_full (call : DeriveCall) (password : Bytes) {rt : Runtime}
    (hp : rt.kdfPermits = 0) : (DerivePoint.acquire password).next kdf call rt =
      (.ended (.error kdfBusy), rt) := by
  have hacquire : Runtime.acquireKdf.run rt = (.ok false, rt) := by
    rw [Runtime.acquireKdf, Eff.run_get_bind, if_pos hp]
    rfl
  simp only [DerivePoint.next, hacquire]

theorem next_release (call : DeriveCall) (result : Except Exc Bytes) (rt : Runtime) :
    (DerivePoint.release result).next kdf call rt =
      (.ended result, { rt with kdfPermits := rt.kdfPermits + 1 }) := rfl

/-- A thread that runs on its own is the function. -/
theorem DeriveCall.runs_alone (call : DeriveCall) (rt : Runtime) :
    (fun s : DeriveThread × Runtime => s.1.next kdf s.2)^[4] (⟨call, .called⟩, rt) =
      (⟨call, .ended ((call.alone kdf).run rt).1⟩, ((call.alone kdf).run rt).2) := by
  simp only [Function.iterate_succ, Function.iterate_zero, Function.comp, id]
  cases hpw : call.password.encode with
  | error e =>
    have halone : (call.alone kdf).run rt = (.error e, rt) := by
      simp only [DeriveCall.alone, deriveWrappingKey, hpw]
      exact Eff.run_lift_error_bind _ _ _
    simp [DeriveThread.next, DerivePoint.next, hpw, halone]
  | ok password =>
  by_cases hne : password = []
  · have halone : (call.alone kdf).run rt =
        (.error (.valueError "keystore password must not be empty"), rt) := by
      simp only [DeriveCall.alone, deriveWrappingKey, hpw]
      rw [Eff.run_lift_ok_bind, if_pos hne]
      rfl
    simp [DeriveThread.next, DerivePoint.next, hpw, hne, halone]
  have hcalled : DerivePoint.called.next kdf call rt = (.acquire password, rt) := by
    simp only [DerivePoint.next, hpw, if_neg hne]
  by_cases hp : rt.kdfPermits = 0
  · have halone : (call.alone kdf).run rt = (.error kdfBusy, rt) := by
      have hacquire : Runtime.acquireKdf.run rt = (.ok false, rt) := by
        rw [Runtime.acquireKdf, Eff.run_get_bind, if_pos hp]
        rfl
      simp only [DeriveCall.alone, deriveWrappingKey, hpw]
      rw [Eff.run_lift_ok_bind, if_neg hne, Eff.bind_ok hacquire, if_pos (by simp)]
      rfl
    have hended : ∀ result, (DerivePoint.ended result).next kdf call rt = (.ended result, rt) :=
      fun _ => rfl
    simp only [DeriveThread.next, hcalled, next_acquire_full kdf call password hp, hended, halone]
  · have halone : (call.alone kdf).run rt =
        ((kdf.derive call.kdfType call.salt password).map Subtype.val, rt) :=
      deriveWrappingKey_run kdf hpw hne call.salt call.kdfType hp
    have hderive : ∀ rt', (DerivePoint.derive password).next kdf call rt' = (.release
        ((kdf.derive call.kdfType call.salt password).map Subtype.val), rt') := fun _ => rfl
    simp only [DeriveThread.next, hcalled, next_acquire_free kdf call password hp, hderive,
      next_release, halone, Nat.sub_add_cancel (Nat.pos_of_ne_zero hp)]

/-- What the call comes to whenever a place is free. -/
def DeriveCall.Gives (call : DeriveCall) (result : Except Exc Bytes) : Prop :=
  ∀ rt : Runtime, rt.kdfPermits ≠ 0 → (call.alone kdf).run rt = (result, rt)

/-- The places that a thread holds. -/
def DeriveThread.holds (t : DeriveThread) : Nat :=
  match t.point with
  | .derive _ => 1
  | .release _ => 1
  | _ => 0

/-- The steps that a thread still takes, at most. -/
def DeriveThread.remaining (t : DeriveThread) : Nat :=
  match t.point with
  | .called => 4
  | .acquire _ => 3
  | .derive _ => 2
  | .release _ => 1
  | .ended _ => 0

/-- What is known of a thread by the point where it is. -/
def DeriveThread.Sound (t : DeriveThread) : Prop :=
  match t.point with
  | .called => True
  | .acquire password => t.call.password.encode = .ok password ∧ password ≠ []
  | .derive password => t.call.password.encode = .ok password ∧ password ≠ []
  | .release result => t.call.Gives kdf result
  | .ended result => t.call.Gives kdf result ∨ result = .error kdfBusy

variable {kdf}

/-- A password that is refused is refused before the semaphore is asked. -/
theorem DeriveCall.gives_error {call : DeriveCall} {e : Exc}
    (h : call.password.encode = .error e) : call.Gives kdf (.error e) := by
  intro rt _
  simp only [DeriveCall.alone, deriveWrappingKey, h]
  exact Eff.run_lift_error_bind _ _ _

theorem DeriveCall.gives_empty {call : DeriveCall} (h : call.password.encode = .ok []) :
    call.Gives kdf (.error (.valueError "keystore password must not be empty")) := by
  intro rt _
  simp only [DeriveCall.alone, deriveWrappingKey, h]
  rw [Eff.run_lift_ok_bind, if_pos rfl]
  rfl

theorem DeriveCall.gives_derived {call : DeriveCall} {password : Bytes}
    (hpw : call.password.encode = .ok password) (hne : password ≠ []) :
    call.Gives kdf ((kdf.derive call.kdfType call.salt password).map Subtype.val) :=
  fun _ hp => deriveWrappingKey_run kdf hpw hne call.salt call.kdfType hp

variable (kdf) in
/-- What a step of the call does. -/
inductive DerivePoint.Goes (call : DeriveCall) (rt : Runtime) :
    DerivePoint → DerivePoint × Runtime → Prop
  | refused {result : Except Exc Bytes} (gives : call.Gives kdf result) :
    Goes call rt .called (.ended result, rt)
  | checked {password : Bytes} (encoded : call.password.encode = .ok password)
    (nonempty : password ≠ []) : Goes call rt .called (.acquire password, rt)
  | gaveUp {password : Bytes} (full : rt.kdfPermits = 0) :
    Goes call rt (.acquire password) (.ended (.error kdfBusy), rt)
  | entered {password : Bytes} (free : rt.kdfPermits ≠ 0) :
    Goes call rt (.acquire password)
      (.derive password, { rt with kdfPermits := rt.kdfPermits - 1 })
  | derived {password : Bytes} : Goes call rt (.derive password)
      (.release ((kdf.derive call.kdfType call.salt password).map Subtype.val), rt)
  | released {result : Except Exc Bytes} : Goes call rt (.release result)
      (.ended result, { rt with kdfPermits := rt.kdfPermits + 1 })
  | ended {result : Except Exc Bytes} : Goes call rt (.ended result) (.ended result, rt)

variable (kdf) in
theorem DerivePoint.next_goes (call : DeriveCall) (point : DerivePoint) (rt : Runtime) :
    Goes kdf call rt point (point.next kdf call rt) := by
  cases point with
  | called =>
    cases hpw : call.password.encode with
    | error e =>
      simp only [DerivePoint.next, hpw]
      exact Goes.refused (DeriveCall.gives_error hpw)
    | ok password =>
      by_cases hne : password = []
      · subst hne
        simp only [DerivePoint.next, hpw, if_true]
        exact Goes.refused (DeriveCall.gives_empty hpw)
      · simp only [DerivePoint.next, hpw, if_neg hne]
        exact Goes.checked hpw hne
  | acquire password =>
    by_cases hp : rt.kdfPermits = 0
    · rw [next_acquire_full kdf call password hp]
      exact Goes.gaveUp hp
    · rw [next_acquire_free kdf call password hp]
      exact Goes.entered hp
  | derive password => exact Goes.derived
  | release result => exact Goes.released
  | ended result => exact Goes.ended

/-- A step takes the place that it holds from the semaphore, or gives it back. -/
theorem DeriveThread.next_places (t : DeriveThread) (rt : Runtime) :
    (t.next kdf rt).2.kdfPermits + (t.next kdf rt).1.holds = rt.kdfPermits + t.holds := by
  obtain ⟨call, point⟩ := t
  have hgoes := DerivePoint.next_goes kdf call point rt
  simp only [DeriveThread.next]
  generalize point.next kdf call rt = s at hgoes ⊢
  cases hgoes with
  | entered free =>
    simp only [DeriveThread.holds]
    omega
  | _ => rfl

theorem DeriveThread.next_remaining (t : DeriveThread) (rt : Runtime)
    (h : ¬∃ result, t.point = .ended result) : (t.next kdf rt).1.remaining < t.remaining := by
  obtain ⟨call, point⟩ := t
  have hgoes := DerivePoint.next_goes kdf call point rt
  simp only [DeriveThread.next]
  generalize point.next kdf call rt = s at hgoes ⊢
  cases hgoes with
  | ended => exact absurd ⟨_, rfl⟩ h
  | _ => simp [DeriveThread.remaining]

theorem DeriveThread.Sound.next {t : DeriveThread} (h : t.Sound kdf) (rt : Runtime) :
    (t.next kdf rt).1.Sound kdf := by
  obtain ⟨call, point⟩ := t
  have hgoes := DerivePoint.next_goes kdf call point rt
  simp only [DeriveThread.next]
  generalize point.next kdf call rt = s at hgoes ⊢
  cases hgoes with
  | refused gives => exact Or.inl gives
  | checked encoded nonempty => exact ⟨encoded, nonempty⟩
  | gaveUp full => exact Or.inr rfl
  | entered free => exact h
  | derived => exact DeriveCall.gives_derived h.1 h.2
  | released => exact Or.inl h
  | ended => exact h

/-- The call has not ended, or with what it comes to on its own. -/
def DeriveThread.Served (kdf : PasswordKdf) (t : DeriveThread) : Prop :=
  ∀ result, t.point = .ended result → t.call.Gives kdf result

/-- A thread gives up only with no place free. -/
theorem DeriveThread.Sound.next_served {t : DeriveThread} (h : t.Sound kdf) {rt : Runtime}
    (hs : t.Served kdf) (hp : rt.kdfPermits = 0 → t.holds ≠ 0) : (t.next kdf rt).1.Served kdf := by
  obtain ⟨call, point⟩ := t
  have hgoes := DerivePoint.next_goes kdf call point rt
  simp only [DeriveThread.next]
  generalize point.next kdf call rt = s at hgoes ⊢
  intro result hresult
  cases hgoes with
  | refused gives =>
    cases hresult
    exact gives
  | gaveUp full => exact absurd rfl (hp full)
  | released =>
    cases hresult
    exact h
  | ended => exact hs result hresult
  | _ => cases hresult

section Pools

variable {rt : Runtime} {es : List (PoolEvent DeriveThread)} {pool : Pool DeriveThread Runtime}

theorem derivations_next (t : DeriveThread) (rt : Runtime) :
    ((derivations kdf).next t rt).2.kdfPermits + ((derivations kdf).next t rt).1.holds =
      rt.kdfPermits + t.holds := t.next_places rt

/-- No place is lost, and no place is made. -/
theorem derivations_places (h : Runs (Pool.Step (derivations kdf)) ⟨[], rt⟩ es pool) :
    pool.shared.kdfPermits + pool.held DeriveThread.holds = rt.kdfPermits := by
  have hfresh : ∀ t, (derivations kdf).Fresh t → t.holds = 0 := by
    intro t ht
    have hpoint : t.point = .called := ht
    simp [DeriveThread.holds, hpoint]
  exact Pool.conserved hfresh derivations_next (fun _ _ h => h) h

theorem derivations_sound (h : Runs (Pool.Step (derivations kdf)) ⟨[], rt⟩ es pool) :
    ∀ t ∈ pool.threads, t.Sound kdf := by
  have hfresh : ∀ t, (derivations kdf).Fresh t → t.Sound kdf := by
    intro t ht
    have hpoint : t.point = .called := ht
    simp [DeriveThread.Sound, hpoint]
  exact Pool.forall_threads hfresh (fun _ rt ht => ht.next rt) h (by simp)

/-- At most two threads derive a key at a time, for the semaphore has two places and loses none.
Each call that has ended came to what it comes to on its own, or gave up, which a call does only
while two others hold the places. -/
theorem derivations_capped (hrt : rt.kdfPermits = 2)
    (h : Runs (Pool.Step (derivations kdf)) ⟨[], rt⟩ es pool) :
    pool.shared.kdfPermits + pool.held DeriveThread.holds = 2 ∧
    (∀ t ∈ pool.threads, ∀ result, t.point = .ended result →
      t.call.Gives kdf result ∨ result = .error kdfBusy) ∧
    ∀ t ∈ pool.threads, ∀ password, t.point = .acquire password →
      (t.next kdf pool.shared).1.point =
        if pool.held DeriveThread.holds = 2 then .ended (.error kdfBusy) else .derive password := by
  have hplaces := derivations_places h
  rw [hrt] at hplaces
  refine ⟨hplaces, ?_, ?_⟩
  · intro t ht result hended
    have hsound := derivations_sound h t ht
    simpa only [DeriveThread.Sound, hended] using hsound
  · intro t _ password hpoint
    by_cases hfull : pool.held DeriveThread.holds = 2
    · have hp : pool.shared.kdfPermits = 0 := by omega
      simp only [DeriveThread.next, hpoint, next_acquire_full kdf t.call password hp, if_pos hfull]
    · have hp : pool.shared.kdfPermits ≠ 0 := by omega
      simp only [DeriveThread.next, hpoint, next_acquire_free kdf t.call password hp,
        if_neg hfull]

/-- A call with a password that is accepted. -/
def sampleCall : DeriveCall := ⟨.bytes [0x70], List.replicate saltLen 0, .argon2id⟩

/-- Three calls at once: the third gives up while the first two derive. -/
def busyPool : Pool DeriveThread Runtime where
  threads := [⟨sampleCall, .derive [0x70]⟩, ⟨sampleCall, .derive [0x70]⟩,
    ⟨sampleCall, .ended (.error kdfBusy)⟩]
  shared := { zeroRuntime with kdfPermits := 0 }

def busyEvents : List (PoolEvent DeriveThread) :=
  [.spawn ⟨sampleCall, .called⟩, .spawn ⟨sampleCall, .called⟩, .spawn ⟨sampleCall, .called⟩,
    .run 0, .run 1, .run 2, .run 0, .run 1, .run 2]

theorem busyPool_reached :
    Runs (Pool.Step (derivations padKdf)) ⟨[], zeroRuntime⟩ busyEvents busyPool := by
  have hcalled : ¬(derivations padKdf).Finished ⟨sampleCall, .called⟩ := by
    simp [derivations]
  have hacquire : ¬(derivations padKdf).Finished ⟨sampleCall, .acquire [0x70]⟩ := by
    simp [derivations]
  apply Runs.cons (Pool.Step.spawn rfl)
  apply Runs.cons (Pool.Step.spawn rfl)
  apply Runs.cons (Pool.Step.spawn rfl)
  apply Runs.cons (Pool.Step.run rfl hcalled)
  apply Runs.cons (Pool.Step.run rfl hcalled)
  apply Runs.cons (Pool.Step.run rfl hcalled)
  apply Runs.cons (Pool.Step.run rfl hacquire)
  apply Runs.cons (Pool.Step.run rfl hacquire)
  apply Runs.cons (Pool.Step.run rfl hacquire)
  exact Runs.nil

theorem derivations_capped_busy :
    busyPool.shared.kdfPermits + busyPool.held DeriveThread.holds = 2 ∧
    (∀ t ∈ busyPool.threads, ∀ result, t.point = .ended result →
      t.call.Gives padKdf result ∨ result = .error kdfBusy) ∧
    ∀ t ∈ busyPool.threads, ∀ password, t.point = .acquire password →
      (t.next padKdf busyPool.shared).1.point =
        if busyPool.held DeriveThread.holds = 2 then .ended (.error kdfBusy)
        else .derive password :=
  derivations_capped rfl busyPool_reached

/-- What may come of a thread when the others are let finish first: it stays as it was if it had
ended, and does not give up if not. -/
structure DeriveThread.Follows (kdf : PasswordKdf) (t t' : DeriveThread) : Prop where
  call : t'.call = t.call
  kept : ∀ result, t.point = .ended result → t'.point = .ended result
  served : (∀ result, t.point ≠ .ended result) → t'.Served kdf

theorem DeriveThread.Follows.refl (t : DeriveThread) : t.Follows kdf t where
  call := rfl
  kept _ h := h
  served h result hresult := absurd hresult (h result)

theorem DeriveThread.Follows.next {t t' : DeriveThread} (h : t.Follows kdf t')
    (hs : t'.Sound kdf) {rt : Runtime} (hp : rt.kdfPermits = 0 → t'.holds ≠ 0) :
    t.Follows kdf (t'.next kdf rt).1 where
  call := h.call
  kept result hresult := by
    have hpoint := h.kept result hresult
    simp only [DeriveThread.next, hpoint, DerivePoint.next]
  served hf := hs.next_served (h.served hf) hp

/-- A pool that another may become without anyone giving up. -/
structure Serves (kdf : PasswordKdf) (pool pool' : Pool DeriveThread Runtime) : Prop where
  places : pool'.shared.kdfPermits + pool'.held DeriveThread.holds = 2
  sound : ∀ t ∈ pool'.threads, t.Sound kdf
  follows : List.Forall₂ (DeriveThread.Follows kdf) pool.threads pool'.threads

theorem Serves.advance {pool pool' : Pool DeriveThread Runtime} (h : Serves kdf pool pool')
    {i : Nat} {t : DeriveThread} (hi : pool'.threads[i]? = some t)
    (hp : pool'.shared.kdfPermits = 0 → t.holds ≠ 0) :
    Serves kdf pool (pool'.advance (derivations kdf) i t) where
  places := by
    have hnext := Pool.advance_conserved (S := derivations kdf) derivations_next hi
    rw [hnext]
    exact h.places
  sound := by
    intro t' ht'
    rcases List.mem_or_eq_of_mem_set ht' with ht' | rfl
    · exact h.sound t' ht'
    · exact (h.sound t (List.mem_of_getElem? hi)).next _
  follows := Pool.forall₂_set h.follows hi fun a ha =>
    ha.next (h.sound t (List.mem_of_getElem? hi)) hp

/-- Some thread can go on without giving up: one that holds a place, or else any, for then there is
a place free. -/
theorem Serves.goes_on {pool pool' : Pool DeriveThread Runtime} (h : Serves kdf pool pool')
    (hsome : ∃ t ∈ pool'.threads, ¬(derivations kdf).Finished t) :
    ∃ i t, pool'.threads[i]? = some t ∧ ¬(derivations kdf).Finished t ∧
      Serves kdf pool (pool'.advance (derivations kdf) i t) := by
  by_cases hp : pool'.shared.kdfPermits = 0
  · have hholder : ∃ t ∈ pool'.threads, t.holds ≠ 0 := by
      by_contra hnone
      have hzero : pool'.held DeriveThread.holds = 0 :=
        Pool.held_eq_zero.mpr (by simpa using hnone)
      have hplaces := h.places
      omega
    obtain ⟨t, ht, hholds⟩ := hholder
    obtain ⟨i, hi⟩ := List.mem_iff_getElem?.mp ht
    refine ⟨i, t, hi, ?_, h.advance hi fun _ => hholds⟩
    rintro ⟨result, hended⟩
    simp [DeriveThread.holds, hended] at hholds
  · obtain ⟨t, ht, hf⟩ := hsome
    obtain ⟨i, hi⟩ := List.mem_iff_getElem?.mp ht
    exact ⟨i, t, hi, hf, h.advance hi fun hzero => absurd hzero hp⟩

/-- No call waits for ever, for want of a place or for another call. However calls are scheduled,
each takes four steps at most; and from wherever they have come, there is a schedule by which all of
them end, none of those under way gives up, and both places are free again. -/
theorem derivations_end (hrt : rt.kdfPermits = 2)
    (h : Runs (Pool.Step (derivations kdf)) ⟨[], rt⟩ es pool) :
    (∀ i, Pool.stepsOf i es ≤ 4) ∧
    ∃ (schedule : List Nat) (pool' : Pool DeriveThread Runtime),
      Runs (Pool.Step (derivations kdf)) pool (schedule.map PoolEvent.run) pool' ∧
      pool'.shared.kdfPermits = 2 ∧
      List.Forall₂ (fun t t' => ∃ result, t' = ⟨t.call, .ended result⟩ ∧
        (t.point = .ended result ∨ t.call.Gives kdf result)) pool.threads pool'.threads := by
  have hrank : ∀ (t : DeriveThread) (rt : Runtime), ¬(derivations kdf).Finished t →
      ((derivations kdf).next t rt).1.remaining < t.remaining :=
    fun t rt hf => t.next_remaining rt hf
  constructor
  · have hfresh : ∀ t, (derivations kdf).Fresh t → t.remaining ≤ 4 := by
      intro t ht
      have hpoint : t.point = .called := ht
      simp [DeriveThread.remaining, hpoint]
    intro i
    have hsteps := Pool.stepsOf_le hfresh hrank h i
    have hempty : Pool.remaining DeriveThread.remaining 4
      (⟨[], rt⟩ : Pool DeriveThread Runtime) i = 4 := rfl
    omega
  have hplaces := derivations_places h
  have hserves : Serves kdf pool pool := by
    refine ⟨hplaces.trans hrt, derivations_sound h, ?_⟩
    exact List.forall₂_same.mpr fun t _ => DeriveThread.Follows.refl t
  obtain ⟨schedule, pool', hrun, hended, hserved⟩ :=
    Pool.drains hrank (fun p hp hsome => Serves.goes_on hp hsome) hserves
  refine ⟨schedule, pool', hrun, ?_, ?_⟩
  · have hnone : pool'.held DeriveThread.holds = 0 := by
      apply Pool.held_eq_zero.mpr
      intro t ht
      obtain ⟨result, hpoint⟩ := hended t ht
      simp [DeriveThread.holds, hpoint]
    have hp := hserved.places
    omega
  · obtain ⟨hlen, hfollows⟩ := List.forall₂_iff_zip.mp hserved.follows
    refine List.forall₂_iff_zip.mpr ⟨hlen, ?_⟩
    intro t t' hmem
    have hpair : t.Follows kdf t' := hfollows hmem
    obtain ⟨result, hresult⟩ := hended t' (List.of_mem_zip hmem).2
    have hsame : t' = ⟨t.call, .ended result⟩ := by
      rw [← hpair.call, ← hresult]
    refine ⟨result, hsame, ?_⟩
    by_cases hf : ∃ r, t.point = .ended r
    · obtain ⟨r, hr⟩ := hf
      have hkept := hpair.kept r hr
      rw [hresult] at hkept
      exact Or.inl (hkept ▸ hr)
    · have hgives := hpair.served (not_exists.mp hf) result hresult
      rw [hpair.call] at hgives
      exact Or.inr hgives

theorem derivations_end_busy : (∀ i, Pool.stepsOf i busyEvents ≤ 4) ∧
    ∃ (schedule : List Nat) (pool' : Pool DeriveThread Runtime),
      Runs (Pool.Step (derivations padKdf)) busyPool (schedule.map PoolEvent.run) pool' ∧
      pool'.shared.kdfPermits = 2 ∧
      List.Forall₂ (fun t t' => ∃ result, t' = ⟨t.call, .ended result⟩ ∧
        (t.point = .ended result ∨ t.call.Gives padKdf result)) busyPool.threads pool'.threads :=
  derivations_end rfl busyPool_reached

end Pools

end Threads

end CryptoFlex
