import CryptoFlex.Errors
import CryptoFlex.Python
import CryptoFlex.Lib.Loop

namespace CryptoFlex

open Lib

/-- A binary stream open for reading: `read(n)` and what is left of the stream after it. -/
class Input (ι : Type) where
  read : Nat → ι → Except Exc Bytes × ι

/-- A binary stream open for writing. `write(b)` accepts all of `b`, or raises after its first
bytes were written. -/
class Output (ω : Type) where
  write : Bytes → ω → Option (Nat × Exc) × ω

/-- An in-memory stream: every read takes as much as was asked for. -/
structure MemoryStream where
  rest : Bytes
  deriving DecidableEq

instance : Input MemoryStream where
  read n s := (.ok (s.rest.take n), ⟨s.rest.drop n⟩)

/-- An in-memory stream open for writing. -/
structure BytesSink where
  deriving DecidableEq

instance : Output BytesSink where
  write _ s := (none, s)

/-- No write ever fails. -/
def Reliable (ω : Type) [Output ω] : Prop :=
  ∀ b (s : ω), (Output.write b s).1 = none

/-- A write that raises has not written all of its bytes. -/
def FailsEarly (ω : Type) [Output ω] : Prop :=
  ∀ b (s s' : ω) k e, Output.write b s = (some (k, e), s') → b ≠ [] → k < b.length

/-- A write that raises has written nothing. -/
def AllOrNothing (ω : Type) [Output ω] : Prop :=
  ∀ b (s s' : ω) k e, Output.write b s = (some (k, e), s') → k = 0

theorem Reliable.failsEarly {ω : Type} [Output ω] (h : Reliable ω) : FailsEarly ω := by
  intro b s s' k e hw
  have hnone := h b s
  rw [hw] at hnone
  cases hnone

theorem bytesSink_reliable : Reliable BytesSink := fun _ _ => rfl

section Delivery

variable {ι : Type} [Input ι]

/-- One read of at most `n` bytes off a stream that still holds `bs`: some of them, and none only
at the end. -/
def ReadStep (R : ι → Bytes → Prop) (n : Nat) (i : ι) (bs : Bytes) : Prop :=
  ∃ chunk rest i', Input.read n i = (.ok chunk, i') ∧ bs = chunk ++ rest ∧ chunk.length ≤ n ∧
    (chunk = [] → bs = []) ∧ R i' rest

/-- The stream gives exactly `bs`, through reads of any positive size up to the requested one,
and then `b""` for ever. -/
def Delivers (i : ι) (bs : Bytes) : Prop :=
  ∃ R : ι → Bytes → Prop, (∀ i bs, R i bs → ∀ n, 0 < n → ReadStep R n i bs) ∧ R i bs

/-- The stream gives exactly `bs` and fills every read. -/
def Fills (i : ι) (bs : Bytes) : Prop :=
  ∃ R : ι → Bytes → Prop, (∀ i bs, R i bs → ∀ n, 0 < n →
    ∃ i', Input.read n i = (.ok (bs.take n), i') ∧ R i' (bs.drop n)) ∧ R i bs

theorem Delivers.read {i : ι} {bs : Bytes} (h : Delivers i bs) {n : Nat} (hn : 0 < n) :
    ReadStep Delivers n i bs := by
  obtain ⟨R, hR, hi⟩ := h
  obtain ⟨chunk, rest, i', hread, hbs, hle, hnil, hrest⟩ := hR i bs hi n hn
  exact ⟨chunk, rest, i', hread, hbs, hle, hnil, R, hR, hrest⟩

theorem Fills.read {i : ι} {bs : Bytes} (h : Fills i bs) {n : Nat} (hn : 0 < n) :
    ∃ i', Input.read n i = (.ok (bs.take n), i') ∧ Fills i' (bs.drop n) := by
  obtain ⟨R, hR, hi⟩ := h
  obtain ⟨i', hread, hrest⟩ := hR i bs hi n hn
  exact ⟨i', hread, R, hR, hrest⟩

theorem Fills.delivers {i : ι} {bs : Bytes} (h : Fills i bs) : Delivers i bs := by
  refine ⟨Fills, ?_, h⟩
  intro i bs h n hn
  obtain ⟨i', hread, hrest⟩ := h.read hn
  refine ⟨bs.take n, bs.drop n, i', hread, (List.take_append_drop n bs).symm, ?_, ?_, hrest⟩
  · rw [List.length_take]
    omega
  · intro hnil
    have hlen := congrArg List.length hnil
    rw [List.length_take, List.length_nil] at hlen
    exact List.length_eq_zero_iff.mp (by omega)

theorem memoryStream_fills (bs : Bytes) : Fills (MemoryStream.mk bs) bs := by
  refine ⟨fun i bs => i.rest = bs, ?_, rfl⟩
  rintro i bs rfl n -
  exact ⟨⟨i.rest.drop n⟩, rfl, rfl⟩

/-- A read that takes `c` takes the front of what follows it. -/
theorem memoryStream_read {n : Nat} {c : Bytes} (hc : c.length ≤ n) (body : Bytes) :
    Input.read n (MemoryStream.mk (c ++ body)) =
      (.ok (c ++ body.take (n - c.length)), MemoryStream.mk (body.drop (n - c.length))) := by
  have htake : (c ++ body).take n = c ++ body.take (n - c.length) := by
    rw [List.take_append, List.take_of_length_le hc]
  have hdrop : (c ++ body).drop n = body.drop (n - c.length) := by
    rw [List.drop_append, List.drop_of_length_le hc, List.nil_append]
  rw [← htake, ← hdrop]
  rfl

end Delivery

/-- A stream that gives one byte a read, as a slow pipe may. -/
structure Drip where
  rest : Bytes

instance : Input Drip where
  read n s := (.ok (s.rest.take (min n 1)), ⟨s.rest.drop (min n 1)⟩)

theorem drip_delivers (bs : Bytes) : Delivers (Drip.mk bs) bs := by
  refine ⟨fun i bs => i.rest = bs, ?_, rfl⟩
  rintro i bs rfl n hn
  refine ⟨_, _, _, rfl, (List.take_append_drop (min n 1) i.rest).symm, ?_, ?_, rfl⟩
  · rw [List.length_take]
    omega
  · intro hnil
    have hlen := congrArg List.length hnil
    rw [List.length_take, List.length_nil] at hlen
    exact List.length_eq_zero_iff.mp (by omega)

/-- A stream without an end. -/
structure Endless where
  byte : UInt8

instance : Input Endless where
  read n s := (.ok (List.replicate n s.byte), s)

structure StreamReader (ι : Type) where
  buf : Bytes
  stream : ι

namespace StreamReader

variable {ι : Type} [Input ι]

/-- `self.stream.read(n)`. -/
def readStream (n : Nat) : Eff Exc (StreamReader ι) Bytes := ⟨fun r =>
  let (result, stream) := Input.read n r.stream
  (result, { r with stream })⟩

/-- One pass of the loop in `read_exact`. -/
def fillStep (n : Nat) : Eff Exc (StreamReader ι) (Unit ⊕ Unit) := do
  let r ← Eff.get
  if n ≤ r.buf.length then return .inr () else
  let more ← readStream (n - r.buf.length + 4096)
  if more = [] then return .inr () else
  Eff.modify fun r => { r with buf := r.buf ++ more }
  return .inl ()

theorem fillStep_continue {n : Nat} {r r' : StreamReader ι}
    (h : (fillStep n).run r = (.ok (.inl ()), r')) :
    r.buf.length < n ∧ r.buf.length < r'.buf.length := by
  unfold fillStep at h
  rw [Eff.run_get_bind] at h
  by_cases hn : n ≤ r.buf.length
  · rw [if_pos hn] at h
    cases h
  · rw [if_neg hn] at h
    obtain ⟨more, r1, hread, h⟩ := Eff.bind_eq_ok.mp h
    have hbuf : r1.buf = r.buf := (congrArg (fun p => p.2.buf) hread).symm
    by_cases hm : more = []
    · rw [if_pos hm] at h
      cases h
    · rw [if_neg hm] at h
      cases h
      have hpos := List.length_pos_iff.mpr hm
      simp only [List.length_append, hbuf]
      omega

/-- Every read that continues the loop lengthens the buffer, which is shorter than `n`. -/
def fill (n : Nat) : Loop Exc (StreamReader ι) Unit Unit where
  step _ := fillStep n
  rank _ r := n - r.buf.length
  decreases := by
    intro _ r _ r' h
    have hlt := fillStep_continue h
    omega

def readExact (n : Nat) : Eff Exc (StreamReader ι) Bytes := do
  (fill n).toEff ()
  let r ← Eff.get
  if r.buf.length < n then
    Eff.raise (.decryptionError "decryption failed: truncated frame") else
  Eff.modify fun r => { r with buf := r.buf.drop n }
  return r.buf.take n

def hasRemaining : Eff Exc (StreamReader ι) Bool := do
  let r ← Eff.get
  if 0 < r.buf.length then return true else
  let more ← readStream 1
  if more ≠ [] then
    Eff.modify fun r => { r with buf := r.buf ++ more }
    return true
  else return false

/-- The bytes the reader has still to return: its buffer and what the stream delivers. -/
def Holds (r : StreamReader ι) (bs : Bytes) : Prop :=
  ∃ t, bs = r.buf ++ t ∧ Delivers r.stream t

theorem readStream_holds {r : StreamReader ι} {bs : Bytes} (h : r.Holds bs) {n : Nat}
    (hn : 0 < n) : ∃ more r', (readStream n).run r = (.ok more, r') ∧ r'.buf = r.buf ∧
      (more = [] → bs = r.buf) ∧ ({ r' with buf := r.buf ++ more }).Holds bs := by
  obtain ⟨t, rfl, ht⟩ := h
  obtain ⟨chunk, rest, i', hread, rfl, -, hnil, hrest⟩ := ht.read hn
  refine ⟨chunk, { r with stream := i' }, ?_, rfl, ?_, rest, ?_, hrest⟩
  · simp only [readStream, hread]
  · intro hc
    rw [hnil hc, List.append_nil]
  · rw [List.append_assoc]

/-- The loop stops with enough bytes in the buffer, or with all there are. -/
theorem fill_holds (n : Nat) {r : StreamReader ι} {bs : Bytes} (h : r.Holds bs) :
    ∃ r', ((fill n).toEff ()).run r = (.ok (), r') ∧ r'.Holds bs ∧
      (n ≤ r'.buf.length ∨ r'.buf = bs) := by
  induction hd : n - r.buf.length using Nat.strongRecOn generalizing r with
  | ind d ih =>
    by_cases hn : n ≤ r.buf.length
    · have hstep : (fillStep n).run r = (.ok (.inr ()), r) := by
        unfold fillStep
        rw [Eff.run_get_bind, if_pos hn, Eff.run_pure]
      exact ⟨r, (fill n).run_break hstep, h, Or.inl hn⟩
    · obtain ⟨more, r1, hread, hbuf, hnil, hholds⟩ :=
        readStream_holds h (by omega : 0 < n - r.buf.length + 4096)
      by_cases hm : more = []
      · have hstep : (fillStep n).run r = (.ok (.inr ()), r1) := by
          unfold fillStep
          rw [Eff.run_get_bind, if_neg hn, Eff.bind_ok hread, if_pos hm, Eff.run_pure]
        rw [hm, List.append_nil, ← hbuf] at hholds
        exact ⟨r1, (fill n).run_break hstep, hholds, Or.inr (by rw [hbuf, ← hnil hm])⟩
      · have hstep : (fillStep n).run r = (.ok (.inl ()), { r1 with buf := r1.buf ++ more }) := by
          unfold fillStep
          rw [Eff.run_get_bind, if_neg hn, Eff.bind_ok hread, if_neg hm, Eff.run_modify_bind,
            Eff.run_pure]
        rw [← hbuf] at hholds
        have hpos := List.length_pos_iff.mpr hm
        have hlen : n - (r1.buf ++ more).length < d := by
          rw [List.length_append, hbuf]
          omega
        obtain ⟨r', hrun, hr', hor⟩ := ih _ hlen hholds rfl
        exact ⟨r', by rw [(fill n).run_continue hstep]; exact hrun, hr', hor⟩

theorem readExact_ok {n : Nat} {r : StreamReader ι} {bs : Bytes} (h : r.Holds bs)
    (hn : n ≤ bs.length) :
    ∃ r', (readExact n).run r = (.ok (bs.take n), r') ∧ r'.Holds (bs.drop n) := by
  obtain ⟨r1, hrun, hr1, hor⟩ := fill_holds n h
  obtain ⟨t, rfl, ht⟩ := hr1
  have hlen : n ≤ r1.buf.length := by
    rcases hor with hle | heq
    · exact hle
    · rw [← heq] at hn
      exact hn
  refine ⟨{ r1 with buf := r1.buf.drop n }, ?_, t, ?_, ht⟩
  · unfold readExact
    rw [Eff.bind_ok hrun, Eff.run_get_bind, if_neg (by omega), Eff.run_modify_bind, Eff.run_pure,
      List.take_append_of_le_length hlen]
  · rw [List.drop_append_of_le_length hlen]

/-- A failing `read_exact` loses nothing. -/
theorem readExact_truncated {n : Nat} {r : StreamReader ι} {bs : Bytes} (h : r.Holds bs)
    (hn : bs.length < n) :
    ∃ r', (readExact n).run r =
      (.error (.decryptionError "decryption failed: truncated frame"), r') ∧ r'.Holds bs := by
  obtain ⟨r1, hrun, hr1, hor⟩ := fill_holds n h
  have hlen : r1.buf.length < n := by
    obtain ⟨t, rfl, -⟩ := hr1
    rw [List.length_append] at hn
    omega
  refine ⟨r1, ?_, hr1⟩
  unfold readExact
  rw [Eff.bind_ok hrun, Eff.run_get_bind, if_pos hlen, Eff.run_raise]

theorem readExact_length {n : Nat} {r r' : StreamReader ι} {b : Bytes}
    (h : (readExact n).run r = (.ok b, r')) : b.length = n := by
  unfold readExact at h
  obtain ⟨-, r₁, -, h⟩ := Eff.bind_eq_ok.mp h
  rw [Eff.run_get_bind] at h
  by_cases hn : r₁.buf.length < n
  · rw [if_pos hn] at h
    cases h
  · rw [if_neg hn] at h
    cases h
    rw [List.length_take]
    omega

theorem hasRemaining_holds {r : StreamReader ι} {bs : Bytes} (h : r.Holds bs) :
    ∃ r', hasRemaining.run r = (.ok (decide (bs ≠ [])), r') ∧ r'.Holds bs := by
  by_cases hbuf : 0 < r.buf.length
  · have hne : bs ≠ [] := by
      obtain ⟨t, rfl, -⟩ := h
      intro hnil
      rw [List.append_eq_nil_iff] at hnil
      rw [hnil.1] at hbuf
      exact absurd hbuf (by simp)
    refine ⟨r, ?_, h⟩
    unfold hasRemaining
    rw [Eff.run_get_bind, if_pos hbuf, Eff.run_pure, decide_eq_true hne]
  · have hempty : r.buf = [] := List.length_eq_zero_iff.mp (by omega)
    obtain ⟨more, r1, hread, hr1, hnil, hholds⟩ := readStream_holds h Nat.one_pos
    rw [← hr1] at hholds
    by_cases hm : more = []
    · have hbs : bs = [] := by rw [hnil hm, hempty]
      rw [hm, List.append_nil] at hholds
      refine ⟨r1, ?_, hholds⟩
      unfold hasRemaining
      rw [Eff.run_get_bind, if_neg hbuf, Eff.bind_ok hread, if_neg (not_not.mpr hm), Eff.run_pure,
        hbs]
      rfl
    · have hne : bs ≠ [] := by
        obtain ⟨t, rfl, -⟩ := hholds
        simp [hm]
      refine ⟨{ r1 with buf := r1.buf ++ more }, ?_, hholds⟩
      unfold hasRemaining
      rw [Eff.run_get_bind, if_neg hbuf, Eff.bind_ok hread, if_pos hm, Eff.run_modify_bind,
        Eff.run_pure, decide_eq_true hne]

end StreamReader

end CryptoFlex
