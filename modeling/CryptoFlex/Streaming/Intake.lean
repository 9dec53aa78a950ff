import CryptoFlex.Streaming.Cursor
import CryptoFlex.Streaming.Decrypt

namespace CryptoFlex

open Lib World

section Reader

variable {ι : Type} [Input ι]

/-- What a stream gives in reads of at most `cap` bytes made one after the other, of which some may
fail. -/
inductive Gives (cap : Nat) : ι → Bytes → ι → Prop
  | stop (i : ι) : Gives cap i [] i
  | read {n : Nat} {i i₁ i₂ : ι} {c t : Bytes} (asked : n ≤ cap)
    (given : Input.read n i = (.ok c, i₁)) (more : Gives cap i₁ t i₂) : Gives cap i (c ++ t) i₂
  | fail {n : Nat} {i i₁ i₂ : ι} {e : Exc} {t : Bytes} (asked : n ≤ cap)
    (raised : Input.read n i = (.error e, i₁)) (more : Gives cap i₁ t i₂) : Gives cap i t i₂

/-- A reader that hands over the bytes `taken` keeps the rest of what the stream gave it; no read
asks for more than 4096 bytes beyond `cap`. -/
def Conserves (cap : Nat) (r : StreamReader ι) (taken : Bytes) (r' : StreamReader ι) : Prop :=
  ∃ t, Gives (cap + 4096) r.stream t r'.stream ∧ r.buf ++ t = taken ++ r'.buf

variable {cap : Nat}

theorem Gives.append {i i₁ i₂ : ι} {t t' : Bytes} (h : Gives cap i t i₁)
    (h' : Gives cap i₁ t' i₂) : Gives cap i (t ++ t') i₂ := by
  induction h with
  | stop i => exact h'
  | read asked given _ ih =>
    rw [List.append_assoc]
    exact Gives.read asked given (ih h')
  | fail asked raised _ ih => exact Gives.fail asked raised (ih h')

theorem Conserves.refl (r : StreamReader ι) : Conserves cap r [] r :=
  ⟨[], Gives.stop _, List.append_nil _⟩

theorem Conserves.trans {r r₁ r₂ : StreamReader ι} {a b : Bytes} (h : Conserves cap r a r₁)
    (h' : Conserves cap r₁ b r₂) : Conserves cap r (a ++ b) r₂ := by
  obtain ⟨t, hgives, hbytes⟩ := h
  obtain ⟨t', hgives', hbytes'⟩ := h'
  refine ⟨t ++ t', hgives.append hgives', ?_⟩
  rw [← List.append_assoc, hbytes, List.append_assoc, hbytes', List.append_assoc]

theorem readStream_gives {n : Nat} (hn : n ≤ cap) (r : StreamReader ι) :
    Eff.Post (StreamReader.readStream n) r fun result r' => r'.buf = r.buf ∧ match result with
      | .ok more => Gives cap r.stream more r'.stream
      | .error _ => Gives cap r.stream [] r'.stream := by
  rcases hread : Input.read n r.stream with ⟨result, i'⟩
  have hrun : (StreamReader.readStream n).run r = (result, { r with stream := i' }) := by
    simp only [StreamReader.readStream, hread]
  apply Eff.Post.of_eq hrun
  refine ⟨rfl, ?_⟩
  cases result with
  | ok more =>
    have hgives := Gives.read hn hread (Gives.stop i')
    rw [List.append_nil] at hgives
    exact hgives
  | error e => exact Gives.fail hn hread (Gives.stop i')

theorem fillStep_conserves {n : Nat} (hn : n ≤ cap) :
    Eff.Keeps (fun r r' => Conserves cap r [] r')
      (StreamReader.fillStep n : Eff Exc (StreamReader ι) (Unit ⊕ Unit)) := by
  intro r
  unfold StreamReader.fillStep
  rw [Eff.run_get_bind]
  by_cases henough : n ≤ r.buf.length
  · rw [if_pos henough]
    exact Conserves.refl r
  rw [if_neg henough]
  have hasked : n - r.buf.length + 4096 ≤ cap + 4096 := by omega
  have hpost := readStream_gives hasked r
  rcases hread : (StreamReader.readStream (n - r.buf.length + 4096)).run r with ⟨e | more, r₁⟩
  · obtain ⟨hbuf, hgives⟩ := hpost.elim hread
    rw [Eff.bind_error hread]
    exact ⟨[], hgives, by rw [hbuf]; simp⟩
  obtain ⟨hbuf, hgives⟩ := hpost.elim hread
  rw [Eff.bind_ok hread]
  by_cases hm : more = []
  · rw [if_pos hm]
    exact ⟨more, hgives, by simp [hbuf, hm]⟩
  · rw [if_neg hm]
    exact ⟨more, hgives, by simp [hbuf]⟩

theorem fill_conserves {n : Nat} (hn : n ≤ cap) :
    Eff.Keeps (fun r r' => Conserves cap r [] r')
      ((StreamReader.fill n).toEff () : Eff Exc (StreamReader ι) Unit) :=
  Loop.run_keeps _ (fun _ _ _ h h' => h.trans h') (fun _ => fillStep_conserves hn) ()

theorem readExact_conserves {n : Nat} (hcap : n ≤ cap) (r : StreamReader ι) :
    Eff.Post (StreamReader.readExact n) r fun result r' => match result with
      | .ok b => Conserves cap r b r'
      | .error _ => Conserves cap r [] r' := by
  unfold StreamReader.readExact
  apply Eff.Post.bind_keeps (fill_conserves hcap)
  · intro _ r₁ hfill _
    by_cases hn : r₁.buf.length < n
    · have hrun : (Eff.get >>= fun r : StreamReader ι => if r.buf.length < n then
          Eff.raise truncatedFrame else do
            Eff.modify fun r => { r with buf := r.buf.drop n }
            return r.buf.take n).run r₁ = (.error truncatedFrame, r₁) := by
        rw [Eff.run_get_bind, if_pos hn, Eff.run_raise]
      exact Eff.Post.of_eq hrun hfill
    · have hrun : (Eff.get >>= fun r : StreamReader ι => if r.buf.length < n then
          Eff.raise truncatedFrame else do
            Eff.modify fun r => { r with buf := r.buf.drop n }
            return r.buf.take n).run r₁ =
          (.ok (r₁.buf.take n), { r₁ with buf := r₁.buf.drop n }) := by
        rw [Eff.run_get_bind, if_neg hn, Eff.run_modify_bind, Eff.run_pure]
      apply Eff.Post.of_eq hrun
      obtain ⟨t, hgives, hbytes⟩ := hfill
      refine ⟨t, hgives, ?_⟩
      rw [hbytes]
      exact (List.take_append_drop n r₁.buf).symm
  · intro e r₁ hfill
    exact hfill

theorem hasRemaining_conserves :
    Eff.Keeps (fun r r' => Conserves cap r [] r')
      (StreamReader.hasRemaining : Eff Exc (StreamReader ι) Bool) := by
  intro r
  unfold StreamReader.hasRemaining
  rw [Eff.run_get_bind]
  by_cases hbuf : 0 < r.buf.length
  · rw [if_pos hbuf]
    exact Conserves.refl r
  rw [if_neg hbuf]
  have hasked : 1 ≤ cap + 4096 := by omega
  have hpost := readStream_gives hasked r
  rcases hread : (StreamReader.readStream 1).run r with ⟨e | more, r₁⟩
  · obtain ⟨hkept, hgives⟩ := hpost.elim hread
    rw [Eff.bind_error hread]
    exact ⟨[], hgives, by simp [hkept]⟩
  obtain ⟨hkept, hgives⟩ := hpost.elim hread
  rw [Eff.bind_ok hread]
  by_cases hm : more = []
  · rw [if_neg (not_not.mpr hm)]
    exact ⟨more, hgives, by simp [hkept, hm]⟩
  · rw [if_pos hm]
    exact ⟨more, hgives, by simp [hkept]⟩

/-- A call hands over bytes off the front, whatever the stream does. -/
theorem ReaderCall.answer_conserves {call : ReaderCall} (hcap : ∀ n, call = .readExact n → n ≤ cap)
    (r : StreamReader ι) : Conserves cap r (call.answer r).1.returned (call.answer r).2 := by
  cases call with
  | readExact n =>
    have hread := readExact_conserves (hcap n rfl) r
    rcases hrun : (StreamReader.readExact n).run r with ⟨e | b, r₁⟩
    · simp only [answer, hrun]
      exact hread.elim hrun
    · simp only [answer, hrun]
      exact hread.elim hrun
  | hasRemaining =>
    rcases hrun : (StreamReader.hasRemaining).run r with ⟨e | b, r₁⟩
    · simp only [answer, hrun]
      exact hasRemaining_conserves.of_eq hrun
    · simp only [answer, hrun]
      exact hasRemaining_conserves.of_eq hrun

theorem answerAll_conserves {calls : List ReaderCall}
    (hcap : ∀ n, ReaderCall.readExact n ∈ calls → n ≤ cap) (r : StreamReader ι) :
    Conserves cap r (returned (answerAll calls r).1) (answerAll calls r).2 := by
  induction calls generalizing r with
  | nil => exact Conserves.refl r
  | cons call calls ih =>
    have hfirst : Conserves cap r (call.answer r).1.returned (call.answer r).2 :=
      ReaderCall.answer_conserves (fun n hn => hcap n (hn ▸ List.mem_cons_self)) r
    exact hfirst.trans (ih (fun n hn => hcap n (List.mem_cons_of_mem _ hn)) _)

theorem answerAll_append (calls calls' : List ReaderCall) (r : StreamReader ι) :
    answerAll (calls ++ calls') r =
      ((answerAll calls r).1 ++ (answerAll calls' (answerAll calls r).2).1,
        (answerAll calls' (answerAll calls r).2).2) := by
  induction calls generalizing r with
  | nil => rfl
  | cons call calls ih => simp only [List.cons_append, answerAll, ih]

/-- The reader is called, never for more than a frame body may hold, and hands over `taken`. -/
def Takes (r : StreamReader ι) (taken : Bytes) (r' : StreamReader ι) : Prop :=
  ∃ calls, (∀ n, ReaderCall.readExact n ∈ calls → n ≤ maxChunkCiphertextSize) ∧
    taken = returned (answerAll calls r).1 ∧ r' = (answerAll calls r).2

namespace Takes

variable {r r₁ r₂ : StreamReader ι}

theorem refl (r : StreamReader ι) : Takes r [] r := ⟨[], by simp, rfl, rfl⟩

theorem trans {a b : Bytes} (h : Takes r a r₁) (h' : Takes r₁ b r₂) : Takes r (a ++ b) r₂ := by
  obtain ⟨calls, hcap, rfl, rfl⟩ := h
  obtain ⟨calls', hcap', rfl, rfl⟩ := h'
  refine ⟨calls ++ calls', ?_, ?_, ?_⟩
  · intro n hn
    rcases List.mem_append.mp hn with h | h
    · exact hcap n h
    · exact hcap' n h
  · rw [answerAll_append]
    simp [returned]
  · rw [answerAll_append]

theorem readExact {n : Nat} (hn : n ≤ maxChunkCiphertextSize) {result : Except Exc Bytes}
    (h : (StreamReader.readExact n).run r = (result, r₁)) :
    Takes r (result.toOption.getD []) r₁ := by
  refine ⟨[.readExact n], by simp [hn], ?_, ?_⟩
  · cases result <;> simp [answerAll, ReaderCall.answer, h, returned, Reply.returned,
      Except.toOption]
  · cases result <;> simp [answerAll, ReaderCall.answer, h]

theorem hasRemaining (r : StreamReader ι) : Takes r [] (StreamReader.hasRemaining.run r).2 := by
  refine ⟨[.hasRemaining], by simp, ?_, ?_⟩
  · rcases h : StreamReader.hasRemaining.run r with ⟨e | b, r'⟩ <;>
      simp [answerAll, ReaderCall.answer, h, returned, Reply.returned]
  · rcases h : StreamReader.hasRemaining.run r with ⟨e | b, r'⟩ <;>
      simp [answerAll, ReaderCall.answer, h]

/-- What is handed over comes off the front of the buffer and of what the stream gave. -/
theorem conserves {taken : Bytes} (h : Takes r taken r₁) :
    Conserves maxChunkCiphertextSize r taken r₁ := by
  obtain ⟨calls, hcap, rfl, rfl⟩ := h
  exact answerAll_conserves hcap r

end Takes

end Reader

section Frames

variable {ι ω : Type} {α β : Type} [Input ι]

/-- With `k` bytes taken before, `x` leaves it at `len a` when it returns `a`. -/
def TakesTo (k : Nat) (x : Eff Exc (World ι ω) α) (len : α → Nat) : Prop :=
  ∀ w, Eff.Post x w fun r w' => ∃ taken, Takes w.reader taken w'.reader ∧
    ∀ a, r = .ok a → k + taken.length = len a

namespace TakesTo

theorem pure {k : Nat} {len : α → Nat} {a : α} (h : k = len a) :
    TakesTo k (Pure.pure a : Eff Exc (World ι ω) α) len := by
  intro w
  refine ⟨[], Takes.refl _, ?_⟩
  intro b hb
  cases hb
  exact h

theorem raise {k : Nat} {len : α → Nat} (e : Exc) :
    TakesTo k (Eff.raise e : Eff Exc (World ι ω) α) len :=
  fun _ => ⟨[], Takes.refl _, nofun⟩

theorem lift (k : Nat) (x : Except Exc α) :
    TakesTo k (Eff.lift x : Eff Exc (World ι ω) α) fun _ => k :=
  fun _ => ⟨[], Takes.refl _, fun _ _ => rfl⟩

theorem bind {k : Nat} {x : Eff Exc (World ι ω) α} {f : α → Eff Exc (World ι ω) β}
    {mid : α → Nat} {len : β → Nat} (hx : TakesTo k x mid) (hf : ∀ a, TakesTo (mid a) (f a) len) :
    TakesTo k (x >>= f) len := by
  intro w
  apply Eff.Post.bind
  apply (hx w).mono
  rintro (e | a) w₁ ⟨taken, htakes, hlen⟩
  · exact ⟨taken, htakes, nofun⟩
  · apply (hf a w₁).mono
    rintro r w₂ ⟨taken', htakes', hlen'⟩
    refine ⟨taken ++ taken', htakes.trans htakes', ?_⟩
    intro b hb
    have hmid := hlen a rfl
    have hend := hlen' b hb
    rw [List.length_append]
    omega

theorem readExact (k : Nat) {n : Nat} (hn : n ≤ maxChunkCiphertextSize) :
    TakesTo k (onReader (StreamReader.readExact n) : Eff Exc (World ι ω) Bytes)
      fun b => k + b.length := by
  intro w
  rcases hrun : (StreamReader.readExact n).run w.reader with ⟨result, r'⟩
  have hw : (onReader (StreamReader.readExact n)).run w = (result, { w with reader := r' }) := by
    rw [onReader, Eff.run_zoom, hrun]
  apply Eff.Post.of_eq hw
  refine ⟨_, Takes.readExact hn hrun, ?_⟩
  rintro b rfl
  rfl

/-- The bytes are as many as were asked for. -/
theorem readCount (k : Nat) {n : Nat} (hn : n ≤ maxChunkCiphertextSize) :
    TakesTo k (onReader (StreamReader.readExact n) : Eff Exc (World ι ω) Bytes)
      fun _ => k + n := by
  intro w
  obtain ⟨taken, htakes, hlen⟩ := readExact (ω := ω) k hn w
  refine ⟨taken, htakes, ?_⟩
  intro b hb
  have hok : ((StreamReader.readExact n).run w.reader).1 = .ok b := hb
  have hcount := StreamReader.readExact_length (Prod.ext hok rfl)
  exact (hlen b hb).trans (congrArg (k + ·) hcount)

theorem readFrameType (receivedFinal : Bool) :
    TakesTo 0 (readFrameType receivedFinal : Eff Exc (World ι ω) Nat) fun _ => 1 := by
  unfold CryptoFlex.readFrameType
  have hread : TakesTo 0 (Eff.tryCatch (onReader (StreamReader.readExact 1)) fun e =>
      if e.isDecryptionError && !receivedFinal then
        Eff.raise (.decryptionError "decryption failed: missing FINAL frame")
      else Eff.raise e : Eff Exc (World ι ω) Bytes) fun _ => 1 := by
    intro w
    apply Eff.Post.tryCatch
    have hone : 1 ≤ maxChunkCiphertextSize := by decide
    apply (readCount (ω := ω) 0 hone w).mono
    rintro (e | b) w' ⟨taken, htakes, hlen⟩
    · dsimp only
      split <;> exact ⟨taken, htakes, nofun⟩
    · exact ⟨taken, htakes, hlen⟩
  exact hread.bind fun b => lift 1 _

theorem readDataFrame (seq total : Nat) :
    TakesTo 1 (readDataFrame seq total : Eff Exc (World ι ω) (Nat × Bytes))
      fun f => 5 + f.2.length := by
  unfold CryptoFlex.readDataFrame
  split
  · exact raise _
  apply (readCount 1 (by decide)).bind
  intro lengthBytes
  apply (lift _ _).bind
  intro ctLen
  split
  · exact raise _
  next hsize =>
  dsimp only
  split
  · exact raise _
  apply (readExact _ (by omega)).bind
  intro ct
  exact pure rfl

theorem readFinalFrame :
    TakesTo 1 (readFinalFrame : Eff Exc (World ι ω) Bytes) fun ct => 5 + ct.length := by
  unfold CryptoFlex.readFinalFrame
  apply (readCount 1 (by decide)).bind
  intro lengthBytes
  apply (lift _ _).bind
  intro ctLen
  split
  · exact raise _
  next hsize =>
  have hsixteen : 16 ≤ maxChunkCiphertextSize := by decide
  exact readExact _ (by omega)

/-- A frame is its type, its length and its body. -/
theorem readFrame (seq total : Nat) :
    TakesTo 0 (readFrame seq total : Eff Exc (World ι ω) Frame) fun f => 5 + f.ct.length := by
  unfold CryptoFlex.readFrame
  apply (readFrameType false).bind
  intro frameType
  split
  · apply (readDataFrame seq total).bind
    rintro ⟨ptLen, ct⟩
    exact pure rfl
  split
  · apply readFinalFrame.bind
    intro ct
    exact pure rfl
  · exact raise _

end TakesTo

end Frames

end CryptoFlex
