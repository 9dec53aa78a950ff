import CryptoFlex.Streaming.Reader

namespace CryptoFlex

open Lib

variable {ι : Type} [Input ι]

inductive ReaderCall
  | readExact (n : Nat)
  | hasRemaining

/-- What a caller sees of a call. -/
inductive Reply
  | bytes (b : Bytes)
  | flag (b : Bool)
  | raised (e : Exc)

/-- The bytes that a reply hands over. -/
def Reply.returned : Reply → Bytes
  | bytes b => b
  | flag _ => []
  | raised _ => []

/-- One call; an exception leaves the reader to the caller. -/
def ReaderCall.answer (call : ReaderCall) (r : StreamReader ι) : Reply × StreamReader ι :=
  match call with
  | readExact n =>
    match (StreamReader.readExact n).run r with
    | (.ok b, r') => (.bytes b, r')
    | (.error e, r') => (.raised e, r')
  | hasRemaining =>
    match StreamReader.hasRemaining.run r with
    | (.ok b, r') => (.flag b, r')
    | (.error e, r') => (.raised e, r')

/-- Calls made one after the other, in any order. -/
def answerAll : List ReaderCall → StreamReader ι → List Reply × StreamReader ι
  | [], r => ([], r)
  | call :: calls, r =>
    let (reply, r) := call.answer r
    let (replies, r) := answerAll calls r
    (reply :: replies, r)

/-- All that was handed over. -/
def returned (replies : List Reply) : Bytes := (replies.map Reply.returned).flatten

/-- A call hands over the next bytes or none, and keeps the others. -/
theorem ReaderCall.answer_holds (call : ReaderCall) {r : StreamReader ι} {bs : Bytes}
    (h : r.Holds bs) :
    ∃ rest, bs = (call.answer r).1.returned ++ rest ∧ (call.answer r).2.Holds rest := by
  cases call with
  | readExact n =>
    by_cases hn : n ≤ bs.length
    · obtain ⟨r', hrun, hr'⟩ := StreamReader.readExact_ok h hn
      simp only [answer, hrun]
      exact ⟨bs.drop n, (List.take_append_drop n bs).symm, hr'⟩
    · obtain ⟨r', hrun, hr'⟩ := StreamReader.readExact_truncated h (by omega : bs.length < n)
      simp only [answer, hrun]
      exact ⟨bs, rfl, hr'⟩
  | hasRemaining =>
    obtain ⟨r', hrun, hr'⟩ := StreamReader.hasRemaining_holds h
    simp only [answer, hrun]
    exact ⟨bs, rfl, hr'⟩

theorem answerAll_holds (calls : List ReaderCall) {r : StreamReader ι} {bs : Bytes}
    (h : r.Holds bs) :
    ∃ rest, bs = returned (answerAll calls r).1 ++ rest ∧ (answerAll calls r).2.Holds rest := by
  induction calls generalizing r bs with
  | nil => exact ⟨bs, rfl, h⟩
  | cons call calls ih =>
    obtain ⟨rest, hbs, hrest⟩ := call.answer_holds h
    obtain ⟨rest', hbs', hrest'⟩ := ih hrest
    refine ⟨rest', ?_, hrest'⟩
    simp only [answerAll, returned, List.map_cons, List.flatten_cons, List.append_assoc]
    rw [hbs, hbs']
    rfl

/-- After any calls, the bytes not yet handed over are there to be read: `read_exact` gives the
next `n` of them exactly when there are so many and otherwise raises, `has_remaining` says whether
there are any, and the inner loop makes at most `n` passes. -/
theorem streamReader_lossless {ι : Type} [Input ι] (b t : Bytes) (i : ι) (hi : Delivers i t)
    (calls : List ReaderCall) :
    ∃ rest, b ++ t = returned (answerAll calls ⟨b, i⟩).1 ++ rest ∧
      (∀ n, (∃ bs, (ReaderCall.answer (.readExact n) (answerAll calls ⟨b, i⟩).2).1 = .bytes bs) ↔
        n ≤ rest.length) ∧
      (∀ n bs, (ReaderCall.answer (.readExact n) (answerAll calls ⟨b, i⟩).2).1 = .bytes bs →
        bs = rest.take n ∧ bs.length = n) ∧
      (∀ n, rest.length < n → (ReaderCall.answer (.readExact n) (answerAll calls ⟨b, i⟩).2).1 =
        .raised (.decryptionError "decryption failed: truncated frame")) ∧
      (ReaderCall.answer .hasRemaining (answerAll calls ⟨b, i⟩).2).1 =
        .flag (decide (rest ≠ [])) ∧
      ∀ n k r, (StreamReader.fill n).ReachesIn k () (answerAll calls ⟨b, i⟩).2 () r → k ≤ n := by
  have hstart : (StreamReader.mk b i).Holds (b ++ t) := ⟨t, rfl, hi⟩
  obtain ⟨rest, hbs, hholds⟩ := answerAll_holds calls hstart
  have hread : ∀ n, n ≤ rest.length →
      (ReaderCall.answer (.readExact n) (answerAll calls ⟨b, i⟩).2).1 = .bytes (rest.take n) := by
    intro n hn
    obtain ⟨r', hrun, -⟩ := StreamReader.readExact_ok hholds hn
    simp only [ReaderCall.answer, hrun]
  have htruncated : ∀ n, rest.length < n →
      (ReaderCall.answer (.readExact n) (answerAll calls ⟨b, i⟩).2).1 =
        .raised (.decryptionError "decryption failed: truncated frame") := by
    intro n hn
    obtain ⟨r', hrun, -⟩ := StreamReader.readExact_truncated hholds hn
    simp only [ReaderCall.answer, hrun]
  refine ⟨rest, hbs, ?_, ?_, htruncated, ?_, ?_⟩
  · intro n
    constructor
    · rintro ⟨bs, h⟩
      by_contra hn
      rw [htruncated n (by omega)] at h
      cases h
    · intro hn
      exact ⟨_, hread n hn⟩
  · intro n bs h
    have hn : n ≤ rest.length := by
      by_contra hn
      rw [htruncated n (by omega)] at h
      cases h
    rw [hread n hn] at h
    cases h
    exact ⟨rfl, List.length_take_of_le hn⟩
  · obtain ⟨r', hrun, -⟩ := StreamReader.hasRemaining_holds hholds
    simp only [ReaderCall.answer, hrun]
  · intro n k r h
    have hle := Loop.ReachesIn.le_rank _ h
    have hrank : (StreamReader.fill n).rank () (answerAll calls ⟨b, i⟩).2 ≤ n := Nat.sub_le _ _
    omega

/-- A slow stream, a read that asks too much in between. -/
theorem streamReader_lossless_drip : ∃ rest : Bytes,
    [1, 2] ++ [3, 4] = returned (answerAll [.readExact 1, .hasRemaining, .readExact 9]
      ⟨[1, 2], Drip.mk [3, 4]⟩).1 ++ rest ∧
    (ReaderCall.answer .hasRemaining (answerAll [.readExact 1, .hasRemaining, .readExact 9]
      ⟨[1, 2], Drip.mk [3, 4]⟩).2).1 = .flag (decide (rest ≠ [])) := by
  obtain ⟨rest, hbs, -, -, -, hflag, -⟩ := streamReader_lossless [1, 2] [3, 4] (Drip.mk [3, 4])
    (drip_delivers [3, 4]) [.readExact 1, .hasRemaining, .readExact 9]
  exact ⟨rest, hbs, hflag⟩

end CryptoFlex
