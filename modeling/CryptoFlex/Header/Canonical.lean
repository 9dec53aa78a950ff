import CryptoFlex.Header.Scan

namespace CryptoFlex.CryptoflexHeader

open Lib Lib.Scanner

/-- The explicit checks raise `HeaderParseError`; apart from them only UTF-8 decoding fails. -/
def ParseFailure (e : Exc) : Prop :=
  (∃ m, e = .headerParseError m) ∨ e = .unicodeDecodeError

theorem parseFailure_check (m : String) : ParseFailure (.headerParseError m) :=
  Or.inl ⟨m, rfl⟩

theorem decode_fails (b : Bytes) :
    Fails ParseFailure (ofExcept (PyStr.decode b) : Scanner Exc UInt8 PyStr) :=
  Fails.ofExcept fun _ h => Or.inr (PyStr.decode_error h)

theorem scanComponent_fails (seen : List PyStr) : Fails ParseFailure (scanComponent seen) :=
  (Fails.take 1 (parseFailure_check _)).bind fun _ _ _ _ =>
    (Fails.take _ (parseFailure_check _)).bind fun _ _ _ _ =>
      (decode_fails _).bind fun _ _ _ _ =>
        (Fails.fail (parseFailure_check _)).ite <| (Fails.fail (parseFailure_check _)).ite <|
          (Fails.take 2 (parseFailure_check _)).bind fun _ _ _ _ =>
            (Fails.take _ (parseFailure_check _)).bind fun _ _ _ _ => Fails.pure _

theorem scanComponents_fails (n : Nat) (seen : List PyStr) :
    Fails ParseFailure (scanComponents n seen) := by
  induction n generalizing seen with
  | zero => exact Fails.pure _
  | succ n ih =>
    exact (scanComponent_fails seen).bind fun _ component _ _ =>
      (ih (seen ++ [component.1])).bind fun _ _ _ _ => Fails.pure _

theorem scanNonce_fails (version : Nat) : Fails ParseFailure (scanNonce version) :=
  (Fails.pure _).ite ((Fails.take _ (parseFailure_check _)).bind fun _ _ _ _ => Fails.pure _)

theorem scanBody_fails (version profileIdLen : Nat) :
    Fails ParseFailure (scanBody version profileIdLen) :=
  (Fails.take _ (parseFailure_check _)).bind fun _ _ _ _ =>
    (decode_fails _).bind fun _ _ _ _ => (Fails.fail (parseFailure_check _)).ite <|
      (Fails.take 1 (parseFailure_check _)).bind fun _ _ _ _ =>
        (Fails.fail (parseFailure_check _)).ite <|
          (scanComponents_fails _ _).bind fun _ _ _ _ =>
            (scanNonce_fails version).bind fun _ _ _ _ => Fails.pure _

theorem index_of_lt {data : Bytes} {i : Nat} (h : i < data.length) (e : Exc) :
    index data i ≠ .error e := by
  rw [index, List.getElem?_eq_getElem h]
  simp

/-- Six bytes are there, so neither fixed index is out of range. -/
theorem scanHeader_fails : Fails ParseFailure scanHeader := by
  refine (Fails.take 6 (parseFailure_check _)).bind fun d front r hf => ?_
  have hlen : front.length = 6 := by
    by_cases h : d.length < 6
    · rw [run_take_lt h] at hf
      cases hf
    · rw [run_take_le (by omega)] at hf
      cases hf
      rw [List.length_take]
      omega
  refine (Fails.fail (parseFailure_check _)).ite ?_
  refine (Fails.ofExcept fun e he => absurd he (index_of_lt (by omega) e)).bind
    fun _ version _ _ => ?_
  refine (Fails.fail (parseFailure_check _)).ite ?_
  refine (Fails.ofExcept fun e he => absurd he (index_of_lt (by omega) e)).bind
    fun _ profileIdLen _ _ => ?_
  exact scanBody_fails version profileIdLen

theorem parse_fails {data : Bytes} {e : Exc} (h : parse data = .error e) : ParseFailure e := by
  cases hs : scanHeader.run data with
  | error e' =>
    rw [parse_of_scan_error hs] at h
    cases h
    exact scanHeader_fails _ _ hs
  | ok vr =>
    rw [parse_of_scan hs] at h
    cases h

theorem fromBytes_ok_iff {data : Bytes} {r : CryptoflexHeader × Nat} :
    fromBytes data = .ok r ↔ parse data = .ok r := by
  unfold fromBytes
  cases hp : parse data with
  | ok v => rfl
  | error e =>
    rcases parse_fails hp with ⟨m, rfl⟩ | rfl <;> simp [caught, Exc.isValueError]

theorem fromBytes_error {data : Bytes} {e : Exc} (h : fromBytes data = .error e) :
    ∃ m, e = .headerParseError m := by
  unfold fromBytes at h
  cases hp : parse data with
  | ok v => rw [hp] at h; cases h
  | error e' =>
    rw [hp] at h
    rcases parse_fails hp with ⟨m, rfl⟩ | rfl
    · cases h
      exact ⟨m, rfl⟩
    · simp only [caught, Exc.isValueError, if_true] at h
      cases h
      exact ⟨_, rfl⟩

/-- Parsing succeeds exactly on a code word of the scanner and what follows it. -/
theorem fromBytes_eq_ok {data : Bytes} {h : CryptoflexHeader} {n : Nat} :
    fromBytes data = .ok (h, n) ↔ n ≤ data.length ∧ Reads scanHeader (data.take n) h := by
  rw [fromBytes_ok_iff]
  constructor
  · intro hp
    obtain ⟨hn, hs⟩ := parse_eq_ok hp
    obtain ⟨c, hc, hr⟩ := scanHeader_exact _ _ _ hs
    have heq : c = data.take n := by
      have hlen := congrArg List.length hc
      rw [List.length_append, List.length_drop] at hlen
      have hcn : c.length = n := by omega
      rw [hc, ← hcn, List.take_left]
    exact ⟨hn, heq ▸ hr⟩
  · rintro ⟨hn, hr⟩
    have hs := hr (data.drop n)
    rw [List.take_append_drop] at hs
    rw [parse_of_scan hs, List.length_drop]
    congr 2
    omega

theorem fromBytes_of_reads {c : Bytes} {h : CryptoflexHeader} (hr : Reads scanHeader c h)
    (t : Bytes) : fromBytes (c ++ t) = .ok (h, c.length) :=
  fromBytes_eq_ok.mpr ⟨by simp, by rw [List.take_left]; exact hr⟩

theorem scanComponent_writes {seen : List PyStr} {d r : Bytes} {c : PyStr × Bytes}
    (h : (scanComponent seen).run d = .ok (c, r)) :
    ∃ b, componentToBytes c = .ok b ∧ d = b ++ r := by
  obtain ⟨algLen, _, h1, h⟩ := Scanner.bind_eq_ok.mp h
  obtain ⟨alg, _, h2, h⟩ := Scanner.bind_eq_ok.mp h
  obtain ⟨algId, _, h3, h⟩ := Scanner.bind_eq_ok.mp h
  obtain ⟨-, h⟩ := ite_fail_eq_ok h
  obtain ⟨-, h⟩ := ite_fail_eq_ok h
  obtain ⟨ctLen, _, h4, h⟩ := Scanner.bind_eq_ok.mp h
  obtain ⟨ct, _, h5, h⟩ := Scanner.bind_eq_ok.mp h
  cases h
  obtain ⟨hl1, rfl⟩ := take_eq_ok h1
  obtain ⟨hl2, rfl⟩ := take_eq_ok h2
  obtain ⟨hd, rfl⟩ := ofExcept_eq_ok h3
  obtain ⟨hl4, rfl⟩ := take_eq_ok h4
  obtain ⟨hl5, rfl⟩ := take_eq_ok h5
  have ha := beDecode_lt algLen
  have hc := beDecode_lt ctLen
  rw [hl1] at ha
  rw [hl4] at hc
  refine ⟨algLen ++ alg ++ ctLen ++ ct, ?_, by simp⟩
  rw [componentToBytes, PyStr.encode_of_decode hd, ok_bind, if_neg (by omega),
    if_neg (by dsimp only; omega)]
  dsimp only
  rw [hl2, hl5, pack_decode hl1, pack_decode hl4]
  rfl

theorem scanComponents_writes (n : Nat) {seen : List PyStr} {d r : Bytes}
    {cs : List (PyStr × Bytes)} (h : (scanComponents n seen).run d = .ok (cs, r)) :
    cs.length = n ∧ ∃ b, componentsToBytes cs = .ok b ∧ d = b ++ r := by
  induction n generalizing seen d cs with
  | zero =>
    cases h
    exact ⟨rfl, [], rfl, rfl⟩
  | succ n ih =>
    obtain ⟨c, m, h1, h⟩ := Scanner.bind_eq_ok.mp h
    obtain ⟨rest, m', h2, h⟩ := Scanner.bind_eq_ok.mp h
    cases h
    obtain ⟨b, hb, rfl⟩ := scanComponent_writes h1
    obtain ⟨hlen, b', hb', rfl⟩ := ih h2
    refine ⟨by simp [hlen], b ++ b', ?_, by simp⟩
    rw [componentsToBytes, hb, ok_bind, hb']
    rfl

theorem scanNonce_writes {version : Nat} {d r : Bytes} {nonce : Option Bytes}
    (h : (scanNonce version).run d = .ok (nonce, r)) :
    ∃ b, nonceToBytes version nonce = .ok b ∧ d = b ++ r := by
  unfold scanNonce at h
  unfold nonceToBytes
  by_cases hv : version < 2
  · rw [if_pos hv] at h
    cases h
    exact ⟨[], if_pos (by omega), rfl⟩
  · rw [if_neg hv] at h
    obtain ⟨b, m, h1, h⟩ := Scanner.bind_eq_ok.mp h
    cases h
    obtain ⟨hlen, rfl⟩ := take_eq_ok h1
    refine ⟨b, ?_, rfl⟩
    have hne : b ≠ [] := by
      rintro rfl
      simp [nonceLen] at hlen
    rw [if_neg (by omega)]
    simp only [hne, hlen, if_false, ne_eq, not_true]

theorem front_split {front : Bytes} (hl : front.length = 6) :
    ∃ v p : UInt8, front = slice front 0 4 ++ [v] ++ [p] ∧
      index front 4 = .ok v.toNat ∧ index front 5 = .ok p.toNat := by
  match front, hl with
  | [a, b, c, d, v, p], _ => exact ⟨v, p, rfl, rfl, rfl⟩

theorem pack_byte (v : UInt8) : pack 1 (v.toNat : Int) = .ok [v] := by
  have hd : beDecode [v] = v.toNat := by simp [beDecode]
  rw [← hd]
  exact pack_decode rfl

theorem scanHeader_writes {d r : Bytes} {h : CryptoflexHeader}
    (hs : scanHeader.run d = .ok (h, r)) : ∃ b, h.toBytes = .ok b ∧ d = b ++ r := by
  obtain ⟨front, _, h1, hs⟩ := Scanner.bind_eq_ok.mp hs
  obtain ⟨hm, hs⟩ := ite_fail_eq_ok hs
  obtain ⟨version, _, h2, hs⟩ := Scanner.bind_eq_ok.mp hs
  obtain ⟨hv, hs⟩ := ite_fail_eq_ok hs
  obtain ⟨profileIdLen, _, h3, hs⟩ := Scanner.bind_eq_ok.mp hs
  obtain ⟨profile, _, h4, hs⟩ := Scanner.bind_eq_ok.mp hs
  obtain ⟨profileId, _, h5, hs⟩ := Scanner.bind_eq_ok.mp hs
  obtain ⟨-, hs⟩ := ite_fail_eq_ok hs
  obtain ⟨count, _, h6, hs⟩ := Scanner.bind_eq_ok.mp hs
  obtain ⟨-, hs⟩ := ite_fail_eq_ok hs
  obtain ⟨components, _, h7, hs⟩ := Scanner.bind_eq_ok.mp hs
  obtain ⟨nonce, _, h8, hs⟩ := Scanner.bind_eq_ok.mp hs
  cases hs
  obtain ⟨hl1, rfl⟩ := take_eq_ok h1
  obtain ⟨he2, rfl⟩ := ofExcept_eq_ok h2
  obtain ⟨he3, rfl⟩ := ofExcept_eq_ok h3
  obtain ⟨hl4, rfl⟩ := take_eq_ok h4
  obtain ⟨hd, rfl⟩ := ofExcept_eq_ok h5
  obtain ⟨hl6, rfl⟩ := take_eq_ok h6
  obtain ⟨hlen, cb, hcb, rfl⟩ := scanComponents_writes _ h7
  obtain ⟨nb, hnb, rfl⟩ := scanNonce_writes h8
  obtain ⟨v, p, hfront, hi4, hi5⟩ := front_split hl1
  rw [he2] at hi4
  rw [he3] at hi5
  cases hi4
  cases hi5
  rw [not_not] at hm hv
  have hp := p.toNat_lt
  have hc := beDecode_lt count
  rw [hl6] at hc
  have hplen : pack 1 (profile.length : Int) = .ok [p] := by rw [hl4, pack_byte]
  refine ⟨magic ++ [v] ++ [p] ++ profile ++ count ++ cb ++ nb, ?_, ?_⟩
  · rw [toBytes]
    dsimp only
    rw [if_neg (not_not.mpr hv), pack_byte v, ok_bind, PyStr.encode_of_decode hd, ok_bind,
      if_neg (by omega), hplen, ok_bind, if_neg (by omega), hlen, pack_decode hl6, ok_bind, hcb,
      ok_bind, hnb]
    rfl
  · rw [hfront, hm]
    simp

/-- Every byte string either raises `HeaderParseError` and nothing else, or decodes to a header
that serializes back to the bytes consumed; the decoding ignores what follows those bytes and
rejects every proper prefix of them. -/
theorem fromBytes_canonical (d : Bytes) :
    (∀ e, parse d = .error e → ParseFailure e) ∧ parseWith strictSlice d = parse d ∧
    ((∃ m, fromBytes d = .error (.headerParseError m)) ∨
      ∃ h n, fromBytes d = .ok (h, n) ∧ n ≤ d.length ∧ h.toBytes = .ok (d.take n) ∧
        (∀ t, fromBytes (d.take n ++ t) = .ok (h, n)) ∧
        ∀ m < n, ∃ msg, fromBytes (d.take m) = .error (.headerParseError msg)) ∧
    (∀ d' h, fromBytes d = .ok (h, d.length) → fromBytes d' = .ok (h, d'.length) → d = d') ∧
    ∀ d' h h', fromBytes d = .ok (h, d.length) → fromBytes d' = .ok (h', d'.length) →
      d <+: d' → d = d' := by
  refine ⟨fun e => parse_fails, parse_strict d, ?_, ?_, ?_⟩
  · cases hd : fromBytes d with
    | error e =>
      obtain ⟨m, rfl⟩ := fromBytes_error hd
      exact Or.inl ⟨m, rfl⟩
    | ok r =>
      obtain ⟨h, n⟩ := r
      obtain ⟨hn, hr⟩ := fromBytes_eq_ok.mp hd
      have hlen : (d.take n).length = n := by simp [hn]
      refine Or.inr ⟨h, n, rfl, hn, ?_, fun t => ?_, fun m hm => ?_⟩
      · obtain ⟨b, hb, hc⟩ := scanHeader_writes (hr [])
        rw [List.append_nil, List.append_nil] at hc
        rw [hc]
        exact hb
      · have ht := fromBytes_of_reads hr t
        rwa [hlen] at ht
      · obtain ⟨e, he⟩ := scanHeader_exact.reject_cut hr (by omega : m < (d.take n).length)
        rw [List.take_take, Nat.min_eq_left (by omega)] at he
        cases hf : fromBytes (d.take m) with
        | error e' =>
          obtain ⟨msg, rfl⟩ := fromBytes_error hf
          exact ⟨msg, rfl⟩
        | ok r' =>
          have hs := (parse_eq_ok (fromBytes_ok_iff.mp hf)).2
          rw [he] at hs
          cases hs
  · intro d' h h1 h2
    obtain ⟨b, hb, hd⟩ := scanHeader_writes (parse_eq_ok (fromBytes_ok_iff.mp h1)).2
    obtain ⟨b', hb', hd'⟩ := scanHeader_writes (parse_eq_ok (fromBytes_ok_iff.mp h2)).2
    rw [List.drop_length, List.append_nil] at hd hd'
    rw [hb] at hb'
    rw [hd, hd', Except.ok.inj hb']
  · intro d' h h' h1 h2 hpre
    have hr := (fromBytes_eq_ok.mp h1).2
    have hr' := (fromBytes_eq_ok.mp h2).2
    rw [List.take_length] at hr hr'
    exact hr.prefix_free hr' hpre

end CryptoFlex.CryptoflexHeader
