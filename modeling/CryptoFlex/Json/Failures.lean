import CryptoFlex.Json.Loads

namespace CryptoFlex

open Lib CodePoint Scanner

namespace JsonText

/-- A `JSONDecodeError`. -/
def IsDecodeError (e : Exc) : Prop := ∃ msg, e = decodeError msg

theorem isDecodeError (msg : String) : IsDecodeError (decodeError msg) := ⟨msg, rfl⟩

theorem scanUnits_takes (d : List CodePoint) : Takes IsDecodeError 1 d.length (scanUnits d) := by
  have hmap : ∀ {rest d : List CodePoint} (u : StrUnit), rest.length ≤ d.length →
      Takes IsDecodeError 1 rest.length (scanUnits rest) →
      Takes IsDecodeError 1 d.length ((scanUnits rest).map fun r => (u :: r.1, r.2)) :=
    fun u hle h => (h.map _).le (by omega)
  fun_induction scanUnits d with
  | case1 => exact isDecodeError _
  | case2 rest => exact Nat.le_refl (rest.length + 1)
  | case3 => exact isDecodeError _
  | case4 c rest _ _ _ ih => exact hmap _ (by simp) ih
  | case5 => exact isDecodeError _
  | case6 _ _ _ _ rest _ _ _ ih => exact hmap _ (by simp; omega) ih
  | case7 => exact isDecodeError _
  | case8 _ _ _ _ _ _ _ _ _ rest _ _ ih => exact hmap _ (by simp; omega) ih
  | case9 => exact isDecodeError _
  | case10 => exact isDecodeError _

theorem scanString_consumes (n : Nat) : Consumes IsDecodeError 1 n scanString :=
  fun d _ => (scanUnits_takes d).map fun units => PyStr.ofCodes (joinUnits units)

theorem matchInteger_length {d integer rest : List CodePoint}
    (h : matchInteger d = some (integer, rest)) : rest.length < d.length := by
  cases d with
  | nil => cases h
  | cons c d =>
    rw [matchInteger] at h
    rw [List.length_cons, Nat.lt_succ_iff]
    split at h
    · cases h
      exact Nat.le_refl _
    · split at h
      · next hdigit =>
        cases h
        rw [List.dropWhile_cons_of_pos hdigit]
        exact (List.dropWhile_suffix _).length_le
      · cases h

theorem matchDigits_length (mark d : List CodePoint) :
    (matchDigits mark d).2.length ≤ (mark ++ d).length := by
  rw [matchDigits]
  split
  · exact Nat.le_refl _
  · exact ((List.dropWhile_suffix _).trans (List.suffix_append mark d)).length_le

theorem matchFraction_length (d : List CodePoint) : (matchFraction d).2.length ≤ d.length := by
  cases d with
  | nil => exact Nat.le_refl _
  | cons c rest =>
    rw [matchFraction]
    split
    · exact matchDigits_length [c] rest
    · exact Nat.le_refl _

theorem matchExponent_length (d : List CodePoint) : (matchExponent d).2.length ≤ d.length := by
  unfold matchExponent
  split
  · next e rest =>
    split
    · split
      · next sign digits =>
        split
        · exact matchDigits_length [e, sign] digits
        · exact matchDigits_length [e] (sign :: digits)
      · exact Nat.le_refl _
    · exact Nat.le_refl _
  · exact Nat.le_refl _

theorem matchNumber_length {d token rest : List CodePoint}
    (h : matchNumber d = some (token, rest)) : rest.length < d.length := by
  unfold matchNumber at h
  split at h
  next sign unsigned hsign =>
  have hle : unsigned.length ≤ d.length := by
    split at hsign
    · next c digits =>
      split at hsign
      · cases hsign
        exact Nat.le_succ _
      · cases hsign
        exact Nat.le_refl _
    · cases hsign
      exact Nat.le_refl _
  obtain ⟨⟨integer, rest₁⟩, hinteger, hrest⟩ := Option.bind_eq_some_iff.mp h
  have hlast : (matchExponent (matchFraction rest₁).2).2 = rest :=
    congrArg Prod.snd (Option.some.inj hrest)
  have hlt := matchInteger_length hinteger
  have hfraction := matchFraction_length rest₁
  have hexponent := matchExponent_length (matchFraction rest₁).2
  rw [hlast] at hexponent
  omega

theorem scanScalar_consumes (n : Nat) : Consumes IsDecodeError 1 n scanScalar := by
  have hnames : ∀ entry ∈ names, 0 < entry.1.length := forall_mem_of_all (by decide)
  intro d _
  simp only [scanScalar]
  split
  · next name value hfind =>
    have hprefix := List.find?_some hfind
    have hpos : 0 < name.length := hnames _ (List.mem_of_find?_eq_some hfind)
    have hle := (List.isPrefixOf_iff_prefix.mp hprefix).length_le
    simp only [codesOf, List.length_map, String.length_toList] at hle
    change (d.drop name.length).length + 1 ≤ d.length
    rw [List.length_drop]
    omega
  · split
    · next token rest hnumber => exact matchNumber_length hnumber
    · exact isDecodeError _

/-- The fuel is enough for `n` characters: a value takes two of it for each, a sequence of values one
more. -/
structure Fed (fuel n : Nat) : Prop where
  value : 2 * n + 1 ≤ fuel → Consumes IsDecodeError 1 n (scanOnce fuel)
  items : 2 * n + 2 ≤ fuel → Consumes IsDecodeError 1 n (scanItems fuel)
  members : 2 * n + 2 ≤ fuel → Consumes IsDecodeError 1 n (scanMembers fuel)

theorem skipWhitespace_consumes (n : Nat) : Consumes IsDecodeError 0 n skipWhitespace :=
  Consumes.skipWhile _

/-- A bracket behind which comes white space and, unless it is closed at once, `p`. -/
theorem bracket_consumes {β : Type} {n : Nat} {p : Scanner Exc CodePoint β}
    (hp : Consumes IsDecodeError 1 n p) (close : CodePoint) (empty : Json) (f : β → Json) :
    Consumes IsDecodeError 0 n (do
      skipWhitespace
      if ← Scanner.accept close then return empty else
      let x ← p
      return f x) := by
  have hfull := hp.bind fun x _ => Consumes.pure (f x)
  have hall := (skipWhitespace_consumes n).bind fun _ _ =>
    Consumes.ite_accept close (fun _ => Consumes.pure empty) hfull
  exact hall.mono (Nat.zero_le _)

/-- What follows an item: the closing bracket, or a comma, white space and `p`. -/
theorem separator_consumes {β : Type} {n : Nat} {p : Scanner Exc CodePoint β}
    (hp : 0 < n → Consumes IsDecodeError 1 (n - 1) p) (close : CodePoint) (last : β) (f : β → β) :
    Consumes IsDecodeError 0 n (do
      skipWhitespace
      if ← Scanner.accept close then return last else
      Scanner.expect (ofChar ',') (decodeError "Expecting ',' delimiter")
      skipWhitespace
      let x ← p
      return f x) := by
  have hcomma : IsDecodeError (decodeError "Expecting ',' delimiter") := isDecodeError _
  have hmore := (Consumes.expect (ofChar ',') hcomma).bind fun _ (hn : 1 ≤ n) =>
    (skipWhitespace_consumes (n - 1)).bind fun _ _ =>
    (hp hn).bind fun x _ => Consumes.pure (f x)
  have hall := (skipWhitespace_consumes n).bind fun _ _ =>
    Consumes.ite_accept close (fun _ => Consumes.pure last) (hmore.mono (by omega))
  exact hall.mono (Nat.zero_le _)

theorem scanOnce_consumes {fuel : Nat} (h : ∀ n, Fed fuel n) (n : Nat)
    (hfuel : 2 * n + 1 ≤ fuel + 1) : Consumes IsDecodeError 1 n (scanOnce (fuel + 1)) := by
  rw [scanOnce]
  apply Consumes.ite_accept
  · intro _
    exact ((scanString_consumes _).bind fun _ _ => Consumes.pure _).mono (Nat.zero_le _)
  apply Consumes.ite_accept
  · intro hn
    exact bracket_consumes ((h (n - 1)).members (by omega)) _ _ _
  apply Consumes.ite_accept
  · intro hn
    exact bracket_consumes ((h (n - 1)).items (by omega)) _ _ _
  exact scanScalar_consumes n

theorem scanItems_consumes {fuel : Nat} (h : ∀ n, Fed fuel n) (n : Nat)
    (hfuel : 2 * n + 2 ≤ fuel + 1) : Consumes IsDecodeError 1 n (scanItems (fuel + 1)) := by
  rw [scanItems]
  exact ((h n).value (by omega)).bind fun item _ => separator_consumes
    (fun _ => (h (n - 1 - 1)).items (by omega)) (ofChar ']') [item] fun items => item :: items

theorem scanMembers_consumes {fuel : Nat} (h : ∀ n, Fed fuel n) (n : Nat)
    (hfuel : 2 * n + 2 ≤ fuel + 1) : Consumes IsDecodeError 1 n (scanMembers (fuel + 1)) := by
  rw [scanMembers]
  have hquote : IsDecodeError
    (decodeError "Expecting property name enclosed in double quotes") := isDecodeError _
  have hcolon : IsDecodeError (decodeError "Expecting ':' delimiter") := isDecodeError _
  have hall := (Consumes.expect (ofChar '"') hquote).bind fun _ (hn : 1 ≤ n) =>
    (scanString_consumes (n - 1)).bind fun key (hn : 1 ≤ n - 1) =>
    (skipWhitespace_consumes _).bind fun _ _ =>
    (Consumes.expect (ofChar ':') hcolon).bind fun _ hn =>
    (skipWhitespace_consumes _).bind fun _ _ =>
    ((h _).value (by omega)).bind fun value _ =>
    separator_consumes (fun _ => (h _).members (by omega)) (ofChar '}') [(key, value)]
      fun members => (key, value) :: members
  exact hall.mono (by omega)

theorem fed (fuel n : Nat) : Fed fuel n := by
  induction fuel generalizing n with
  | zero => exact ⟨fun h => by omega, fun h => by omega, fun h => by omega⟩
  | succ fuel ih =>
    exact ⟨scanOnce_consumes ih n, scanItems_consumes ih n, scanMembers_consumes ih n⟩

end JsonText

open JsonText

/-- `json.loads` never runs out of fuel: whatever it raises is a `JSONDecodeError`. -/
theorem Json.loads_raises {s : PyStr} {e : Exc} (h : Json.loads s = .error e) :
    IsDecodeError e := by
  unfold Json.loads at h
  split at h
  · cases h
    exact isDecodeError _
  · have hvalue := (fed (2 * s.codes.length + 2) s.codes.length).value (by omega)
    have hdocument := (skipWhitespace_consumes s.codes.length).bind fun _ _ =>
      hvalue.bind fun value _ => (skipWhitespace_consumes _).bind fun _ _ => Consumes.pure value
    have htakes := hdocument s.codes (Nat.le_refl _)
    rcases bind_eq_error.mp h with hread | ⟨⟨value, rest⟩, hread, hrest⟩
    · rw [hread] at htakes
      exact htakes
    · by_cases hend : rest = []
      · cases (if_neg (not_not.mpr hend)).symm.trans hrest
      · cases (if_pos hend).symm.trans hrest
        exact isDecodeError _

end CryptoFlex
