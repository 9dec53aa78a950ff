import CryptoFlex.Json.Loads

namespace CryptoFlex

open Lib CodePoint

namespace JsonText

/-- Two code points that form a surrogate pair become the character they stand for. -/
def joinPairs : List CodePoint → List CodePoint
  | [] => []
  | [c] => [c]
  | c :: d :: rest =>
    if c.IsHigh ∧ d.IsLow then join c d :: joinPairs rest else c :: joinPairs (d :: rest)

theorem joinPairs_cons {c : CodePoint} (h : ¬c.IsHigh) (rest : List CodePoint) :
    joinPairs (c :: rest) = c :: joinPairs rest := by
  cases rest with
  | nil => rfl
  | cons d rest => rw [joinPairs, if_neg fun hp => h hp.1]

theorem joinPairs_id {cs : List CodePoint} (h : ∀ c ∈ cs, ¬c.IsHigh) : joinPairs cs = cs := by
  induction cs with
  | nil => rfl
  | cons c cs ih =>
    rw [joinPairs_cons (h c List.mem_cons_self), ih fun d hd => h d (List.mem_cons_of_mem c hd)]

theorem join_not_surrogate {c d : CodePoint} (hc : c.IsHigh) (hd : d.IsLow) :
    ¬(join c d).IsSurrogate := by
  have hval := join_val hc hd
  obtain ⟨-, -⟩ := hc
  simp only [IsSurrogate, hval]
  omega

theorem joinPairs_head (d : CodePoint) (rest : List CodePoint) :
    ∃ e more, joinPairs (d :: rest) = e :: more ∧ (e.IsLow → d.IsLow) := by
  cases rest with
  | nil => exact ⟨d, [], rfl, id⟩
  | cons c rest =>
    by_cases hpair : d.IsHigh ∧ c.IsLow
    · refine ⟨join d c, joinPairs rest, by rw [joinPairs, if_pos hpair], ?_⟩
      intro hlow
      have hs := join_not_surrogate hpair.1 hpair.2
      simp only [IsLow, IsSurrogate] at hs hlow
      omega
    · exact ⟨d, joinPairs (c :: rest), by rw [joinPairs, if_neg hpair], id⟩

/-- Joining again changes nothing. -/
theorem joinPairs_joinPairs (cs : List CodePoint) : joinPairs (joinPairs cs) = joinPairs cs := by
  induction cs using joinPairs.induct with
  | case1 => rfl
  | case2 c => rfl
  | case3 c d rest hpair ih =>
    have hnot : ¬(join c d).IsHigh := by
      have hs := join_not_surrogate hpair.1 hpair.2
      simp only [IsHigh, IsSurrogate] at hs ⊢
      omega
    rw [joinPairs, if_pos hpair, joinPairs_cons hnot, ih]
  | case4 c d rest hpair ih =>
    rw [joinPairs, if_neg hpair]
    obtain ⟨e, more, heq, hlow⟩ := joinPairs_head d rest
    rw [heq] at ih ⊢
    rw [joinPairs, if_neg fun hp => hpair ⟨hp.1, hlow hp.2⟩, ih]

theorem hexValue_hexDigit : ∀ v < 16, hexValue (hexDigit v) = some v := by decide

theorem hex4_hexDigits {n : Nat} (h : n < 0x10000) :
    hex4 (hexDigit (n / 4096 % 16)) (hexDigit (n / 256 % 16)) (hexDigit (n / 16 % 16))
      (hexDigit (n % 16)) = some (Fin.ofNat _ n) := by
  have hn : n / 4096 % 16 * 4096 + n / 256 % 16 * 256 + n / 16 % 16 * 16 + n % 16 = n := by omega
  simp only [hex4, hexValue_hexDigit _ (Nat.mod_lt _ (by decide : 0 < 16)), Option.bind_eq_bind,
    Option.bind_some, Option.pure_def, hn]

theorem scanUnits_escapeU {n : Nat} (h : n < 0x10000) (t : List CodePoint) :
    scanUnits (escapeU n ++ t) =
      (scanUnits t).map fun r => (.escaped (Fin.ofNat _ n) :: r.1, r.2) := by
  have hquote : ofChar '\\' ≠ ofChar '"' := by decide
  simp only [escapeU, List.cons_append, List.nil_append]
  rw [scanUnits, if_neg hquote, if_neg (by simp), if_neg (by simp), hex4_hexDigits h]

/-- What the escape of a character reads back as, before surrogate pairs are joined. -/
def unitsOf (c : CodePoint) : List StrUnit :=
  match shortEscapes.lookup c with
  | some _ => [.char c]
  | none =>
    if 0x20 ≤ c.val ∧ c.val ≤ 0x7E then [.char c]
    else if c.val < 0x10000 then [.escaped c]
    else
      let n := c.val - 0x10000
      [.escaped (Fin.ofNat _ (0xD800 + n / 0x400)), .escaped (Fin.ofNat _ (0xDC00 + n % 0x400))]

theorem shortEscapes_facts : ∀ e ∈ shortEscapes, unescape e.2 = some e.1 ∧ e.2 ≠ ofChar 'u' ∧
    ¬e.1.IsHigh ∧ ¬e.1.IsLow :=
  forall_mem_of_all (by decide)

theorem escapeU_ascii (n : Nat) : ∀ c ∈ escapeU n, c.val < 0x80 := by
  have hdigit : ∀ v < 16, (hexDigit v).val < 0x80 := by decide
  simp only [escapeU, List.forall_mem_cons, List.not_mem_nil, false_implies, implies_true, and_true]
  exact ⟨by decide, by decide, hdigit _ (Nat.mod_lt _ (by decide)),
    hdigit _ (Nat.mod_lt _ (by decide)), hdigit _ (Nat.mod_lt _ (by decide)),
    hdigit _ (Nat.mod_lt _ (by decide))⟩

theorem escape_ascii (c : CodePoint) : ∀ d ∈ escape c, d.val < 0x80 := by
  intro d hd
  unfold escape at hd
  split at hd
  · next letter hl =>
    have hletter : ∀ e ∈ shortEscapes, e.2.val < 0x80 :=
      forall_mem_of_all (by decide)
    simp only [List.mem_cons, List.not_mem_nil, or_false] at hd
    rcases hd with rfl | rfl
    · decide
    · exact hletter _ (lookup_mem hl)
  · split at hd
    · next hplain =>
      rw [List.mem_singleton.mp hd]
      omega
    split at hd
    · exact escapeU_ascii _ d hd
    · rcases List.mem_append.mp hd with hd | hd <;> exact escapeU_ascii _ d hd

theorem quoted_ascii (s : PyStr) : ∀ c ∈ quoted s, c.val < 0x80 := by
  intro c hc
  simp only [quoted, List.mem_cons, List.mem_append, List.mem_flatMap, List.not_mem_nil,
    or_false] at hc
  rcases hc with rfl | ⟨d, -, hd⟩ | rfl
  · decide
  · exact escape_ascii d c hd
  · decide

theorem scanUnits_plain {c : CodePoint} (hplain : 0x20 ≤ c.val) (hquote : c ≠ ofChar '"')
    (hbackslash : c ≠ ofChar '\\') (t : List CodePoint) :
    scanUnits (c :: t) = (scanUnits t).map fun r => (.char c :: r.1, r.2) := by
  rw [scanUnits.eq_def]
  dsimp only
  rw [if_neg hquote, if_pos hbackslash, if_neg (by omega)]

theorem scanUnits_letter {letter c : CodePoint} (hu : letter ≠ ofChar 'u')
    (hun : unescape letter = some c) (t : List CodePoint) :
    scanUnits (ofChar '\\' :: letter :: t) =
      (scanUnits t).map fun r => (.char c :: r.1, r.2) := by
  have hquote : ofChar '\\' ≠ ofChar '"' := by decide
  rw [scanUnits.eq_def]
  dsimp only
  rw [if_neg hquote, if_neg (by simp), if_pos hu, hun]

theorem scanUnits_escape (c : CodePoint) (t : List CodePoint) :
    scanUnits (escape c ++ t) = (scanUnits t).map fun r => (unitsOf c ++ r.1, r.2) := by
  have hlt := c.isLt
  cases hl : shortEscapes.lookup c with
  | some letter =>
    obtain ⟨hun, hu, -⟩ := shortEscapes_facts (c, letter) (lookup_mem hl)
    simp only [escape, unitsOf, hl]
    exact scanUnits_letter hu hun t
  | none =>
    simp only [escape, unitsOf, hl]
    by_cases hplain : 0x20 ≤ c.val ∧ c.val ≤ 0x7E
    · have hquote : c ≠ ofChar '"' := by
        rintro rfl
        cases hl
      have hbackslash : c ≠ ofChar '\\' := by
        rintro rfl
        cases hl
      rw [if_pos hplain, if_pos hplain]
      exact scanUnits_plain hplain.1 hquote hbackslash t
    rw [if_neg hplain, if_neg hplain]
    by_cases hbmp : c.val < 0x10000
    · rw [if_pos hbmp, if_pos hbmp, scanUnits_escapeU hbmp]
      simp
    · rw [if_neg hbmp, if_neg hbmp, List.append_assoc, scanUnits_escapeU (by omega),
        scanUnits_escapeU (by omega)]
      cases scanUnits t <;> rfl

theorem scanUnits_flatMap (cs t : List CodePoint) :
    scanUnits (cs.flatMap escape ++ ofChar '"' :: t) = .ok (cs.flatMap unitsOf, t) := by
  induction cs with
  | nil =>
    show scanUnits (ofChar '"' :: t) = .ok ([], t)
    rw [scanUnits.eq_def]
    exact if_pos rfl
  | cons c cs ih =>
    rw [List.flatMap_cons, List.append_assoc, scanUnits_escape, ih]
    rfl

theorem joinUnits_pair {c d : CodePoint} (hc : c.IsHigh) (hd : d.IsLow) (units : List StrUnit) :
    joinUnits (.escaped c :: .escaped d :: units) = join c d :: joinUnits units := by
  rw [joinUnits, if_pos ⟨hc, hd⟩]

/-- The ways a character reads back: as itself, as one escape or as a surrogate pair. -/
theorem unitsOf_cases (c : CodePoint) :
    (unitsOf c = [.char c] ∧ ¬c.IsHigh ∧ ¬c.IsLow) ∨ unitsOf c = [.escaped c] ∨
      ∃ high low, unitsOf c = [.escaped high, .escaped low] ∧ high.IsHigh ∧ low.IsLow ∧
        join high low = c := by
  have hlt := c.isLt
  cases hl : shortEscapes.lookup c with
  | some letter =>
    obtain ⟨-, -, hhigh, hlow⟩ := shortEscapes_facts (c, letter) (lookup_mem hl)
    exact Or.inl ⟨by simp only [unitsOf, hl], hhigh, hlow⟩
  | none =>
    simp only [unitsOf, hl]
    by_cases hplain : 0x20 ≤ c.val ∧ c.val ≤ 0x7E
    · rw [if_pos hplain]
      refine Or.inl ⟨rfl, ?_, ?_⟩ <;> simp only [IsHigh, IsLow] <;> omega
    rw [if_neg hplain]
    by_cases hbmp : c.val < 0x10000
    · exact Or.inr (Or.inl (if_pos hbmp))
    rw [if_neg hbmp]
    have hhigh : IsHigh (Fin.ofNat _ (0xD800 + (c.val - 0x10000) / 0x400)) := by
      simp only [IsHigh, Fin.val_ofNat]
      omega
    have hlow : IsLow (Fin.ofNat _ (0xDC00 + (c.val - 0x10000) % 0x400)) := by
      simp only [IsLow, Fin.val_ofNat]
      omega
    refine Or.inr (Or.inr ⟨_, _, rfl, hhigh, hlow, ?_⟩)
    apply Fin.ext
    rw [join_val hhigh hlow]
    simp only [Fin.val_ofNat]
    omega

theorem unitsOf_surrogate {c : CodePoint} (h : c.IsSurrogate) : unitsOf c = [.escaped c] := by
  rcases unitsOf_cases c with ⟨-, hhigh, hlow⟩ | hunits | ⟨high, low, -, hhigh, hlow, hjoin⟩
  · simp only [IsHigh, IsLow, IsSurrogate] at h hhigh hlow
    omega
  · exact hunits
  · rw [← hjoin] at h
    exact absurd h (join_not_surrogate hhigh hlow)

/-- A leading half is not joined to what follows, unless that is a trailing half. -/
theorem joinUnits_unpaired {c d : CodePoint} (h : ¬(c.IsHigh ∧ d.IsLow)) (units : List StrUnit) :
    joinUnits (.escaped c :: (unitsOf d ++ units)) = c :: joinUnits (unitsOf d ++ units) := by
  rcases unitsOf_cases d with ⟨hunits, -⟩ | hunits | ⟨high, low, hunits, hhigh, -⟩
  · simp [hunits, joinUnits]
  · simp only [hunits, List.singleton_append]
    rw [joinUnits, if_neg h]
  · have hnot : ¬(c.IsHigh ∧ high.IsLow) := by
      simp only [IsHigh, IsLow] at hhigh ⊢
      omega
    simp only [hunits, List.cons_append]
    rw [joinUnits, if_neg hnot]

theorem joinUnits_flatMap (cs : List CodePoint) :
    joinUnits (cs.flatMap unitsOf) = joinPairs cs := by
  induction cs using joinPairs.induct with
  | case1 => rfl
  | case2 c =>
    rcases unitsOf_cases c with ⟨hunits, -⟩ | hunits | ⟨high, low, hunits, hhigh, hlow, rfl⟩
    · simp [hunits, joinUnits, joinPairs]
    · simp [hunits, joinUnits, joinPairs]
    · simp only [List.flatMap_cons, List.flatMap_nil, hunits, List.append_nil, joinPairs]
      rw [joinUnits_pair hhigh hlow]
      rfl
  | case3 c d rest hpair ih =>
    obtain ⟨hc, hd⟩ := hpair
    have hc' : c.IsSurrogate := by
      simp only [IsHigh, IsSurrogate] at hc ⊢
      omega
    have hd' : d.IsSurrogate := by
      simp only [IsLow, IsSurrogate] at hd ⊢
      omega
    simp only [List.flatMap_cons, unitsOf_surrogate hc', unitsOf_surrogate hd',
      List.singleton_append]
    rw [joinUnits_pair hc hd, ih, joinPairs, if_pos ⟨hc, hd⟩]
  | case4 c d rest hpair ih =>
    rw [joinPairs, if_neg hpair, ← ih]
    rcases unitsOf_cases c with ⟨hunits, -⟩ | hunits | ⟨high, low, hunits, hhigh, hlow, rfl⟩
    · rw [List.flatMap_cons, hunits]
      rfl
    · rw [List.flatMap_cons, hunits, List.flatMap_cons]
      exact joinUnits_unpaired hpair _
    · rw [List.flatMap_cons, hunits]
      exact joinUnits_pair hhigh hlow _

end JsonText

open JsonText

/-- What a `str` is after `json.dumps` and `json.loads`. -/
def PyStr.joined (s : PyStr) : PyStr := .ofCodes (joinPairs s.codes)

theorem PyStr.joined_joined (s : PyStr) : s.joined.joined = s.joined := by
  rw [joined, joined, codes_ofCodes, joinPairs_joinPairs]

theorem PyStr.joined_of_plain {cs : List CodePoint} (h : ∀ c ∈ cs, ¬c.IsHigh) :
    (PyStr.ofCodes cs).joined = .ofCodes cs := by
  rw [joined, codes_ofCodes, joinPairs_id h]

/-- A text of ordinary characters comes back as it was. -/
@[simp] theorem PyStr.joined_text (s : String) : (PyStr.text s).joined = .text s := by
  have hnone : ∀ c ∈ codesOf s, ¬c.IsHigh := by
    intro c hc hhigh
    obtain ⟨ch, -, rfl⟩ := List.mem_map.mp hc
    apply ofChar_not_surrogate ch
    simp only [IsHigh, IsSurrogate] at hhigh ⊢
    omega
  have h := joined_of_plain hnone
  rwa [ofCodes_codesOf] at h

namespace JsonText

theorem lookup_shortEscapes_of_ge {c : CodePoint} (h : 0x7F ≤ c.val) :
    shortEscapes.lookup c = none := by
  cases hl : shortEscapes.lookup c with
  | none => rfl
  | some letter =>
    have hsmall : ∀ e ∈ shortEscapes, e.1.val < 0x7F :=
      forall_mem_of_all (by decide)
    have hlt := hsmall _ (lookup_mem hl)
    dsimp only at hlt
    omega

theorem escape_surrogate {c : CodePoint} (h : c.IsSurrogate) : escape c = escapeU c.val := by
  obtain ⟨hlow, hhigh⟩ := h
  rw [escape, lookup_shortEscapes_of_ge (by omega)]
  dsimp only
  rw [if_neg (by omega), if_pos (by omega)]

/-- A character above the basic plane is written like the surrogate pair that stands for it. -/
theorem escape_join {c d : CodePoint} (hc : c.IsHigh) (hd : d.IsLow) :
    escape (join c d) = escape c ++ escape d := by
  have hval := join_val hc hd
  obtain ⟨hc₁, hc₂⟩ := hc
  obtain ⟨hd₁, hd₂⟩ := hd
  have hhigh : 0xD800 + ((join c d).val - 0x10000) / 0x400 = c.val := by omega
  have hlow : 0xDC00 + ((join c d).val - 0x10000) % 0x400 = d.val := by omega
  rw [escape_surrogate ⟨hc₁, by omega⟩, escape_surrogate ⟨by omega, hd₂⟩, escape,
    lookup_shortEscapes_of_ge (by omega)]
  dsimp only
  rw [if_neg (by omega), if_neg (by omega), hhigh, hlow]

/-- A round trip does not change how a string is written. -/
theorem quoted_joined (s : PyStr) : quoted s.joined = quoted s := by
  have hflat : ∀ cs, (joinPairs cs).flatMap escape = cs.flatMap escape := by
    intro cs
    induction cs using joinPairs.induct with
    | case1 => rfl
    | case2 c => rfl
    | case3 c d rest hpair ih =>
      rw [joinPairs, if_pos hpair, List.flatMap_cons, List.flatMap_cons, List.flatMap_cons, ih,
        escape_join hpair.1 hpair.2, List.append_assoc]
    | case4 c d rest hpair ih =>
      rw [joinPairs, if_neg hpair, List.flatMap_cons, ih]
      rfl
  rw [quoted, quoted, PyStr.joined, PyStr.codes_ofCodes, hflat]

theorem scanString_quoted (s : PyStr) (t : List CodePoint) :
    scanString.run (s.codes.flatMap escape ++ ofChar '"' :: t) = .ok (s.joined, t) := by
  simp only [scanString, scanUnits_flatMap, Except.map, joinUnits_flatMap]
  rfl

end JsonText

end CryptoFlex
