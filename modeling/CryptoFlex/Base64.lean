import CryptoFlex.CodePoints

namespace CryptoFlex

namespace Base64

/-- The character for a value below 64. -/
def symbol (v : Nat) : CodePoint :=
  if v < 26 then Fin.ofNat _ (v + 65)
  else if v < 52 then Fin.ofNat _ (v + 71)
  else if v < 62 then Fin.ofNat _ (v - 4)
  else if v = 62 then CodePoint.ofChar '+'
  else CodePoint.ofChar '/'

def pad : CodePoint := CodePoint.ofChar '='

/-- The value of a character of the alphabet. -/
def value (c : CodePoint) : Option Nat :=
  if 65 ≤ c.val ∧ c.val ≤ 90 then some (c.val - 65)
  else if 97 ≤ c.val ∧ c.val ≤ 122 then some (c.val - 71)
  else if 48 ≤ c.val ∧ c.val ≤ 57 then some (c.val + 4)
  else if c = CodePoint.ofChar '+' then some 62
  else if c = CodePoint.ofChar '/' then some 63
  else none

def encode : Bytes → List CodePoint
  | [] => []
  | [a] => [symbol (a.toNat / 4), symbol (a.toNat % 4 * 16), pad, pad]
  | [a, b] => [symbol (a.toNat / 4), symbol (a.toNat % 4 * 16 + b.toNat / 16),
      symbol (b.toNat % 16 * 4), pad]
  | a :: b :: c :: rest => symbol (a.toNat / 4) :: symbol (a.toNat % 4 * 16 + b.toNat / 16) ::
      symbol (b.toNat % 16 * 4 + c.toNat / 64) :: symbol (c.toNat % 64) :: encode rest

/-- The loop variables of `binascii.a2b_base64`. -/
structure Vars where
  quadPos : Nat := 0
  leftChar : Nat := 0
  pads : Nat := 0
  paddingStarted : Bool := false
  out : Bytes := []

/-- `binascii.a2b_base64` in strict mode, behind its check for leading padding. -/
def decodeFrom : List CodePoint → Vars → Except Exc Bytes
  | [], v =>
    if v.quadPos = 0 then .ok v.out
    else if v.quadPos = 1 then
      let count := v.out.length / 3 * 4 + 1
      .error (.valueError (s!"Invalid base64-encoded string: number of data characters ({count}) " ++
        "cannot be 1 more than a multiple of 4"))
    else .error (.valueError "Incorrect padding")
  | c :: rest, v =>
    if c = pad then
      if 2 ≤ v.quadPos then
        if 4 ≤ v.quadPos + (v.pads + 1) then
          if rest ≠ [] then .error (.valueError "Excess data after padding") else .ok v.out
        else decodeFrom rest { v with pads := v.pads + 1, paddingStarted := true }
      else decodeFrom rest { v with paddingStarted := true }
    else
    match value c with
    | none => .error (.valueError "Only base64 data is allowed")
    | some ch =>
      if v.paddingStarted then .error (.valueError "Discontinuous padding not allowed") else
      match v.quadPos with
      | 0 => decodeFrom rest { v with pads := 0, quadPos := 1, leftChar := ch }
      | 1 => decodeFrom rest { v with
          pads := 0, quadPos := 2, leftChar := ch % 16
          out := v.out ++ [UInt8.ofNat (v.leftChar * 4 + ch / 16)] }
      | 2 => decodeFrom rest { v with
          pads := 0, quadPos := 3, leftChar := ch % 4
          out := v.out ++ [UInt8.ofNat (v.leftChar * 16 + ch / 4)] }
      | _ => decodeFrom rest { v with
          pads := 0, quadPos := 0, leftChar := 0
          out := v.out ++ [UInt8.ofNat (v.leftChar * 64 + ch)] }

/-- The number of characters for `n` bytes. -/
def size (n : Nat) : Nat := 4 * ((n + 2) / 3)

theorem symbol_facts : ∀ v < 64, value (symbol v) = some v ∧ symbol v ≠ pad ∧
    0x20 < (symbol v).val ∧ (symbol v).val < 0x7F ∧ symbol v ≠ CodePoint.ofChar '"' ∧
    symbol v ≠ CodePoint.ofChar '\\' := by
  decide

section Quad

variable {ch : Nat} (rest : List CodePoint) (left : Nat) (out : Bytes)

theorem decodeFrom_first (h : ch < 64) : decodeFrom (symbol ch :: rest) { out } =
    decodeFrom rest { quadPos := 1, leftChar := ch, out } := by
  obtain ⟨hvalue, hpad, -⟩ := symbol_facts ch h
  rw [decodeFrom, if_neg hpad, hvalue]
  rfl

theorem decodeFrom_second (h : ch < 64) :
    decodeFrom (symbol ch :: rest) { quadPos := 1, leftChar := left, out } =
      decodeFrom rest { quadPos := 2, leftChar := ch % 16
                        out := out ++ [UInt8.ofNat (left * 4 + ch / 16)] } := by
  obtain ⟨hvalue, hpad, -⟩ := symbol_facts ch h
  rw [decodeFrom, if_neg hpad, hvalue]
  rfl

theorem decodeFrom_third (h : ch < 64) :
    decodeFrom (symbol ch :: rest) { quadPos := 2, leftChar := left, out } =
      decodeFrom rest { quadPos := 3, leftChar := ch % 4
                        out := out ++ [UInt8.ofNat (left * 16 + ch / 4)] } := by
  obtain ⟨hvalue, hpad, -⟩ := symbol_facts ch h
  rw [decodeFrom, if_neg hpad, hvalue]
  rfl

theorem decodeFrom_fourth (h : ch < 64) :
    decodeFrom (symbol ch :: rest) { quadPos := 3, leftChar := left, out } =
      decodeFrom rest { out := out ++ [UInt8.ofNat (left * 64 + ch)] } := by
  obtain ⟨hvalue, hpad, -⟩ := symbol_facts ch h
  rw [decodeFrom, if_neg hpad, hvalue]
  rfl

end Quad

theorem ofNat_of_eq {n : Nat} {b : UInt8} (h : n = b.toNat) : UInt8.ofNat n = b := by
  rw [h, UInt8.ofNat_toNat]

theorem decodeFrom_encode (bs out : Bytes) :
    decodeFrom (encode bs) { out } = .ok (out ++ bs) := by
  induction bs using encode.induct generalizing out with
  | case1 => simp [encode, decodeFrom]
  | case2 a =>
    have ha := a.toNat_lt
    have h₁ : UInt8.ofNat (a.toNat / 4 * 4 + a.toNat % 4 * 16 / 16) = a := ofNat_of_eq (by omega)
    rw [encode, decodeFrom_first _ _ (by omega), decodeFrom_second _ _ _ (by omega), h₁]
    rfl
  | case3 a b =>
    have ha := a.toNat_lt
    have hb := b.toNat_lt
    have h₁ : UInt8.ofNat (a.toNat / 4 * 4 + (a.toNat % 4 * 16 + b.toNat / 16) / 16) = a :=
      ofNat_of_eq (by omega)
    have h₂ : UInt8.ofNat ((a.toNat % 4 * 16 + b.toNat / 16) % 16 * 16 + b.toNat % 16 * 4 / 4) =
      b := ofNat_of_eq (by omega)
    rw [encode, decodeFrom_first _ _ (by omega), decodeFrom_second _ _ _ (by omega), h₁,
      decodeFrom_third _ _ _ (by omega), h₂, List.append_assoc]
    rfl
  | case4 a b c rest ih =>
    have ha := a.toNat_lt
    have hb := b.toNat_lt
    have hc := c.toNat_lt
    have h₁ : UInt8.ofNat (a.toNat / 4 * 4 + (a.toNat % 4 * 16 + b.toNat / 16) / 16) = a :=
      ofNat_of_eq (by omega)
    have h₂ : UInt8.ofNat ((a.toNat % 4 * 16 + b.toNat / 16) % 16 * 16 +
      (b.toNat % 16 * 4 + c.toNat / 64) / 4) = b := ofNat_of_eq (by omega)
    have h₃ : UInt8.ofNat ((b.toNat % 16 * 4 + c.toNat / 64) % 4 * 64 + c.toNat % 64) = c :=
      ofNat_of_eq (by omega)
    rw [encode, decodeFrom_first _ _ (by omega), decodeFrom_second _ _ _ (by omega), h₁,
      decodeFrom_third _ _ _ (by omega), h₂, decodeFrom_fourth _ _ _ (by omega), h₃, ih]
    simp

theorem encode_length (bs : Bytes) : (encode bs).length = size bs.length := by
  induction bs using encode.induct with
  | case1 => simp [encode, size]
  | case2 a => simp [encode, size]
  | case3 a b => simp [encode, size]
  | case4 a b c rest ih =>
    simp only [encode, List.length_cons, ih, size]
    omega

/-- A character that JSON shows as it is. -/
def Plain (c : CodePoint) : Prop :=
  0x20 ≤ c.val ∧ c.val < 0x7F ∧ c ≠ CodePoint.ofChar '"' ∧ c ≠ CodePoint.ofChar '\\'

theorem plain_symbol {v : Nat} (h : v < 64) : Plain (symbol v) := by
  obtain ⟨-, -, hlow, hhigh, hquote, hback⟩ := symbol_facts v h
  exact ⟨Nat.le_of_lt hlow, hhigh, hquote, hback⟩

theorem encode_plain (bs : Bytes) : ∀ c ∈ encode bs, Plain c := by
  have hpad : Plain pad := by
    refine ⟨by decide, by decide, by decide, by decide⟩
  induction bs using encode.induct with
  | case1 => intro c hc; cases hc
  | case2 a =>
    have ha := a.toNat_lt
    simp only [encode, List.forall_mem_cons]
    exact ⟨plain_symbol (by omega), plain_symbol (by omega), hpad, hpad, nofun⟩
  | case3 a b =>
    have ha := a.toNat_lt
    have hb := b.toNat_lt
    simp only [encode, List.forall_mem_cons]
    exact ⟨plain_symbol (by omega), plain_symbol (by omega), plain_symbol (by omega), hpad, nofun⟩
  | case4 a b c rest ih =>
    have ha := a.toNat_lt
    have hb := b.toNat_lt
    have hc := c.toNat_lt
    simp only [encode, List.forall_mem_cons]
    exact ⟨plain_symbol (by omega), plain_symbol (by omega), plain_symbol (by omega),
      plain_symbol (by omega), ih⟩

end Base64

/-- `base64.b64encode(b).decode("ascii")`. -/
def b64encode (b : Bytes) : PyStr := .ofCodes (Base64.encode b)

/-- `base64.b64decode(s, validate=True)`. -/
def b64decode (s : PyStr) : Except Exc Bytes :=
  if ∃ c ∈ s.codes, 0x80 ≤ c.val then
    .error (.valueError "string argument should contain only ASCII characters")
  else if s.codes.head? = some Base64.pad then
    .error (.valueError "Leading padding not allowed")
  else Base64.decodeFrom s.codes {}

theorem b64decode_b64encode (b : Bytes) : b64decode (b64encode b) = .ok b := by
  have hplain := Base64.encode_plain b
  have hascii : ¬∃ c ∈ Base64.encode b, 0x80 ≤ c.val := by
    rintro ⟨c, hc, h⟩
    have hlt := (hplain c hc).2.1
    omega
  have hhead : ¬(Base64.encode b).head? = some Base64.pad := by
    have hfirst : ∀ a : UInt8, Base64.symbol (a.toNat / 4) ≠ Base64.pad := by
      intro a
      have ha := a.toNat_lt
      exact (Base64.symbol_facts _ (by omega)).2.1
    cases b using Base64.encode.induct with
    | case1 => simp [Base64.encode]
    | case2 a => simp [Base64.encode, hfirst]
    | case3 a b => simp [Base64.encode, hfirst]
    | case4 a b c rest ih => simp [Base64.encode, hfirst]
  unfold b64decode b64encode
  rw [PyStr.codes_ofCodes, if_neg hascii, if_neg hhead, Base64.decodeFrom_encode]
  rfl

end CryptoFlex
