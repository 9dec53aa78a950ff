import CryptoFlex.Python

namespace CryptoFlex

abbrev CodePoint := Fin 0x110000

instance CodePoint.neZero : NeZero 0x110000 := ⟨Nat.succ_ne_zero _⟩

/-- Decided by a pass over the list, not over all code points. -/
instance CodePoint.decidableExistsMem {p : CodePoint → Prop} [DecidablePred p]
    (cs : List CodePoint) : Decidable (∃ c ∈ cs, p c) :=
  List.decidableBEx p cs

/-- A statement about the members of a list, from a check of one after the other. -/
theorem forall_mem_of_all {α : Type} {p : α → Prop} [DecidablePred p] {l : List α}
    (h : l.all (fun a => decide (p a)) = true) : ∀ a ∈ l, p a := by
  intro a ha
  exact of_decide_eq_true (List.all_eq_true.mp h a ha)

namespace CodePoint

/-- The leading half of a surrogate pair. -/
abbrev IsHigh (c : CodePoint) : Prop := 0xD800 ≤ c.val ∧ c.val ≤ 0xDBFF

/-- The trailing half of a surrogate pair. -/
abbrev IsLow (c : CodePoint) : Prop := 0xDC00 ≤ c.val ∧ c.val ≤ 0xDFFF

abbrev IsSurrogate (c : CodePoint) : Prop := 0xD800 ≤ c.val ∧ c.val ≤ 0xDFFF

/-- The code point that a surrogate pair stands for. -/
def join (high low : CodePoint) : CodePoint :=
  Fin.ofNat 0x110000 (0x10000 + (high.val - 0xD800) * 0x400 + (low.val - 0xDC00))

theorem join_val {high low : CodePoint} (hh : high.IsHigh) (hl : low.IsLow) :
    (join high low).val = 0x10000 + (high.val - 0xD800) * 0x400 + (low.val - 0xDC00) := by
  obtain ⟨h₁, h₂⟩ := hh
  obtain ⟨l₁, l₂⟩ := hl
  simp only [join, Fin.val_ofNat]
  omega

theorem ofChar_lt (c : Char) : c.toNat < 0x110000 := by
  rcases c.valid with h | h
  · exact Nat.lt_trans h (by decide)
  · exact h.2

def ofChar (c : Char) : CodePoint := ⟨c.toNat, ofChar_lt c⟩

def toChar (c : CodePoint) : Char := Char.ofNat c.val

@[simp] theorem toChar_ofChar (c : Char) : (ofChar c).toChar = c := Char.ofNat_toNat c

theorem ofChar_not_surrogate (c : Char) : ¬(ofChar c).IsSurrogate := by
  have hv : c.toNat < 0xD800 ∨ 0xDFFF < c.toNat ∧ c.toNat < 0x110000 := c.valid
  simp only [IsSurrogate, ofChar]
  omega

theorem ofChar_toChar {c : CodePoint} (h : ¬c.IsSurrogate) : ofChar c.toChar = c := by
  have hv : c.val.isValidChar := by
    have hlt := c.isLt
    simp only [IsSurrogate] at h
    simp only [Nat.isValidChar]
    omega
  have hchar : c.toChar = Char.ofNatAux c.val hv := dif_pos hv
  apply Fin.ext
  change c.toChar.toNat = c.val
  rw [hchar]
  rfl

end CodePoint

/-- The code points of an ordinary text. -/
def codesOf (s : String) : List CodePoint := s.toList.map CodePoint.ofChar

namespace PyStr

open CodePoint

/-- A `str` as its sequence of code points. -/
def codes : PyStr → List CodePoint
  | text s => codesOf s
  | surrogates cs => cs.val

/-- The `str` of a sequence of code points. -/
def ofCodes (cs : List CodePoint) : PyStr :=
  if h : ∃ c ∈ cs, c.IsSurrogate then surrogates ⟨cs, h⟩
  else text (String.ofList (cs.map toChar))

theorem codes_ofCodes (cs : List CodePoint) : (ofCodes cs).codes = cs := by
  unfold ofCodes
  split
  · rfl
  · next h =>
    have hid : ∀ c ∈ cs, (ofChar ∘ toChar) c = c := by
      intro c hc
      exact ofChar_toChar fun hs => h ⟨c, hc, hs⟩
    simp only [codes, codesOf, String.toList_ofList, List.map_map]
    rw [List.map_congr_left hid, List.map_id']

theorem ofCodes_codesOf (s : String) : ofCodes (codesOf s) = text s := by
  have hnone : ¬∃ c ∈ codesOf s, c.IsSurrogate := by
    rintro ⟨c, hc, hs⟩
    obtain ⟨ch, -, rfl⟩ := List.mem_map.mp hc
    exact ofChar_not_surrogate ch hs
  have hid : (codesOf s).map toChar = s.toList := by
    simp [codesOf, Function.comp_def]
  rw [ofCodes, dif_neg hnone, hid, String.ofList_toList]

@[simp] theorem ofCodes_codes (s : PyStr) : ofCodes s.codes = s := by
  cases s with
  | text s => exact ofCodes_codesOf s
  | surrogates cs => exact dif_pos cs.property

theorem utf8Encode_size_of_ascii {cs : List Char} (h : ∀ c ∈ cs, c.toNat < 0x80) :
    cs.utf8Encode.size = cs.length := by
  induction cs with
  | nil => rfl
  | cons c cs ih =>
    have hc : c.utf8Size = 1 := by
      have hlt := h c List.mem_cons_self
      rw [Char.utf8Size_eq_one_iff, UInt32.le_iff_toNat_le]
      show c.toNat ≤ 127
      omega
    have hrest := ih fun d hd => h d (List.mem_cons_of_mem _ hd)
    rw [← List.singleton_append, List.utf8Encode_append, ByteArray.size_append, hrest,
      List.utf8Encode_singleton]
    simp [hc, Nat.add_comm]

/-- ASCII takes one byte a character in UTF-8. -/
theorem encode_length_of_ascii {s : String} (h : ∀ c ∈ s.toList, c.toNat < 0x80) {b : Bytes}
    (hb : (text s).encode = .ok b) : b.length = s.toList.length := by
  cases hb
  have hsize := utf8Encode_size_of_ascii h
  rw [String.utf8Encode_toList] at hsize
  rw [Array.length_toList, ← hsize]
  rfl

end PyStr

end CryptoFlex
