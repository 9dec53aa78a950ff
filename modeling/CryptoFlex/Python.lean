import CryptoFlex.Errors
import CryptoFlex.Lib.BigEndian
import Mathlib.Tactic.Ring

namespace CryptoFlex

open Lib

abbrev Bytes := List UInt8

/-- The code points of a `str` that holds a lone surrogate, which UTF-8 cannot encode. -/
abbrev LoneSurrogates :=
  { codes : List (Fin 0x110000) // ∃ c ∈ codes, 0xD800 ≤ c.val ∧ c.val ≤ 0xDFFF }

/-- A Python `str`: Unicode text, or a sequence of code points with a lone surrogate in it. -/
inductive PyStr
  | text (s : String)
  | surrogates (codes : LoneSurrogates)
  deriving DecidableEq

instance : Coe String PyStr := ⟨PyStr.text⟩

namespace PyStr

instance : Inhabited PyStr := ⟨.text ""⟩

def isEmpty : PyStr → Bool
  | text s => s.isEmpty
  | surrogates _ => false

/-- How a `str` shows in a message. -/
def display : PyStr → String
  | text s => s
  | surrogates codes => String.join (codes.val.map fun c => s!"<{c.val}>")

instance : ToString PyStr := ⟨display⟩

/-- How a list of strings shows in a message. -/
def pyList (ss : List PyStr) : String :=
  "[" ++ ", ".intercalate (ss.map fun s => s!"'{s}'") ++ "]"

/-- `s.encode("utf-8")`. -/
def encode : PyStr → Except Exc Bytes
  | text s => .ok s.toByteArray.data.toList
  | surrogates _ => .error .unicodeEncodeError

/-- `b.decode("utf-8")`, strict. -/
def decode (b : Bytes) : Except Exc PyStr :=
  match String.fromUTF8? ⟨b.toArray⟩ with
  | some s => .ok (.text s)
  | none => .error .unicodeDecodeError

/-- Python's strict decoder accepts only byte strings that re-encode to themselves. -/
theorem encode_of_decode {b : Bytes} {s : PyStr} (h : decode b = .ok s) : s.encode = .ok b := by
  unfold decode String.fromUTF8? at h
  split at h
  · next t ht =>
    cases h
    split at ht
    · cases ht
      simp [encode, String.fromUTF8]
    · cases ht
  · cases h

theorem decode_of_encode {b : Bytes} {s : PyStr} (h : s.encode = .ok b) : decode b = .ok s := by
  cases s with
  | surrogates codes => cases h
  | text s =>
    cases h
    have hv : (⟨s.toByteArray.data.toList.toArray⟩ : ByteArray) = s.toByteArray := by simp
    simp only [decode, hv, String.fromUTF8?, s.isValidUTF8, dif_pos, String.fromUTF8]

theorem decode_error {b : Bytes} {e : Exc} (h : decode b = .error e) :
    e = .unicodeDecodeError := by
  unfold decode at h
  split at h <;> cases h
  rfl

theorem isEmpty_iff {s : PyStr} : s.isEmpty = true ↔ s = .text "" := by
  cases s with
  | text s => simp [isEmpty]
  | surrogates codes => simp [isEmpty]

end PyStr

theorem lookup_mem {α β : Type} [DecidableEq α] {l : List (α × β)} {k : α} {v : β}
    (h : l.lookup k = some v) : (k, v) ∈ l := by
  obtain ⟨l₁, l₂, rfl, -⟩ := List.lookup_eq_some_iff.mp h
  simp

/-- `data[i]`. -/
def index (data : Bytes) (i : Nat) : Except Exc Nat :=
  match data[i]? with
  | some b => .ok b.toNat
  | none => .error .indexError

/-- `data[a : b]`. -/
def slice (data : Bytes) (a b : Nat) : Bytes := (data.drop a).take (b - a)

/-- A reading of `data[a : b]`. Python's own truncates at the end of `data`; the strict one refuses
a range that is not inside it. -/
abbrev Slicer := Bytes → Nat → Nat → Except Exc Bytes

def pySlice : Slicer := fun data a b => .ok (slice data a b)

def strictSlice : Slicer := fun data a b =>
  if a ≤ b ∧ b ≤ data.length then .ok (slice data a b) else .error (.other "slice out of range")

/-- `struct.pack` with a big-endian unsigned format of `w` bytes: "B", ">H" and ">I" are the
widths 1, 2 and 4. -/
def pack (w : Nat) (v : Int) : Except Exc Bytes :=
  if 0 ≤ v ∧ v < 256 ^ w then .ok (beEncode w v.toNat) else .error .structError

/-- `struct.unpack` with the same formats. -/
def unpack (w : Nat) (b : Bytes) : Except Exc Nat :=
  if b.length = w then .ok (beDecode b) else .error .structError

theorem pack_nat {w n : Nat} (h : n < 256 ^ w) : pack w n = .ok (beEncode w n) := by
  have hn : (0 : Int) ≤ n ∧ (n : Int) < 256 ^ w := ⟨by omega, by exact_mod_cast h⟩
  rw [pack, if_pos hn, Int.toNat_natCast]

theorem pack_eq_ok {w n : Nat} {b : Bytes} (h : pack w n = .ok b) :
    n < 256 ^ w ∧ b = beEncode w n := by
  unfold pack at h
  split at h
  · next hn =>
    cases h
    exact ⟨by exact_mod_cast hn.2, by rw [Int.toNat_natCast]⟩
  · cases h

theorem pack_decode {w : Nat} {b : Bytes} (hb : b.length = w) :
    pack w (beDecode b : Nat) = .ok b := by
  subst hb
  rw [pack_nat (beDecode_lt b), beEncode_decode]

theorem unpack_of_length {w : Nat} {b : Bytes} (h : b.length = w) :
    unpack w b = .ok (beDecode b) := if_pos h

end CryptoFlex
