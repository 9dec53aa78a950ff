import Mathlib.Data.List.Induction
import Mathlib.Tactic.Ring

namespace CryptoFlex.Lib

/-- The `w` low bytes of `n`, most significant first. -/
def beEncode : Nat → Nat → List UInt8
  | 0, _ => []
  | w + 1, n => beEncode w (n / 256) ++ [UInt8.ofNat n]

def beDecode (bs : List UInt8) : Nat := bs.foldl (fun acc b => acc * 256 + b.toNat) 0

@[simp] theorem beEncode_length (w n : Nat) : (beEncode w n).length = w := by
  induction w generalizing n with
  | zero => rfl
  | succ w ih => simp [beEncode, ih]

theorem beDecode_append (bs : List UInt8) (b : UInt8) :
    beDecode (bs ++ [b]) = beDecode bs * 256 + b.toNat := by
  simp [beDecode]

theorem beDecode_lt (bs : List UInt8) : beDecode bs < 256 ^ bs.length := by
  induction bs using List.reverseRecOn with
  | nil => simp [beDecode]
  | append_singleton bs b ih =>
    have hb := b.toNat_lt
    rw [beDecode_append, List.length_append, List.length_singleton, pow_succ]
    omega

theorem beDecode_encode (w n : Nat) (h : n < 256 ^ w) : beDecode (beEncode w n) = n := by
  induction w generalizing n with
  | zero =>
    have hn : n = 0 := by simpa using h
    simp [beEncode, beDecode, hn]
  | succ w ih =>
    have hq : n / 256 < 256 ^ w := by
      rw [pow_succ] at h
      exact Nat.div_lt_of_lt_mul (by rwa [Nat.mul_comm] at h)
    have hb : (UInt8.ofNat n).toNat = n % 256 := by simp
    rw [beEncode, beDecode_append, ih _ hq, hb]
    omega

theorem beEncode_decode (bs : List UInt8) : beEncode bs.length (beDecode bs) = bs := by
  induction bs using List.reverseRecOn with
  | nil => rfl
  | append_singleton bs b ih =>
    have hb := b.toNat_lt
    have hq : (beDecode bs * 256 + b.toNat) / 256 = beDecode bs := by omega
    have hr : UInt8.ofNat (beDecode bs * 256 + b.toNat) = b := by
      apply UInt8.toNat_inj.mp
      simp only [UInt8.toNat_ofNat']
      omega
    rw [List.length_append, List.length_singleton, beEncode, beDecode_append, hq, hr, ih]

theorem beEncode_injective {w m n : Nat} (hm : m < 256 ^ w) (hn : n < 256 ^ w)
    (h : beEncode w m = beEncode w n) : m = n := by
  rw [← beDecode_encode w m hm, h, beDecode_encode w n hn]

/-- A fixed-width field is told apart from whatever follows it. -/
theorem beEncode_append_inj {w m n : Nat} (hm : m < 256 ^ w) (hn : n < 256 ^ w)
    {s t : List UInt8} (h : beEncode w m ++ s = beEncode w n ++ t) : m = n ∧ s = t := by
  have hlen : (beEncode w m).length = (beEncode w n).length := by simp
  obtain ⟨hfield, hrest⟩ := List.append_inj h hlen
  exact ⟨beEncode_injective hm hn hfield, hrest⟩

/-- So is a byte string behind its own length. -/
theorem prefixed_append_inj {w : Nat} {a b s t : List UInt8} (ha : a.length < 256 ^ w)
    (hb : b.length < 256 ^ w)
    (h : beEncode w a.length ++ (a ++ s) = beEncode w b.length ++ (b ++ t)) : a = b ∧ s = t := by
  obtain ⟨hlen, hrest⟩ := beEncode_append_inj ha hb h
  exact List.append_inj hrest hlen

end CryptoFlex.Lib
