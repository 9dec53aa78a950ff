import CryptoFlex.Sources

namespace CryptoFlex

open Lib

def rootKeyLen : Nat := 32
def combinerSpecVersion : Nat := 2
/-- b"cryptoflex-hybrid-kem-combiner" -/
def defaultContext : Bytes := "cryptoflex-hybrid-kem-combiner".toByteArray.data.toList

/-- HKDF-SHA384 without salt: info, then input key material. It always gives `rootKeyLen` bytes. -/
abbrev Hkdf := Bytes → Bytes → { key : Bytes // key.length = rootKeyLen }

def encodeComponents : List (PyStr × Bytes) → Except Exc Bytes
  | [] => .ok []
  | (algId, ciphertext) :: rest => do
    let algBytes ← algId.encode
    let algLen ← pack 4 algBytes.length
    let ctLen ← pack 4 ciphertext.length
    let tail ← encodeComponents rest
    return algLen ++ algBytes ++ ctLen ++ ciphertext ++ tail

/-- `_encode_info`. -/
def encodeInfo (context : Bytes) (components : List (PyStr × Bytes))
    (specVersion : Int := combinerSpecVersion) : Except Exc Bytes := do
  let version ← pack 2 specVersion
  let contextLen ← pack 4 context.length
  let numComponents ← pack 2 components.length
  let out ← encodeComponents components
  return version ++ contextLen ++ context ++ numComponents ++ out

structure CombinedKeyMaterial where
  rootKey : Bytes
  components : List (PyStr × Bytes)

def combine (hkdf : Hkdf) (encapsulations : List (PyStr × Encapsulation))
    (context : Bytes := defaultContext) : Except Exc CombinedKeyMaterial := do
  if encapsulations = [] then
    .error (.valueError "combine() requires at least one encapsulation") else
  let ikm := (encapsulations.map fun e => e.2.sharedSecret).flatten
  let components := encapsulations.map fun e => (e.1, e.2.ciphertext)
  let info ← encodeInfo context components
  return { rootKey := (hkdf info ikm).val, components }

def combineFromSecrets (hkdf : Hkdf) (sharedSecrets ciphertexts : List (PyStr × Bytes))
    (context : Bytes := defaultContext) : Except Exc CombinedKeyMaterial := do
  let idsA := sharedSecrets.map Prod.fst
  let idsB := ciphertexts.map Prod.fst
  if idsA ≠ idsB then
    let textA := PyStr.pyList idsA
    let textB := PyStr.pyList idsB
    .error (.valueError ("shared_secrets and ciphertexts algorithm order must match: " ++
      s!"{textA} != {textB}")) else
  let ikm := (sharedSecrets.map Prod.snd).flatten
  let info ← encodeInfo context ciphertexts
  return { rootKey := (hkdf info ikm).val, components := ciphertexts }

theorem combine_eq_ok {hkdf : Hkdf} {encapsulations : List (PyStr × Encapsulation)}
    {context : Bytes} {m : CombinedKeyMaterial} (h : combine hkdf encapsulations context = .ok m) :
    ∃ info, encodeInfo context (encapsulations.map fun e => (e.1, e.2.ciphertext)) = .ok info ∧
      m = { rootKey := (hkdf info (encapsulations.map fun e => e.2.sharedSecret).flatten).val
            components := encapsulations.map fun e => (e.1, e.2.ciphertext) } := by
  unfold combine at h
  by_cases hne : encapsulations = []
  · rw [if_pos hne] at h
    cases h
  rw [if_neg hne] at h
  obtain ⟨info, hinfo, h⟩ := bind_eq_ok.mp h
  cases h
  exact ⟨info, hinfo, rfl⟩

/-- Both sides feed HKDF the same input for the same components and secrets. -/
theorem combineFromSecrets_of_combine {hkdf : Hkdf}
    {encapsulations : List (PyStr × Encapsulation)} {context : Bytes} {m : CombinedKeyMaterial}
    (h : combine hkdf encapsulations context = .ok m) :
    combineFromSecrets hkdf (encapsulations.map fun e => (e.1, e.2.sharedSecret)) m.components
      context = .ok m := by
  obtain ⟨info, hinfo, rfl⟩ := combine_eq_ok h
  have hids : (encapsulations.map fun e => (e.1, e.2.sharedSecret)).map Prod.fst =
      (encapsulations.map fun e => (e.1, e.2.ciphertext)).map Prod.fst := by
    simp
  unfold combineFromSecrets
  dsimp only
  rw [if_neg (not_not.mpr hids), hinfo]
  simp [Function.comp_def]

theorem combine_rootKey_length {hkdf : Hkdf} {encapsulations : List (PyStr × Encapsulation)}
    {context : Bytes} {m : CombinedKeyMaterial}
    (h : combine hkdf encapsulations context = .ok m) : m.rootKey.length = rootKeyLen := by
  obtain ⟨info, -, rfl⟩ := combine_eq_ok h
  exact (hkdf info _).property

end CryptoFlex
