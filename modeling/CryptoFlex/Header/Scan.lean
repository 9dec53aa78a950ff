import CryptoFlex.Header.Format
import CryptoFlex.Lib.Scanner

namespace CryptoFlex.CryptoflexHeader

open Lib Lib.Scanner

/-! The header grammar as a scanner, and `parse` as the same grammar over offsets. -/

def scanComponent (seenAlgIds : List PyStr) : Scanner Exc UInt8 (PyStr × Bytes) := do
  let algLen ← take 1 (.headerParseError "truncated algorithm_id length field")
  let alg ← take (beDecode algLen) (.headerParseError "truncated algorithm_id field")
  let algId ← ofExcept (PyStr.decode alg)
  if algId.isEmpty then
    fail (.headerParseError "empty algorithm_id in header component") else
  if algId ∈ seenAlgIds then
    fail (.headerParseError s!"duplicate algorithm_id '{algId}' in header") else
  let ctLen ← take 2 (.headerParseError "truncated ciphertext length field")
  let ct ← take (beDecode ctLen) (.headerParseError "truncated ciphertext field")
  return (algId, ct)

def scanComponents : Nat → List PyStr → Scanner Exc UInt8 (List (PyStr × Bytes))
  | 0, _ => pure []
  | n + 1, seenAlgIds => do
    let component ← scanComponent seenAlgIds
    let rest ← scanComponents n (seenAlgIds ++ [component.1])
    return component :: rest

def scanNonce (version : Nat) : Scanner Exc UInt8 (Option Bytes) :=
  if version < 2 then pure none else do
  let nonce ← take nonceLen (.headerParseError "truncated nonce field")
  return some nonce

/-- The fields behind the fixed six bytes. -/
def scanBody (version profileIdLen : Nat) : Scanner Exc UInt8 CryptoflexHeader := do
  let profile ← take profileIdLen (.headerParseError "truncated profile_id field")
  let profileId ← ofExcept (PyStr.decode profile)
  if profileId.isEmpty then fail (.headerParseError "empty profile_id in header") else
  let numComponents ← take 1 (.headerParseError "truncated header: missing num_components")
  if beDecode numComponents = 0 then
    fail (.headerParseError "header contains zero components; at least one is required") else
  let components ← scanComponents (beDecode numComponents) []
  let nonce ← scanNonce version
  return { profileId, components, nonce, version }

/-- The first six bytes are magic, version and the length of the profile id. -/
def scanHeader : Scanner Exc UInt8 CryptoflexHeader := do
  let front ← take 6 (.headerParseError "missing or invalid cryptoflex header magic")
  if slice front 0 4 ≠ magic then
    fail (.headerParseError "missing or invalid cryptoflex header magic") else
  let version ← ofExcept (index front 4)
  if (version : Int) ∉ supportedVersions then
    fail (.headerParseError (s!"unsupported cryptoflex header version {version}; " ++
      "this library supports versions [1, 2]. " ++
      "A newer/older library version may be required to read this file.")) else
  let profileIdLen ← ofExcept (index front 5)
  scanBody version profileIdLen

theorem scanComponent_exact (seenAlgIds : List PyStr) : (scanComponent seenAlgIds).Exact :=
  (Exact.take _ _).bind fun _ => (Exact.take _ _).bind fun _ =>
    (Exact.ofExcept _).bind fun _ => (Exact.fail _).ite <| (Exact.fail _).ite <|
      (Exact.take _ _).bind fun _ => (Exact.take _ _).bind fun _ => Exact.pure _

theorem scanComponents_exact (n : Nat) (seenAlgIds : List PyStr) :
    (scanComponents n seenAlgIds).Exact := by
  induction n generalizing seenAlgIds with
  | zero => exact Exact.pure _
  | succ n ih =>
    exact (scanComponent_exact seenAlgIds).bind fun component =>
      (ih (seenAlgIds ++ [component.1])).bind fun _ => Exact.pure _

theorem scanNonce_exact (version : Nat) : (scanNonce version).Exact :=
  (Exact.pure _).ite ((Exact.take _ _).bind fun _ => Exact.pure _)

theorem scanBody_exact (version profileIdLen : Nat) : (scanBody version profileIdLen).Exact :=
  (Exact.take _ _).bind fun _ => (Exact.ofExcept _).bind fun _ => (Exact.fail _).ite <|
    (Exact.take _ _).bind fun _ => (Exact.fail _).ite <|
      (scanComponents_exact _ _).bind fun _ => (scanNonce_exact version).bind fun _ =>
        Exact.pure _

theorem scanHeader_exact : scanHeader.Exact :=
  (Exact.take _ _).bind fun _ => (Exact.fail _).ite <|
    (Exact.ofExcept _).bind fun _ => (Exact.fail _).ite <|
      (Exact.ofExcept _).bind fun _ => scanBody_exact _ _

/-- The offset computation `x` reads what the scanner reads from `data[offset:]`. -/
def Tracks {β : Type} (data : Bytes) (x : Except Exc (β × Nat))
    (y : Except Exc (β × Bytes)) : Prop :=
  match y with
  | .ok (v, r) => ∃ o, o ≤ data.length ∧ x = .ok (v, o) ∧ r = data.drop o
  | .error e => x = .error e

theorem Tracks.take {β : Type} {data : Bytes} {o n : Nat} {e : Exc}
    {x : Except Exc (β × Nat)} {f : Bytes → Scanner Exc UInt8 β} (ho : o ≤ data.length)
    (short : data.length < o + n → x = .error e)
    (long : o + n ≤ data.length →
      Tracks data x ((f (slice data o (o + n))).run (data.drop (o + n)))) :
    Tracks data x ((Scanner.take n e >>= f).run (data.drop o)) := by
  by_cases h : data.length < o + n
  · rw [run_bind, run_take_lt (by rw [List.length_drop]; omega)]
    exact short h
  · rw [run_bind, run_take_le (by rw [List.length_drop]; omega), List.drop_drop]
    simpa only [slice, Nat.add_sub_cancel_left] using long (by omega)

theorem Tracks.ofExcept {β γ : Type} {data rest : Bytes} {x : Except Exc (β × Nat)}
    {y : Except Exc γ} {k : γ → Except Exc (β × Nat)} {f : γ → Scanner Exc UInt8 β}
    (hx : x = y >>= k) (ok : ∀ v, y = .ok v → Tracks data (k v) ((f v).run rest)) :
    Tracks data x ((Scanner.ofExcept y >>= f).run rest) := by
  subst hx
  cases y with
  | error e => rfl
  | ok v => exact ok v rfl

theorem Tracks.guard {β : Type} {data rest : Bytes} {P : Prop} [Decidable P] {e : Exc}
    {k : Except Exc (β × Nat)} {p : Scanner Exc UInt8 β}
    (h : ¬P → Tracks data k (p.run rest)) :
    Tracks data (if P then .error e else k) ((if P then fail e else p).run rest) := by
  by_cases hp : P
  · rw [if_pos hp, if_pos hp]
    rfl
  · rw [if_neg hp, if_neg hp]
    exact h hp

theorem Tracks.bind {β γ : Type} {data rest : Bytes} {x : Except Exc (γ × Nat)}
    {p : Scanner Exc UInt8 γ} {k : γ × Nat → Except Exc (β × Nat)}
    {f : γ → Scanner Exc UInt8 β} (hx : Tracks data x (p.run rest))
    (hk : ∀ v o, o ≤ data.length → Tracks data (k (v, o)) ((f v).run (data.drop o))) :
    Tracks data (x >>= k) ((p >>= f).run rest) := by
  rw [run_bind]
  cases hp : p.run rest with
  | error e =>
    rw [hp] at hx
    have hx' : x = .error e := hx
    subst hx'
    rfl
  | ok vr =>
    obtain ⟨v, r⟩ := vr
    rw [hp] at hx
    obtain ⟨o, ho, rfl, rfl⟩ := hx
    exact hk v o ho

theorem index_slice {data : Bytes} {o : Nat} (h : o + 1 ≤ data.length) :
    index data o = .ok (beDecode (slice data o (o + 1))) := by
  have ho : o < data.length := h
  have hs : slice data o (o + 1) = [data[o]] := by
    rw [slice, Nat.add_sub_cancel_left, List.drop_eq_getElem_cons ho]
    rfl
  rw [hs, index, List.getElem?_eq_getElem ho]
  simp [beDecode]

theorem slice_length {data : Bytes} {a b : Nat} (hab : a ≤ b) (hb : b ≤ data.length) :
    (slice data a b).length = b - a := by
  rw [slice, List.length_take, List.length_drop]
  omega

/-- What the parser needs of its slices: inside `data` they are Python's. -/
def InRange (sl : Slicer) (data : Bytes) : Prop :=
  ∀ a b, a ≤ b → b ≤ data.length → sl data a b = .ok (slice data a b)

theorem pySlice_inRange (data : Bytes) : InRange pySlice data := fun _ _ _ _ => rfl

theorem strictSlice_inRange (data : Bytes) : InRange strictSlice data :=
  fun _ _ hab hb => if_pos ⟨hab, hb⟩

theorem parseComponent_tracks {sl : Slicer} {data : Bytes} (hsl : InRange sl data) {o : Nat}
    (ho : o ≤ data.length) (seen : List PyStr) :
    Tracks data (parseComponent sl data o seen) ((scanComponent seen).run (data.drop o)) := by
  unfold scanComponent parseComponent
  dsimp only
  refine Tracks.take ho (fun h => if_pos (by omega)) fun h1 => ?_
  rw [if_neg (by omega), index_slice h1, ok_bind]
  refine Tracks.take h1 (fun h => if_pos h) fun h2 => ?_
  rw [if_neg (by omega), hsl _ _ (by omega) h2, ok_bind]
  refine Tracks.ofExcept rfl fun algId _ => Tracks.guard fun _ => Tracks.guard fun _ => ?_
  refine Tracks.take h2 (fun h => if_pos h) fun h3 => ?_
  rw [if_neg (by omega), hsl _ _ (by omega) h3, ok_bind,
    unpack_of_length (by rw [slice_length (by omega) h3]; omega), ok_bind]
  refine Tracks.take h3 (fun h => if_pos h) fun h4 => ?_
  rw [if_neg (by omega), hsl _ _ (by omega) h4]
  exact ⟨_, h4, rfl, rfl⟩

/-- The accumulating loop adds what the scanner reads to the components it already has. -/
theorem parseComponents_tracks {sl : Slicer} {data : Bytes} (hsl : InRange sl data) (n : Nat)
    {o : Nat} (ho : o ≤ data.length) (seen : List PyStr) (acc : List (PyStr × Bytes)) :
    Tracks data (parseComponents sl data n o seen acc)
      (((scanComponents n seen).run (data.drop o)).map fun (cs, r) => (acc ++ cs, r)) := by
  induction n generalizing o seen acc with
  | zero => exact ⟨o, ho, by simp [parseComponents], rfl⟩
  | succ n ih =>
    have hc := parseComponent_tracks hsl ho seen
    rw [parseComponents, scanComponents, run_bind]
    cases hp : (scanComponent seen).run (data.drop o) with
    | error e =>
      rw [hp] at hc
      have hc' : parseComponent sl data o seen = .error e := hc
      rw [hc']
      rfl
    | ok cr =>
      obtain ⟨c, r⟩ := cr
      rw [hp] at hc
      obtain ⟨o', ho', hx, rfl⟩ := hc
      rw [hx, ok_bind]
      have ht := ih ho' (seen ++ [c.1]) (acc ++ [c])
      dsimp only
      rw [run_bind]
      cases hs : (scanComponents n (seen ++ [c.1])).run (data.drop o') with
      | error e => rw [hs] at ht; exact ht
      | ok sr => simpa [hs, Except.map] using ht

theorem parseNonce_tracks {sl : Slicer} {data : Bytes} (hsl : InRange sl data) {o : Nat}
    (ho : o ≤ data.length) (version : Nat) :
    Tracks data (parseNonce sl data o version) ((scanNonce version).run (data.drop o)) := by
  unfold parseNonce scanNonce
  by_cases hv : version < 2
  · rw [if_pos hv, if_pos hv]
    exact ⟨o, ho, rfl, rfl⟩
  · rw [if_neg hv, if_neg hv]
    refine Tracks.take ho (fun h => if_pos h) fun h => ?_
    rw [if_neg (by omega), hsl _ _ (by omega) h]
    exact ⟨_, h, rfl, rfl⟩

theorem slice_front (data : Bytes) {n m : Nat} (h : n ≤ m) :
    slice (slice data 0 m) 0 n = slice data 0 n := by
  simp [slice, List.take_take, Nat.min_eq_left h]

theorem index_front (data : Bytes) {i m : Nat} (h : i < m) :
    index (slice data 0 m) i = index data i := by
  simp [index, slice, h]

theorem parseWith_tracks {sl : Slicer} {data : Bytes} (hsl : InRange sl data) :
    Tracks data (parseWith sl data) (scanHeader.run data) := by
  unfold scanHeader parseWith
  dsimp only
  refine @Tracks.take _ data 0 6 _ _ _ (Nat.zero_le _) (fun h => if_pos (by omega))
    fun h1 => ?_
  rw [slice_front data (by omega), index_front data (by omega), index_front data (by omega),
    if_neg (by omega), hsl 0 4 (by omega) (by omega), ok_bind]
  refine Tracks.guard fun _ => Tracks.ofExcept rfl fun version _ => Tracks.guard fun _ => ?_
  refine Tracks.ofExcept rfl fun profileIdLen _ => ?_
  refine Tracks.take h1 (fun h => if_pos h) fun h2 => ?_
  rw [if_neg (by omega), hsl _ _ (by omega) h2, ok_bind]
  refine Tracks.ofExcept rfl fun profileId _ => Tracks.guard fun _ => ?_
  refine Tracks.take h2 (fun h => if_pos (by omega)) fun h3 => ?_
  rw [if_neg (by omega), index_slice h3, ok_bind]
  refine Tracks.guard fun _ => ?_
  have hc := parseComponents_tracks hsl (beDecode (slice data (6 + profileIdLen)
    (6 + profileIdLen + 1))) h3 [] []
  have hnil : ∀ y : Except Exc (List (PyStr × Bytes) × Bytes),
      (y.map fun (cs, r) => ([] ++ cs, r)) = y := by
    intro y
    cases y <;> rfl
  rw [hnil] at hc
  refine Tracks.bind hc fun components o ho => ?_
  refine Tracks.bind (parseNonce_tracks hsl ho version) fun nonce o' ho' => ?_
  exact ⟨o', ho', rfl, rfl⟩

theorem parse_tracks (data : Bytes) : Tracks data (parse data) (scanHeader.run data) :=
  parseWith_tracks (pySlice_inRange data)

/-- A header parses exactly when the scanner accepts, and the offset is what the scanner read. -/
theorem parse_eq_ok {data : Bytes} {h : CryptoflexHeader} {n : Nat}
    (hp : parse data = .ok (h, n)) :
    n ≤ data.length ∧ scanHeader.run data = .ok (h, data.drop n) := by
  have ht := parse_tracks data
  cases hs : scanHeader.run data with
  | error e =>
    rw [hs] at ht
    have ht' : parse data = .error e := ht
    rw [hp] at ht'
    cases ht'
  | ok vr =>
    obtain ⟨v, r⟩ := vr
    rw [hs] at ht
    obtain ⟨o, ho, hx, rfl⟩ := ht
    rw [hp] at hx
    cases hx
    exact ⟨ho, rfl⟩

theorem parse_of_scan {data r : Bytes} {h : CryptoflexHeader}
    (hs : scanHeader.run data = .ok (h, r)) :
    parse data = .ok (h, data.length - r.length) := by
  have ht := parse_tracks data
  rw [hs] at ht
  obtain ⟨o, ho, hx, rfl⟩ := ht
  rw [hx, List.length_drop]
  congr 2
  omega

theorem parse_of_scan_error {data : Bytes} {e : Exc} (hs : scanHeader.run data = .error e) :
    parse data = .error e := by
  have ht := parse_tracks data
  rw [hs] at ht
  exact ht

/-- No slice of `_parse` leaves its data: refusing such slices changes nothing. -/
theorem parse_strict (data : Bytes) : parseWith strictSlice data = parse data := by
  have hs := parseWith_tracks (strictSlice_inRange data)
  cases hr : scanHeader.run data with
  | error e =>
    rw [hr] at hs
    rw [parse_of_scan_error hr]
    exact hs
  | ok vr =>
    obtain ⟨v, r⟩ := vr
    rw [hr] at hs
    obtain ⟨o, ho, hx, rfl⟩ := hs
    rw [parse_of_scan hr, hx, List.length_drop]
    congr 2
    omega

end CryptoFlex.CryptoflexHeader
