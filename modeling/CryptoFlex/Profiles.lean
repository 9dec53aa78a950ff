import CryptoFlex.Sources

namespace CryptoFlex

variable {H : Type}

structure SecurityProfile (H : Type) where
  profileId : PyStr
  sources : List (Source H)
  strengthLevel : Int := 0

def SecurityProfile.isAvailable (p : SecurityProfile H) : Bool :=
  p.sources.all (·.isAvailable)

/-- The `PROFILES` dict: profiles by id, in insertion order. -/
abbrev Registry (H : Type) := List (PyStr × SecurityProfile H)

/-- `_profile_registry()`. -/
def profileRegistry {K₁ K₂ : Type} (x : X25519 K₁) (o : Oqs K₂) :
    Registry (PrivateHandle K₁ K₂) :=
  let x25519 := classicalSource x
  let mlkem768 := pqcSource o "ML-KEM-768"
  let mlkem1024 := pqcSource o "ML-KEM-1024"
  let profiles : List (SecurityProfile (PrivateHandle K₁ K₂)) := [
    { profileId := "classical_only", sources := [x25519], strengthLevel := 0 },
    { profileId := "hybrid_standard", sources := [x25519, mlkem768], strengthLevel := 1 },
    { profileId := "hybrid_high", sources := [x25519, mlkem1024], strengthLevel := 2 }]
  profiles.map fun p => (p.profileId, p)

def getProfile (profiles : Registry H) (profileId : PyStr) :
    Except Exc (SecurityProfile H) :=
  match profiles.lookup profileId with
  | some p => .ok p
  | none =>
    let known := PyStr.pyList (profiles.map Prod.fst)
    .error (.valueError (s!"Unknown profile_id '{profileId}'. " ++ s!"Known profiles: {known}"))

theorem getProfile_eq_ok {profiles : Registry H} {id : PyStr} {p : SecurityProfile H} :
    getProfile profiles id = .ok p ↔ profiles.lookup id = some p := by
  unfold getProfile
  split
  · next q hq => rw [hq]; simp
  · next hq => rw [hq]; simp

theorem getProfile_error {profiles : Registry H} {id : PyStr} {e : Exc}
    (h : getProfile profiles id = .error e) :
    profiles.lookup id = none ∧ ∃ m, e = .valueError m := by
  unfold getProfile at h
  split at h
  · cases h
  · next hq => cases h; exact ⟨hq, _, rfl⟩

/-- Every profile is filed under its own id and fixes a non-empty list of differently named
sources. -/
structure Registry.WellFormed (profiles : Registry H) : Prop where
  keyed : ∀ id p, profiles.lookup id = some p → p.profileId = id
  named : ∀ id p, profiles.lookup id = some p → id ≠ .text ""
  nonempty : ∀ id p, profiles.lookup id = some p → p.sources ≠ []
  sourcesNamed : ∀ id p, profiles.lookup id = some p → ∀ s ∈ p.sources, s.algorithmId ≠ .text ""
  distinct : ∀ id p, profiles.lookup id = some p → (p.sources.map (·.algorithmId)).Nodup

/-- The three shipped profiles are all there is. -/
@[elab_as_elim]
theorem profileRegistry_cases {K₁ K₂ : Type} {x : X25519 K₁} {o : Oqs K₂}
    {P : PyStr → SecurityProfile (PrivateHandle K₁ K₂) → Prop}
    (classicalOnly : P "classical_only" ⟨"classical_only", [classicalSource x], 0⟩)
    (hybridStandard : P "hybrid_standard"
      ⟨"hybrid_standard", [classicalSource x, pqcSource o "ML-KEM-768"], 1⟩)
    (hybridHigh : P "hybrid_high"
      ⟨"hybrid_high", [classicalSource x, pqcSource o "ML-KEM-1024"], 2⟩)
    {id : PyStr} {p : SecurityProfile (PrivateHandle K₁ K₂)}
    (h : (profileRegistry x o).lookup id = some p) : P id p := by
  have hmem := lookup_mem h
  simp only [profileRegistry, List.map_cons, List.map_nil, List.mem_cons, List.not_mem_nil,
    or_false, Prod.mk.injEq] at hmem
  rcases hmem with ⟨rfl, rfl⟩ | ⟨rfl, rfl⟩ | ⟨rfl, rfl⟩
  · exact classicalOnly
  · exact hybridStandard
  · exact hybridHigh

theorem profileRegistry_sources {K₁ K₂ : Type} {x : X25519 K₁} {o : Oqs K₂}
    {P : Source (PrivateHandle K₁ K₂) → Prop} (classical : P (classicalSource x))
    (pqc : ∀ kemName ∈ ["ML-KEM-768", "ML-KEM-1024"], P (pqcSource o kemName)) {id : PyStr}
    {p : SecurityProfile (PrivateHandle K₁ K₂)}
    (h : (profileRegistry x o).lookup id = some p) : ∀ s ∈ p.sources, P s := by
  have h768 := pqc "ML-KEM-768" (by simp)
  have h1024 := pqc "ML-KEM-1024" (by simp)
  refine profileRegistry_cases ?_ ?_ ?_ h
  · simp [classical]
  · simp [classical, h768]
  · simp [classical, h1024]

theorem profileRegistry_wellFormed {K₁ K₂ : Type} (x : X25519 K₁) (o : Oqs K₂) :
    (profileRegistry x o).WellFormed := by
  have hall : ∀ id p, (profileRegistry x o).lookup id = some p →
      p.profileId = id ∧ id ≠ .text "" ∧ p.sources ≠ [] ∧
        (∀ s ∈ p.sources, s.algorithmId ≠ .text "") ∧
        (p.sources.map (·.algorithmId)).Nodup := by
    intro id p h
    refine profileRegistry_cases ?_ ?_ ?_ h <;>
      refine ⟨rfl, by decide, by simp, by simp [classicalSource, pqcSource, pqcAlgorithmId], ?_⟩ <;>
      simp only [List.map_cons, List.map_nil, classicalSource, pqcSource] <;> decide +kernel
  exact ⟨fun id p h => (hall id p h).1, fun id p h => (hall id p h).2.1,
    fun id p h => (hall id p h).2.2.1, fun id p h => (hall id p h).2.2.2.1,
    fun id p h => (hall id p h).2.2.2.2⟩

theorem profileRegistry_xor_correct (id : PyStr)
    (p : SecurityProfile (PrivateHandle Bytes Bytes))
    (h : (profileRegistry xorX25519 xorOqs).lookup id = some p) : ∀ s ∈ p.sources, s.Correct := by
  have henabled : ∀ kemName ∈ ["ML-KEM-768", "ML-KEM-1024"], kemName ∈ xorOqs.enabled := by decide
  exact profileRegistry_sources classicalSource_xor_correct
    (fun kemName hk => pqcSource_xor_correct (henabled kemName hk)) h

end CryptoFlex
