import CryptoFlex.Policy.Acceptance

namespace CryptoFlex.PolicyEngine

variable {H : Type}

/-- In `l`, every bad element has a good one before it. -/
def Guarded {α : Type} (bad good : α → Prop) (l : List α) : Prop :=
  ∀ before x after, l = before ++ x :: after → bad x → ∃ y ∈ before, good y

theorem guarded_nil {α : Type} (bad good : α → Prop) : Guarded bad good [] := by
  intro before x after h
  simp at h

theorem guarded_cons {α : Type} {bad good : α → Prop} {x : α} {l : List α} :
    Guarded bad good (x :: l) ↔ ¬bad x ∧ (good x ∨ Guarded bad good l) := by
  constructor
  · intro h
    have hx : ¬bad x := fun hb => by simpa using h [] x l rfl hb
    refine ⟨hx, ?_⟩
    by_cases hg : good x
    · exact Or.inl hg
    · right
      intro before y after hl hb
      obtain ⟨z, hz, hgz⟩ := h (x :: before) y after (by rw [hl, List.cons_append]) hb
      rcases List.mem_cons.mp hz with rfl | hz
      · exact absurd hgz hg
      · exact ⟨z, hz, hgz⟩
  · rintro ⟨hx, hor⟩ before y after hl hb
    cases before with
    | nil =>
      cases hl
      exact absurd hb hx
    | cons z before =>
      rw [List.cons_append] at hl
      cases hl
      rcases hor with hg | hrest
      · exact ⟨x, List.mem_cons_self, hg⟩
      · obtain ⟨w, hw, hgw⟩ := hrest before y after rfl hb
        exact ⟨w, List.mem_cons_of_mem _ hw, hgw⟩

/-- A source that is quantum safe and that the table still approves. -/
def Effective (engine : PolicyEngine) (p : SecurityProfile H) : Prop :=
  ∃ s ∈ p.sources, engine.record s.algorithmId = some (.approved, true)

/-- A profile that passes although only deprecated sources of it are quantum safe. -/
structure QuantumSafeByDeprecated (engine : PolicyEngine) (p : SecurityProfile H) : Prop where
  listed : ∀ s ∈ p.sources, ∃ r, engine.record s.algorithmId = some r
  approved : ∃ s ∈ p.sources, engine.record s.algorithmId = some (.approved, false)
  deprecated : ∃ s ∈ p.sources, engine.record s.algorithmId = some (.deprecated, true)
  notEffective : ¬engine.Effective p

/-- Candidates that stop the search with the wrong outcome. -/
def Misleading (engine : PolicyEngine) (profiles : Registry H) (id : PyStr) : Prop :=
  profiles.lookup id = none ∨ ∃ p, profiles.lookup id = some p ∧ p.isAvailable = true ∧
    engine.QuantumSafeByDeprecated p

/-- Candidates that stop the search with an effective quantum-safe profile. -/
def Sound (engine : PolicyEngine) (profiles : Registry H) (id : PyStr) : Prop :=
  ∃ p, profiles.lookup id = some p ∧ p.isAvailable = true ∧
    (∀ s ∈ p.sources, ∃ r, engine.record s.algorithmId = some r) ∧ engine.Effective p

theorem accepts_quantumSafe_iff {engine : PolicyEngine} {p : SecurityProfile H} :
    engine.Accepts p true ↔ engine.QuantumSafeByDeprecated p ∨
      ((∀ s ∈ p.sources, ∃ r, engine.record s.algorithmId = some r) ∧ engine.Effective p) := by
  constructor
  · intro h
    by_cases he : engine.Effective p
    · exact Or.inr ⟨h.listed, he⟩
    · left
      obtain ⟨s, hs, qs, hr⟩ := h.approved
      obtain ⟨s', hs', status, hr'⟩ := h.quantumSafe rfl
      refine ⟨h.listed, ⟨s, hs, ?_⟩, ⟨s', hs', ?_⟩, he⟩
      · cases qs with
        | false => exact hr
        | true => exact absurd ⟨s, hs, hr⟩ he
      · cases status with
        | deprecated => exact hr'
        | approved => exact absurd ⟨s', hs', hr'⟩ he
  · rintro (h | ⟨hl, s, hs, hr⟩)
    · obtain ⟨s, hs, hr⟩ := h.approved
      obtain ⟨s', hs', hr'⟩ := h.deprecated
      exact ⟨h.listed, ⟨s, hs, _, hr⟩, fun _ => ⟨s', hs', _, hr'⟩⟩
    · exact ⟨hl, ⟨s, hs, _, hr⟩, fun _ => ⟨s, hs, _, hr⟩⟩

/-- What is asked of a decision under `require_quantum_safe`: an effective quantum-safe source, or
else the hard stop. -/
def MeetsRequirement (engine : PolicyEngine) (r : Except Exc (PolicyDecision H)) : Prop :=
  match r with
  | .ok d => engine.Effective d.profile
  | .error e => ∃ m, e = .runtimeError m

theorem decideFrom_meetsRequirement (engine : PolicyEngine) (profiles : Registry H)
    (constraint : Constraint) (idealId : PyStr) (candidates : List PyStr) :
    engine.MeetsRequirement (engine.decideFrom profiles constraint true idealId candidates) ↔
      Guarded (engine.Misleading profiles) (engine.Sound profiles) candidates := by
  induction candidates with
  | nil => exact ⟨fun _ => guarded_nil _ _, fun _ => ⟨_, rfl⟩⟩
  | cons id rest ih =>
    rw [guarded_cons]
    cases hl : profiles.lookup id with
    | none =>
      rw [decideFrom_missing engine constraint true idealId hl]
      refine ⟨fun h => ?_, fun h => absurd (Or.inl hl) h.1⟩
      obtain ⟨m, hm⟩ := h
      cases hm
    | some p =>
      by_cases hs : engine.Selectable p true
      · obtain ⟨d, hd, hp⟩ := decideFrom_select constraint idealId hl hs rest
        rw [hd, MeetsRequirement, hp]
        rcases accepts_quantumSafe_iff.mp hs.2 with hbad | hgood
        · refine ⟨fun h => absurd h hbad.notEffective, fun h => absurd ?_ h.1⟩
          exact Or.inr ⟨p, hl, hs.1, hbad⟩
        · refine ⟨fun _ => ⟨?_, Or.inl ⟨p, hl, hs.1, hgood⟩⟩, fun _ => hgood.2⟩
          rintro (h | ⟨q, hq, -, hbad⟩)
          · rw [hl] at h
            cases h
          · rw [hl] at hq
            cases hq
            exact hbad.notEffective hgood.2
      · rw [decideFrom_skip constraint idealId hl hs, ih]
        have hmis : ¬engine.Misleading profiles id := by
          rintro (h | ⟨q, hq, hav, hbad⟩)
          · rw [hl] at h
            cases h
          · rw [hl] at hq
            cases hq
            exact hs ⟨hav, accepts_quantumSafe_iff.mpr (Or.inl hbad)⟩
        have hsound : ¬engine.Sound profiles id := by
          rintro ⟨q, hq, hav, hgood⟩
          rw [hl] at hq
          cases hq
          exact hs ⟨hav, accepts_quantumSafe_iff.mpr (Or.inr hgood)⟩
        exact ⟨fun h => ⟨hmis, Or.inr h⟩, fun h => h.2.resolve_left hsound⟩

/-- Requiring quantum safety gives an effective quantum-safe source or the hard stop exactly when
no misleading candidate comes before the first sound one. -/
theorem decide_meetsRequirement_iff (engine : PolicyEngine) (profiles : Registry H)
    (constraint : Constraint) :
    engine.MeetsRequirement (engine.decide profiles constraint true) ↔
      Guarded (engine.Misleading profiles) (engine.Sound profiles)
        (candidateOrder constraint) :=
  decideFrom_meetsRequirement engine profiles constraint _ _

/-- A table that keeps X25519 and deprecates both ML-KEM parameter sets. -/
def deprecatedMlkemTable : JsonObject :=
  let entry (status : String) (qs : Bool) : Json :=
    .obj [(.text "status", .str status), (.text "quantum_safe", .bool qs)]
  [(.text "algorithms", .obj [(.text "x25519", entry "approved" false),
    (.text "mlkem768", entry "deprecated" true), (.text "mlkem1024", entry "deprecated" true)])]

theorem deprecatedMlkem_record :
    record ⟨deprecatedMlkemTable⟩ "x25519" = some (.approved, false) ∧
      record ⟨deprecatedMlkemTable⟩ (pqcAlgorithmId "ML-KEM-768") = some (.deprecated, true) := by
  decide +kernel

def hybridStandard : SecurityProfile (PrivateHandle Bytes Bytes) where
  profileId := "hybrid_standard"
  sources := [classicalSource xorX25519, pqcSource xorOqs "ML-KEM-768"]
  strengthLevel := 1

theorem hybridStandard_deprecated :
    QuantumSafeByDeprecated ⟨deprecatedMlkemTable⟩ hybridStandard := by
  obtain ⟨hx, hm⟩ := deprecatedMlkem_record
  refine ⟨?_, ⟨_, List.mem_cons_self, hx⟩,
    ⟨_, List.mem_cons_of_mem _ List.mem_cons_self, hm⟩, ?_⟩
  · simp only [hybridStandard, List.forall_mem_cons, classicalSource, pqcSource, hx, hm]
    simp
  · rintro ⟨s, hs, hr⟩
    simp only [hybridStandard, List.mem_cons, List.not_mem_nil, or_false] at hs
    rcases hs with rfl | rfl
    · simp [classicalSource, hx] at hr
    · simp [pqcSource, hm] at hr

/-- The hybrid profile is chosen for its deprecated component. -/
theorem decide_deprecatedMlkem :
    init (.obj deprecatedMlkemTable) = .ok ⟨deprecatedMlkemTable⟩ ∧
      ¬MeetsRequirement ⟨deprecatedMlkemTable⟩
        (decide ⟨deprecatedMlkemTable⟩ (profileRegistry xorX25519 xorOqs) .balanced true) := by
  refine ⟨by rfl, ?_⟩
  have hl : (profileRegistry xorX25519 xorOqs).lookup (.text "hybrid_standard") =
      some hybridStandard := by rfl
  have hsel : Selectable ⟨deprecatedMlkemTable⟩ hybridStandard true :=
    ⟨by decide +kernel, accepts_quantumSafe_iff.mpr (Or.inl hybridStandard_deprecated)⟩
  obtain ⟨d, hd, hp⟩ := decideFrom_select .balanced "hybrid_standard" hl hsel
    ["hybrid_high", "classical_only"]
  rw [decide, candidateOrder, List.headD_cons, hd, MeetsRequirement, hp]
  exact hybridStandard_deprecated.notEffective

end CryptoFlex.PolicyEngine
