import CryptoFlex.Policy.QuantumSafe

namespace CryptoFlex

variable {H : Type}

/-- The text of a status in the table. -/
def Status.text : Status → PyStr
  | approved => "approved"
  | deprecated => "deprecated"

namespace PolicyEngine

/-- The table has a dict for the algorithm, with this status and this flag. -/
def Lists (engine : PolicyEngine) (id : PyStr) (status : Status) (qs : Bool) : Prop :=
  ∃ algos record, Json.field engine.riskTable "algorithms" = some (.obj algos) ∧
    Json.field algos id = some (.obj record) ∧
    Json.field record "status" = some (.str status.text) ∧
    Json.field record "quantum_safe" = some (.bool qs)

theorem ofJson_eq_some {v : Json} {status : Status} :
    Status.ofJson v = some status ↔ v = .str status.text := by
  constructor
  · intro h
    cases v with
    | str s =>
      by_cases happroved : s = .text "approved"
      · subst happroved
        cases h
        rfl
      by_cases hdeprecated : s = .text "deprecated"
      · subst hdeprecated
        cases h
        rfl
      · simp [Status.ofJson, happroved, hdeprecated] at h
    | _ => cases h
  · intro h
    subst h
    cases status <;> rfl

theorem recordOf_eq_some {algos : JsonObject} {id : PyStr} {status : Status} {qs : Bool} :
    recordOf algos id = some (status, qs) ↔ ∃ record, Json.field algos id = some (.obj record) ∧
      Json.field record "status" = some (.str status.text) ∧
      Json.field record "quantum_safe" = some (.bool qs) := by
  constructor
  · intro h
    unfold recordOf at h
    split at h
    · next record hrecord =>
      split at h
      · next status' qs' hstatus hqs =>
        cases h
        obtain ⟨v, hv, hof⟩ := Option.bind_eq_some_iff.mp hstatus
        rw [ofJson_eq_some.mp hof] at hv
        exact ⟨record, hrecord, hv, hqs⟩
      · cases h
    · cases h
  · rintro ⟨record, hrecord, hstatus, hqs⟩
    have hof : (Json.field record "status").bind Status.ofJson = some status := by
      rw [hstatus]
      exact ofJson_eq_some.mpr rfl
    simp only [recordOf, hrecord, hof, hqs]

theorem record_eq_some {engine : PolicyEngine} {id : PyStr} {status : Status} {qs : Bool} :
    engine.record id = some (status, qs) ↔ engine.Lists id status qs := by
  unfold record Lists
  constructor
  · intro h
    split at h
    · next algos halgos =>
      obtain ⟨record, hrecord⟩ := recordOf_eq_some.mp h
      exact ⟨algos, record, halgos, hrecord⟩
    · cases h
  · rintro ⟨algos, record, halgos, hrecord⟩
    rw [halgos]
    exact recordOf_eq_some.mpr ⟨record, hrecord⟩

/-- What a profile needs to be chosen. -/
structure Qualifies (engine : PolicyEngine) (p : SecurityProfile H) (requireQs : Bool) : Prop where
  available : ∀ s ∈ p.sources, s.isAvailable = true
  listed : ∀ s ∈ p.sources, ∃ status qs, engine.Lists s.algorithmId status qs
  approved : ∃ s ∈ p.sources, ∃ qs, engine.Lists s.algorithmId .approved qs
  quantumSafe : requireQs = true →
    ∃ s ∈ p.sources, ∃ status, engine.Lists s.algorithmId status true

theorem selectable_iff {engine : PolicyEngine} {p : SecurityProfile H} {requireQs : Bool} :
    engine.Selectable p requireQs ↔ engine.Qualifies p requireQs := by
  have havailable : p.isAvailable = true ↔ ∀ s ∈ p.sources, s.isAvailable = true := by
    simp [SecurityProfile.isAvailable]
  constructor
  · intro h
    obtain ⟨hav, hacc⟩ := h
    refine ⟨havailable.mp hav, ?_, ?_, ?_⟩
    · intro s hs
      obtain ⟨⟨status, qs⟩, hr⟩ := hacc.listed s hs
      exact ⟨status, qs, record_eq_some.mp hr⟩
    · obtain ⟨s, hs, qs, hr⟩ := hacc.approved
      exact ⟨s, hs, qs, record_eq_some.mp hr⟩
    · intro hreq
      obtain ⟨s, hs, status, hr⟩ := hacc.quantumSafe hreq
      exact ⟨s, hs, status, record_eq_some.mp hr⟩
  · intro h
    refine ⟨havailable.mpr h.available, ?_, ?_, ?_⟩
    · intro s hs
      obtain ⟨status, qs, hl⟩ := h.listed s hs
      exact ⟨(status, qs), record_eq_some.mpr hl⟩
    · obtain ⟨s, hs, qs, hl⟩ := h.approved
      exact ⟨s, hs, qs, record_eq_some.mpr hl⟩
    · intro hreq
      obtain ⟨s, hs, status, hl⟩ := h.quantumSafe hreq
      exact ⟨s, hs, status, record_eq_some.mpr hl⟩

/-- Some component of the profile is deprecated. -/
def HasDeprecated (engine : PolicyEngine) (p : SecurityProfile H) : Prop :=
  ∃ s ∈ p.sources, ∃ qs, engine.Lists s.algorithmId .deprecated qs

theorem isDeprecated_iff {algos : JsonObject} {id : PyStr} :
    isDeprecated algos id = true ↔ ∃ qs, recordOf algos id = some (.deprecated, qs) := by
  unfold isDeprecated
  rcases hr : recordOf algos id with _ | ⟨status, qs⟩
  · simp
  · cases status <;> simp

theorem isProfileAcceptable_degraded {engine : PolicyEngine} {p : SecurityProfile H}
    {requireQs : Bool} (h : (engine.isProfileAcceptable p requireQs).1 = true) :
    (engine.isProfileAcceptable p requireQs).2.1 = true ↔ engine.HasDeprecated p := by
  unfold isProfileAcceptable at h ⊢
  split at h
  · next algos halgos =>
    rw [tally_eq] at h ⊢
    by_cases hall : (p.sources.map (·.algorithmId)).all (fun id => (recordOf algos id).isSome)
    · rw [if_pos hall] at h ⊢
      dsimp only at h ⊢
      split at h
      · cases h
      next hqs =>
      split at h
      · cases h
      next hdeprecated =>
      rw [if_neg hqs, if_neg hdeprecated]
      have hmem : engine.HasDeprecated p ↔
          ∃ id ∈ p.sources.map (·.algorithmId), isDeprecated algos id = true := by
        simp only [HasDeprecated, List.mem_map, exists_exists_and_eq_and, isDeprecated_iff,
          ← record_eq_some, record_of_algorithms halgos]
      rw [hmem]
      simp [tallyOf, List.filter_eq_nil_iff]
    · rw [if_neg hall] at h
      cases h
  · cases h

/-- `p`, registered as `id`, is the first candidate that qualifies, at place `i`. -/
structure FirstAt (engine : PolicyEngine) (profiles : Registry H) (requireQs : Bool)
    (candidates : List PyStr) (i : Nat) (id : PyStr) (p : SecurityProfile H) : Prop where
  place : candidates[i]? = some id
  registered : profiles.lookup id = some p
  qualifies : engine.Qualifies p requireQs
  earlier : ∀ j < i, ∀ id' p', candidates[j]? = some id' → profiles.lookup id' = some p' →
    ¬engine.Qualifies p' requireQs

section Candidates

variable {engine : PolicyEngine} {profiles : Registry H} {requireQs : Bool}
  {candidates : List PyStr}

theorem FirstAt.unique {i i' : Nat} {id id' : PyStr} {p p' : SecurityProfile H}
    (h : engine.FirstAt profiles requireQs candidates i id p)
    (h' : engine.FirstAt profiles requireQs candidates i' id' p') : i = i' ∧ id = id' ∧ p = p' := by
  have hplace : i = i' := by
    rcases Nat.lt_trichotomy i i' with hlt | heq | hlt
    · exact absurd h.qualifies (h'.earlier i hlt id p h.place h.registered)
    · exact heq
    · exact absurd h'.qualifies (h.earlier i' hlt id' p' h'.place h'.registered)
  subst hplace
  have hid : id = id' := by
    have hp := h.place
    rw [h'.place] at hp
    exact (Option.some.inj hp).symm
  subst hid
  have hp := h.registered
  rw [h'.registered] at hp
  exact ⟨rfl, rfl, (Option.some.inj hp).symm⟩

/-- The candidate before the list does not qualify. -/
theorem FirstAt.cons {i : Nat} {id first : PyStr} {p q : SecurityProfile H}
    (h : engine.FirstAt profiles requireQs candidates i id p)
    (hfirst : profiles.lookup first = some q) (hq : ¬engine.Qualifies q requireQs) :
    engine.FirstAt profiles requireQs (first :: candidates) (i + 1) id p := by
  refine ⟨by simpa using h.place, h.registered, h.qualifies, ?_⟩
  intro j hj id' p' hplace hlookup
  cases j with
  | zero =>
    have hid : first = id' := Option.some.inj hplace
    rw [← hid, hfirst] at hlookup
    rw [← Option.some.inj hlookup]
    exact hq
  | succ j => exact h.earlier j (by omega) id' p' (by simpa using hplace) hlookup

/-- What a decision for the candidate `id` says. -/
structure Decides (engine : PolicyEngine) (idealId id : PyStr) (p : SecurityProfile H)
    (d : PolicyDecision H) : Prop where
  profile : d.profile = p
  minimum : d.minAcceptedProfile = if id.isEmpty then p.profileId else id
  degraded : d.degraded = false ↔ id = idealId ∧ ¬engine.HasDeprecated p

theorem decideFrom_decides (constraint : Constraint) (idealId : PyStr) {id : PyStr}
    {p : SecurityProfile H} (h : profiles.lookup id = some p) (hs : engine.Selectable p requireQs)
    (rest : List PyStr) :
    ∃ d, engine.decideFrom profiles constraint requireQs idealId (id :: rest) = .ok d ∧
      engine.Decides idealId id p d := by
  have hacc := (isProfileAcceptable_iff engine p requireQs).mpr hs.2
  have hdegraded := isProfileAcceptable_degraded hacc
  rw [decideFrom, h]
  dsimp only
  rw [if_neg (by simp [hs.1]), if_neg (by simp [hacc])]
  refine ⟨_, rfl, rfl, rfl, ?_⟩
  rw [← hdegraded]
  simp [policyDecision]

/-- The loop takes the first candidate that qualifies, or stops with a `RuntimeError`. -/
theorem decideFrom_cases (constraint : Constraint) (idealId : PyStr)
    (hreg : ∀ id ∈ candidates, ∃ p, profiles.lookup id = some p) :
    (∃ i id p d, engine.FirstAt profiles requireQs candidates i id p ∧
      engine.decideFrom profiles constraint requireQs idealId candidates = .ok d ∧
      engine.Decides idealId id p d) ∨
    ((∀ id ∈ candidates, ∀ p, profiles.lookup id = some p → ¬engine.Qualifies p requireQs) ∧
      ∃ m, engine.decideFrom profiles constraint requireQs idealId candidates =
        .error (.runtimeError m)) := by
  induction candidates with
  | nil => exact Or.inr ⟨nofun, _, rfl⟩
  | cons first rest ih =>
    obtain ⟨q, hfirst⟩ := hreg first List.mem_cons_self
    by_cases hs : engine.Selectable q requireQs
    · obtain ⟨d, hd, hdecides⟩ := decideFrom_decides constraint idealId hfirst hs rest
      left
      exact ⟨0, first, q, d, ⟨rfl, hfirst, selectable_iff.mp hs, nofun⟩, hd, hdecides⟩
    · have hq : ¬engine.Qualifies q requireQs := fun h => hs (selectable_iff.mpr h)
      rw [decideFrom_skip constraint idealId hfirst hs]
      rcases ih fun id hid => hreg id (List.mem_cons_of_mem _ hid) with
        ⟨i, id, p, d, hp, hd, hdecides⟩ | ⟨hnone, hraise⟩
      · exact Or.inl ⟨i + 1, id, p, d, hp.cons hfirst hq, hd, hdecides⟩
      · right
        refine ⟨?_, hraise⟩
        intro id hid p hlookup
        rcases List.mem_cons.mp hid with heq | hrest
        · rw [heq, hfirst] at hlookup
          rw [← Option.some.inj hlookup]
          exact hq
        · exact hnone id hrest p hlookup

end Candidates

theorem validateRecord_recordOf {algos : JsonObject} {id algoId : PyStr} {v : Json}
    (h : validateRecord algoId v = .ok ()) (hv : Json.field algos id = some v) :
    ∃ r, recordOf algos id = some r := by
  unfold validateRecord at h
  split at h
  next record =>
    split at h
    · cases h
    next status hstatus =>
    split at h
    · cases h
    next hof =>
    obtain ⟨st, hst⟩ := Option.ne_none_iff_exists'.mp hof
    split at h
    · cases h
    · next qs hqs =>
      have hrecord : (Json.field record "status").bind Status.ofJson = some st := by
        rw [hstatus]
        exact hst
      exact ⟨(st, qs), by simp only [recordOf, hv, hrecord, hqs]⟩
    · cases h
  · cases h

theorem validateRecords_mem {algos : JsonObject} (h : validateRecords algos = .ok ())
    {id : PyStr} {v : Json} (hv : (id, v) ∈ algos) : validateRecord id v = .ok () := by
  induction algos with
  | nil => cases hv
  | cons entry rest ih =>
    obtain ⟨algoId, record⟩ := entry
    obtain ⟨⟨⟩, hhead, htail⟩ := bind_eq_ok.mp h
    rcases List.mem_cons.mp hv with heq | hrest
    · cases heq
      exact hhead
    · exact ih htail hrest

/-- A table that passed the validation has a dict of records, each with both fields. -/
theorem init_algorithms {riskTable : Json} {engine : PolicyEngine}
    (h : init riskTable = .ok engine) :
    ∃ algos, Json.field engine.riskTable "algorithms" = some (.obj algos) ∧
      validateRecords algos = .ok () := by
  obtain ⟨table, hvalidate, h⟩ := bind_eq_ok.mp h
  cases h
  unfold validateRiskTable at hvalidate
  split at hvalidate
  next table' =>
    split at hvalidate
    · cases hvalidate
    · next algos halgos =>
      obtain ⟨⟨⟩, -, hvalidate⟩ := bind_eq_ok.mp hvalidate
      obtain ⟨⟨⟩, -, hvalidate⟩ := bind_eq_ok.mp hvalidate
      obtain ⟨⟨⟩, hrecords, hvalidate⟩ := bind_eq_ok.mp hvalidate
      cases hvalidate
      exact ⟨algos, halgos, hrecords⟩
    · cases hvalidate
  · cases hvalidate

/-- In a validated table a record is refused only where there is none. -/
theorem init_missing {riskTable : Json} {engine : PolicyEngine} (h : init riskTable = .ok engine)
    {id : PyStr} (hnot : ∀ status qs, ¬engine.Lists id status qs) :
    ∃ algos, Json.field engine.riskTable "algorithms" = some (.obj algos) ∧
      Json.field algos id = none := by
  obtain ⟨algos, halgos, hrecords⟩ := init_algorithms h
  refine ⟨algos, halgos, ?_⟩
  cases hv : Json.field algos id with
  | none => rfl
  | some v =>
    have hvalid := validateRecords_mem hrecords (lookup_mem hv)
    obtain ⟨⟨status, qs⟩, hr⟩ := validateRecord_recordOf hvalid hv
    have hrecord : engine.record id = some (status, qs) := by
      rw [record_of_algorithms halgos]
      exact hr
    exact absurd (record_eq_some.mp hrecord) (hnot status qs)

theorem candidateOrder_named (constraint : Constraint) :
    ∀ id ∈ candidateOrder constraint, id.isEmpty = false := by
  cases constraint <;> decide

/-- The first place is the ideal one. -/
theorem candidateOrder_ideal {constraint : Constraint} {i : Nat} {id : PyStr}
    (h : (candidateOrder constraint)[i]? = some id) :
    id = (candidateOrder constraint).headD "" ↔ i = 0 := by
  have hi : i < 3 := by
    have hlen : (candidateOrder constraint).length = 3 := by cases constraint <;> rfl
    rw [← hlen]
    exact (List.getElem?_eq_some_iff.mp h).1
  have hcases : i = 0 ∨ i = 1 ∨ i = 2 := by omega
  cases constraint <;> rcases hcases with rfl | rfl | rfl <;> cases h <;> decide

/-- The decision for the candidate `id` at place `i`. -/
structure ChosenAt (engine : PolicyEngine) (i : Nat) (id : PyStr) (p : SecurityProfile H)
    (d : PolicyDecision H) : Prop where
  profile : d.profile = p
  minimum : d.minAcceptedProfile = id
  degraded : d.degraded = false ↔ i = 0 ∧ ¬engine.HasDeprecated p

theorem decide_cases (engine : PolicyEngine) {profiles : Registry H} {constraint : Constraint}
    (requireQs : Bool) (hreg : ∀ id ∈ candidateOrder constraint, ∃ p, profiles.lookup id = some p) :
    (∃ i id p d, engine.FirstAt profiles requireQs (candidateOrder constraint) i id p ∧
      engine.decide profiles constraint requireQs = .ok d ∧ engine.ChosenAt i id p d) ∨
    ((∀ id ∈ candidateOrder constraint, ∀ p, profiles.lookup id = some p →
      ¬engine.Qualifies p requireQs) ∧
      ∃ m, engine.decide profiles constraint requireQs = .error (.runtimeError m)) := by
  have hloop := @decideFrom_cases H engine profiles requireQs _ constraint
    ((candidateOrder constraint).headD "") hreg
  rcases hloop with ⟨i, id, p, d, hfirst, hd, hdecides⟩ | hnone
  · left
    have hmem : id ∈ candidateOrder constraint := List.mem_of_getElem? hfirst.place
    refine ⟨i, id, p, d, hfirst, hd, hdecides.profile, ?_, ?_⟩
    · rw [hdecides.minimum, candidateOrder_named constraint id hmem]
      rfl
    · rw [hdecides.degraded, candidateOrder_ideal hfirst.place]
  · exact Or.inr hnone

/-- A decision is for the first candidate that qualifies, not degraded exactly when that is the
first of all and has no deprecated component; without one there is a `RuntimeError`; and a
validated table never holds a malformed record. -/
theorem decide_first {H : Type} (engine : PolicyEngine) (profiles : Registry H)
    (constraint : Constraint) (requireQs : Bool)
    (hreg : ∀ id ∈ candidateOrder constraint, ∃ p, profiles.lookup id = some p) :
    (∀ i id p, engine.FirstAt profiles requireQs (candidateOrder constraint) i id p →
      ∃ d, engine.decide profiles constraint requireQs = .ok d ∧ d.profile = p ∧
        d.minAcceptedProfile = id ∧ (d.degraded = false ↔ i = 0 ∧ ¬engine.HasDeprecated p)) ∧
    (∀ d, engine.decide profiles constraint requireQs = .ok d →
      ∃ i id, engine.FirstAt profiles requireQs (candidateOrder constraint) i id d.profile) ∧
    ((∃ m, engine.decide profiles constraint requireQs = .error (.runtimeError m)) ↔
      ∀ id ∈ candidateOrder constraint, ∀ p, profiles.lookup id = some p →
        ¬engine.Qualifies p requireQs) ∧
    ∀ riskTable, init riskTable = .ok engine →
      ∀ id, (∀ status qs, ¬engine.Lists id status qs) →
        ∃ algos, Json.field engine.riskTable "algorithms" = some (.obj algos) ∧
          Json.field algos id = none := by
  have hmissing : ∀ riskTable, init riskTable = .ok engine →
      ∀ id, (∀ status qs, ¬engine.Lists id status qs) →
        ∃ algos, Json.field engine.riskTable "algorithms" = some (.obj algos) ∧
          Json.field algos id = none := fun _ h _ hnot => init_missing h hnot
  rcases decide_cases engine requireQs hreg with ⟨i, id, p, d, hfirst, hd, hchosen⟩ | ⟨hnone, m, hm⟩
  · refine ⟨?_, ?_, ?_, hmissing⟩
    · intro i' id' p' hfirst'
      obtain ⟨hi, hid, hp⟩ := hfirst.unique hfirst'
      subst hi hid hp
      exact ⟨d, hd, hchosen.profile, hchosen.minimum, hchosen.degraded⟩
    · intro d' hd'
      rw [hd] at hd'
      cases hd'
      exact ⟨i, id, by rw [hchosen.profile]; exact hfirst⟩
    · constructor
      · rintro ⟨m, hm⟩
        rw [hd] at hm
        cases hm
      · intro hno
        have hmem := List.mem_of_getElem? hfirst.place
        exact absurd hfirst.qualifies (hno id hmem p hfirst.registered)
  · refine ⟨?_, ?_, ⟨fun _ => hnone, fun _ => ⟨m, hm⟩⟩, hmissing⟩
    · intro i id p hfirst
      have hmem := List.mem_of_getElem? hfirst.place
      exact absurd hfirst.qualifies (hnone id hmem p hfirst.registered)
    · intro d hd
      rw [hm] at hd
      cases hd

/-- The shipped registry has all three candidates. -/
theorem profileRegistry_candidates {K₁ K₂ : Type} (x : X25519 K₁) (o : Oqs K₂)
    (constraint : Constraint) :
    ∀ id ∈ candidateOrder constraint, ∃ p, (profileRegistry x o).lookup id = some p := by
  cases constraint <;> simp only [candidateOrder, List.forall_mem_cons] <;>
    exact ⟨⟨_, rfl⟩, ⟨_, rfl⟩, ⟨_, rfl⟩, by simp⟩

theorem hybridStandard_selectable : Selectable ⟨deprecatedMlkemTable⟩ hybridStandard false := by
  obtain ⟨s, hs, hr⟩ := hybridStandard_deprecated.approved
  exact ⟨by decide +kernel, hybridStandard_deprecated.listed, ⟨s, hs, false, hr⟩, nofun⟩

/-- The hybrid profile with a deprecated component is the first choice, and degraded. -/
theorem decide_first_deprecatedMlkem : ∃ d,
    decide ⟨deprecatedMlkemTable⟩ (profileRegistry xorX25519 xorOqs) .balanced false = .ok d ∧
    d.profile = hybridStandard ∧ d.minAcceptedProfile = "hybrid_standard" ∧ d.degraded = true := by
  have hfirst : FirstAt ⟨deprecatedMlkemTable⟩ (profileRegistry xorX25519 xorOqs) false
      (candidateOrder .balanced) 0 "hybrid_standard" hybridStandard :=
    ⟨rfl, rfl, selectable_iff.mp hybridStandard_selectable, nofun⟩
  obtain ⟨s, hs, hr⟩ := hybridStandard_deprecated.deprecated
  have hdeprecated : HasDeprecated ⟨deprecatedMlkemTable⟩ hybridStandard :=
    ⟨s, hs, true, record_eq_some.mp hr⟩
  obtain ⟨d, hd, hp, hmin, hdegraded⟩ := (decide_first ⟨deprecatedMlkemTable⟩
    (profileRegistry xorX25519 xorOqs) .balanced false
    (profileRegistry_candidates xorX25519 xorOqs .balanced)).1 0 "hybrid_standard" hybridStandard
    hfirst
  refine ⟨d, hd, hp, hmin, ?_⟩
  rw [← Bool.not_eq_false, hdegraded]
  exact fun h => h.2 hdeprecated

end PolicyEngine

end CryptoFlex
