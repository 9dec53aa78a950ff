import CryptoFlex.Policy.Decision
import Mathlib.Data.List.Forall2
import Mathlib.Logic.Relation

namespace CryptoFlex

variable {H : Type}

/-- `o[key] = value`. -/
def Json.setField (o : JsonObject) (key : PyStr) (value : Json) : JsonObject :=
  match o with
  | [] => [(key, value)]
  | (k, v) :: rest => if k = key then (k, value) :: rest else (k, v) :: setField rest key value

theorem Json.field_setField (o : JsonObject) (key key' : PyStr) (value : Json) :
    field (setField o key value) key' = if key' = key then some value else field o key' := by
  induction o with
  | nil =>
    by_cases h : key' = key
    · simp [setField, field, h]
    · have hne : (key' == key) = false := by simpa using h
      simp [setField, field, List.lookup_cons, h, hne]
  | cons entry rest ih =>
    obtain ⟨k, v⟩ := entry
    simp only [field] at ih
    by_cases hk : k = key
    · subst hk
      by_cases h : key' = k
      · simp [setField, field, h]
      · have hne : (key' == k) = false := by simpa using h
        simp [setField, field, List.lookup_cons, h, hne]
    · by_cases h : key' = k
      · subst h
        simp [setField, field, hk]
      · have hne : (key' == k) = false := by simpa using h
        simp [setField, field, hk, List.lookup_cons, hne, ih]

namespace PolicyEngine

/-- One improvement of a risk table. -/
inductive TableStep : JsonObject → JsonObject → Prop
  | approve {table algos record : JsonObject} {id : PyStr}
    (algorithms : Json.field table "algorithms" = some (.obj algos))
    (listed : Json.field algos id = some (.obj record))
    (deprecated : Json.field record "status" = some (.str "deprecated")) :
    TableStep table (Json.setField table "algorithms" (.obj (Json.setField algos id
      (.obj (Json.setField record "status" (.str "approved"))))))
  | quantumSafe {table algos record : JsonObject} {id : PyStr}
    (algorithms : Json.field table "algorithms" = some (.obj algos))
    (listed : Json.field algos id = some (.obj record))
    (unsafe_ : Json.field record "quantum_safe" = some (.bool false)) :
    TableStep table (Json.setField table "algorithms" (.obj (Json.setField algos id
      (.obj (Json.setField record "quantum_safe" (.bool true))))))
  | add {table algos : JsonObject} {id : PyStr} {value : Json}
    (algorithms : Json.field table "algorithms" = some (.obj algos))
    (unlisted : Json.field algos id = none) :
    TableStep table (Json.setField table "algorithms" (.obj (Json.setField algos id value)))

/-- The second reading of a record says at least as much for the algorithm as the first. -/
def RecordLE (r r' : Option (Status × Bool)) : Prop :=
  ∀ status qs, r = some (status, qs) → ∃ status' qs', r' = some (status', qs') ∧
    (status = .approved → status' = .approved) ∧ (qs = true → qs' = true)

theorem RecordLE.refl (r : Option (Status × Bool)) : RecordLE r r :=
  fun status qs h => ⟨status, qs, h, id, id⟩

theorem RecordLE.trans {r r' r'' : Option (Status × Bool)} (h : RecordLE r r')
    (h' : RecordLE r' r'') : RecordLE r r'' := by
  intro status qs hr
  obtain ⟨status', qs', hr', hst, hqs⟩ := h status qs hr
  obtain ⟨status'', qs'', hr'', hst', hqs'⟩ := h' status' qs' hr'
  exact ⟨status'', qs'', hr'', hst' ∘ hst, hqs' ∘ hqs⟩

/-- A table that says at least as much for every algorithm. -/
def TableLE (table table' : JsonObject) : Prop :=
  ∀ id, RecordLE (record ⟨table⟩ id) (record ⟨table'⟩ id)

/-- A table with one entry set differs in the reading of that entry only. -/
theorem record_setField {table algos : JsonObject}
    (halgos : Json.field table "algorithms" = some (.obj algos)) (id id' : PyStr) (value : Json) :
    record ⟨Json.setField table "algorithms" (.obj (Json.setField algos id value))⟩ id' =
      if id' = id then recordOf (Json.setField algos id value) id else record ⟨table⟩ id' := by
  have hset : Json.field (Json.setField table "algorithms" (.obj (Json.setField algos id value)))
      "algorithms" = some (.obj (Json.setField algos id value)) := by
    rw [Json.field_setField, if_pos rfl]
  rw [record_of_algorithms hset]
  by_cases h : id' = id
  · rw [if_pos h, h]
  · rw [if_neg h, record_of_algorithms halgos]
    simp only [recordOf, Json.field_setField, if_neg h]

/-- An entry that says at least as much makes a table that does. -/
theorem TableLE.of_entry {table algos : JsonObject} {id : PyStr} {value : Json}
    (halgos : Json.field table "algorithms" = some (.obj algos))
    (hentry : RecordLE (recordOf algos id) (recordOf (Json.setField algos id value) id)) :
    TableLE table (Json.setField table "algorithms" (.obj (Json.setField algos id value))) := by
  intro id'
  rw [record_setField halgos]
  by_cases hid : id' = id
  · subst hid
    rw [if_pos rfl, record_of_algorithms halgos]
    exact hentry
  · rw [if_neg hid]
    exact RecordLE.refl _

/-- The reading of an entry that was set. -/
theorem recordOf_setField {algos record : JsonObject} {id : PyStr} {status : Status} {qs : Bool}
    (hstatus : Json.field record "status" = some (.str status.text))
    (hqs : Json.field record "quantum_safe" = some (.bool qs)) :
    recordOf (Json.setField algos id (.obj record)) id = some (status, qs) := by
  have hset : Json.field (Json.setField algos id (.obj record)) id = some (.obj record) := by
    rw [Json.field_setField, if_pos rfl]
  exact recordOf_eq_some.mpr ⟨record, hset, hstatus, hqs⟩

theorem TableStep.le {table table' : JsonObject} (h : TableStep table table') :
    TableLE table table' := by
  cases h with
  | @approve algos record id halgos hlisted hstatus =>
    apply TableLE.of_entry halgos
    intro status qs hr
    obtain ⟨record', hrecord, -, hqs⟩ := recordOf_eq_some.mp hr
    rw [hlisted] at hrecord
    cases hrecord
    have hnew : recordOf (Json.setField algos id (.obj (Json.setField record "status"
        (.str "approved")))) id = some (.approved, qs) := by
      apply recordOf_setField
      · rw [Json.field_setField, if_pos rfl]
        rfl
      · rw [Json.field_setField, if_neg (by decide)]
        exact hqs
    exact ⟨.approved, qs, hnew, fun _ => rfl, fun hq => hq⟩
  | @quantumSafe algos record id halgos hlisted hunsafe =>
    apply TableLE.of_entry halgos
    intro status qs hr
    obtain ⟨record', hrecord, hstatus, -⟩ := recordOf_eq_some.mp hr
    rw [hlisted] at hrecord
    cases hrecord
    have hnew : recordOf (Json.setField algos id (.obj (Json.setField record "quantum_safe"
        (.bool true)))) id = some (status, true) := by
      apply recordOf_setField
      · rw [Json.field_setField, if_neg (by decide)]
        exact hstatus
      · rw [Json.field_setField, if_pos rfl]
    exact ⟨status, true, hnew, fun ha => ha, fun _ => rfl⟩
  | @add algos id value halgos hunlisted =>
    apply TableLE.of_entry halgos
    intro status qs hr
    obtain ⟨record', hrecord, -⟩ := recordOf_eq_some.mp hr
    rw [hunlisted] at hrecord
    cases hrecord

theorem TableLE.of_steps {table table' : JsonObject}
    (h : Relation.ReflTransGen TableStep table table') : TableLE table table' := by
  induction h with
  | refl => exact fun id => RecordLE.refl _
  | tail _ hstep ih => exact fun id => (ih id).trans (hstep.le id)

/-- The same source, at least as available. -/
def SourceLE (s s' : Source H) : Prop :=
  s' = { s with isAvailable := s'.isAvailable } ∧ (s.isAvailable = true → s'.isAvailable = true)

/-- The same profile, over sources that are at least as available. -/
structure ProfileLE (p p' : SecurityProfile H) : Prop where
  profileId : p'.profileId = p.profileId
  strengthLevel : p'.strengthLevel = p.strengthLevel
  sources : List.Forall₂ SourceLE p.sources p'.sources

/-- The same profiles, over sources that are at least as available. -/
def RegistryLE (profiles profiles' : Registry H) : Prop :=
  ∀ id p, profiles.lookup id = some p → ∃ p', profiles'.lookup id = some p' ∧ ProfileLE p p'

theorem SourceLE.algorithmId {s s' : Source H} (h : SourceLE s s') :
    s'.algorithmId = s.algorithmId := by
  rw [h.1]

theorem forall₂_right {α β : Type} {R : α → β → Prop} {as : List α} {bs : List β}
    (h : List.Forall₂ R as bs) {b : β} (hb : b ∈ bs) : ∃ a ∈ as, R a b := by
  induction h with
  | nil => cases hb
  | cons hab _ ih =>
    rcases List.mem_cons.mp hb with heq | hrest
    · subst heq
      exact ⟨_, List.mem_cons_self, hab⟩
    · obtain ⟨a, ha, hr⟩ := ih hrest
      exact ⟨a, List.mem_cons_of_mem _ ha, hr⟩

theorem forall₂_left {α β : Type} {R : α → β → Prop} {as : List α} {bs : List β}
    (h : List.Forall₂ R as bs) {a : α} (ha : a ∈ as) : ∃ b ∈ bs, R a b :=
  forall₂_right (List.Forall₂.flip h) ha

section Monotone

variable {engine engine' : PolicyEngine} {p p' : SecurityProfile H} {requireQs : Bool}

theorem TableLE.lists (ht : TableLE engine.riskTable engine'.riskTable) {id : PyStr}
    {status : Status} {qs : Bool} (h : engine.Lists id status qs) :
    ∃ status' qs', engine'.Lists id status' qs' ∧ (status = .approved → status' = .approved) ∧
      (qs = true → qs' = true) := by
  obtain ⟨status', qs', hr, hst, hqs⟩ := ht id status qs (record_eq_some.mpr h)
  exact ⟨status', qs', record_eq_some.mp hr, hst, hqs⟩

/-- A profile that qualifies does so in a better situation. -/
theorem Qualifies.mono (h : engine.Qualifies p requireQs)
    (ht : TableLE engine.riskTable engine'.riskTable) (hp : ProfileLE p p') :
    engine'.Qualifies p' requireQs := by
  refine ⟨?_, ?_, ?_, ?_⟩
  · intro s' hs'
    obtain ⟨s, hs, hle⟩ := forall₂_right hp.sources hs'
    exact hle.2 (h.available s hs)
  · intro s' hs'
    obtain ⟨s, hs, hle⟩ := forall₂_right hp.sources hs'
    obtain ⟨status, qs, hl⟩ := h.listed s hs
    obtain ⟨status', qs', hl', -, -⟩ := ht.lists hl
    rw [hle.algorithmId]
    exact ⟨status', qs', hl'⟩
  · obtain ⟨s, hs, qs, hl⟩ := h.approved
    obtain ⟨s', hs', hle⟩ := forall₂_left hp.sources hs
    obtain ⟨status', qs', hl', hst, -⟩ := ht.lists hl
    rw [hst rfl] at hl'
    exact ⟨s', hs', qs', by rw [hle.algorithmId]; exact hl'⟩
  · intro hreq
    obtain ⟨s, hs, status, hl⟩ := h.quantumSafe hreq
    obtain ⟨s', hs', hle⟩ := forall₂_left hp.sources hs
    obtain ⟨status', qs', hl', -, hqs⟩ := ht.lists hl
    rw [hqs rfl] at hl'
    exact ⟨s', hs', status', by rw [hle.algorithmId]; exact hl'⟩

/-- A profile of approved components has approved components in a better situation. -/
theorem HasDeprecated.mono (hq : engine.Qualifies p requireQs)
    (ht : TableLE engine.riskTable engine'.riskTable) (hp : ProfileLE p p')
    (h : engine'.HasDeprecated p') : engine.HasDeprecated p := by
  obtain ⟨s', hs', qs', hl'⟩ := h
  obtain ⟨s, hs, hle⟩ := forall₂_right hp.sources hs'
  obtain ⟨status, qs, hl⟩ := hq.listed s hs
  cases status with
  | deprecated => exact ⟨s, hs, qs, hl⟩
  | approved =>
    obtain ⟨status'', qs'', hl'', hst, -⟩ := ht.lists hl
    rw [hle.algorithmId] at hl'
    have heq := (record_eq_some.mpr hl').symm.trans (record_eq_some.mpr hl'')
    rw [hst rfl] at heq
    cases heq

end Monotone

/-- In a better situation `decide` succeeds where it did, chooses no later candidate, and keeps a
decision that was not degraded. -/
theorem decide_monotone {H : Type} (engine engine' : PolicyEngine)
    (htable : Relation.ReflTransGen TableStep engine.riskTable engine'.riskTable)
    (profiles profiles' : Registry H) (hsources : RegistryLE profiles profiles')
    (constraint : Constraint) (requireQs : Bool)
    (hreg : ∀ id ∈ candidateOrder constraint, ∃ p, profiles.lookup id = some p)
    (d : PolicyDecision H) (hd : engine.decide profiles constraint requireQs = .ok d) :
    ∃ (d' : PolicyDecision H) (i i' : Nat), engine'.decide profiles' constraint requireQs = .ok d' ∧
      (candidateOrder constraint)[i]? = some d.minAcceptedProfile ∧
      profiles.lookup d.minAcceptedProfile = some d.profile ∧
      (candidateOrder constraint)[i']? = some d'.minAcceptedProfile ∧
      profiles'.lookup d'.minAcceptedProfile = some d'.profile ∧ i' ≤ i ∧
      (d.degraded = false → i' = i ∧ ProfileLE d.profile d'.profile ∧ d'.degraded = false) := by
  have ht := TableLE.of_steps htable
  have hreg' : ∀ id ∈ candidateOrder constraint, ∃ p, profiles'.lookup id = some p := by
    intro id hid
    obtain ⟨p, hp⟩ := hreg id hid
    obtain ⟨p', hp', -⟩ := hsources id p hp
    exact ⟨p', hp'⟩
  rcases decide_cases engine requireQs hreg with ⟨i, id, p, d₁, hfirst, hd₁, hchosen⟩ | ⟨-, m, hm⟩
  · rw [hd] at hd₁
    cases hd₁
    obtain ⟨p', hlookup', hle⟩ := hsources id p hfirst.registered
    have hqualifies := hfirst.qualifies.mono ht hle
    rcases decide_cases engine' requireQs hreg' with
      ⟨i', id', p₁, d', hfirst', hd', hchosen'⟩ | ⟨hnone, -⟩
    · have hi : i' ≤ i := by
        by_contra hlt
        exact hfirst'.earlier i (by omega) id p' hfirst.place hlookup' hqualifies
      refine ⟨d', i, i', hd', ?_, ?_, ?_, ?_, hi, ?_⟩
      · rw [hchosen.minimum]
        exact hfirst.place
      · rw [hchosen.minimum, hchosen.profile]
        exact hfirst.registered
      · rw [hchosen'.minimum]
        exact hfirst'.place
      · rw [hchosen'.minimum, hchosen'.profile]
        exact hfirst'.registered
      · intro hnot
        obtain ⟨hzero, hclean⟩ := hchosen.degraded.mp hnot
        have hzero' : i' = i := by omega
        have hplace := hfirst'.place
        rw [hzero', hfirst.place] at hplace
        have hid : id = id' := Option.some.inj hplace
        have hregistered := hfirst'.registered
        rw [← hid, hlookup'] at hregistered
        have hp : p' = p₁ := Option.some.inj hregistered
        refine ⟨hzero', ?_, ?_⟩
        · rw [hchosen.profile, hchosen'.profile, ← hp]
          exact hle
        · apply hchosen'.degraded.mpr
          refine ⟨by omega, fun hdeprecated => hclean ?_⟩
          rw [← hp] at hdeprecated
          exact HasDeprecated.mono hfirst.qualifies ht hle hdeprecated
    · have hmem := List.mem_of_getElem? hfirst.place
      exact absurd hqualifies (hnone id hmem p' hlookup')
  · rw [hm] at hd
    cases hd

theorem RegistryLE.refl (profiles : Registry H) : RegistryLE profiles profiles := by
  intro id p h
  refine ⟨p, h, rfl, rfl, ?_⟩
  rw [List.forall₂_same]
  exact fun s _ => ⟨rfl, fun hs => hs⟩

/-- Approving ML-KEM-768 again, where the hybrid profile was chosen before. -/
theorem decide_monotone_mlkem : ∃ (table : JsonObject)
    (d d' : PolicyDecision (PrivateHandle Bytes Bytes)), TableStep deprecatedMlkemTable table ∧
    decide ⟨deprecatedMlkemTable⟩ (profileRegistry xorX25519 xorOqs) .balanced false = .ok d ∧
    decide ⟨table⟩ (profileRegistry xorX25519 xorOqs) .balanced false = .ok d' := by
  have hreg := profileRegistry_candidates xorX25519 xorOqs .balanced
  have hlookup : (profileRegistry xorX25519 xorOqs).lookup (.text "hybrid_standard") =
    some hybridStandard := rfl
  obtain ⟨d, hd, -⟩ := decideFrom_select .balanced "hybrid_standard" hlookup
    hybridStandard_selectable ["hybrid_high", "classical_only"]
  have hdecide : decide ⟨deprecatedMlkemTable⟩ (profileRegistry xorX25519 xorOqs) .balanced false =
    .ok d := hd
  obtain ⟨table, hstep⟩ : ∃ table, TableStep deprecatedMlkemTable table :=
    ⟨_, @TableStep.approve deprecatedMlkemTable _ _ "mlkem768" rfl rfl rfl⟩
  obtain ⟨d', -, -, hd', -⟩ := decide_monotone ⟨deprecatedMlkemTable⟩ ⟨table⟩
    (Relation.ReflTransGen.single hstep) (profileRegistry xorX25519 xorOqs)
    (profileRegistry xorX25519 xorOqs) (RegistryLE.refl _) .balanced false hreg d hdecide
  exact ⟨table, d, d', hstep, hdecide, hd'⟩

end PolicyEngine

end CryptoFlex
