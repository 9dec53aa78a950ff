import CryptoFlex.Policy.Engine
import Mathlib.Tactic.Cases

namespace CryptoFlex.PolicyEngine

variable {H : Type}

def recordOf (algos : JsonObject) (algorithmId : PyStr) : Option (Status × Bool) :=
  match Json.field algos algorithmId with
  | some (.obj record) =>
    match (Json.field record "status").bind Status.ofJson, Json.field record "quantum_safe" with
    | some status, some (.bool qs) => some (status, qs)
    | _, _ => none
  | _ => none

/-- The engine's view of an algorithm: its status and quantum safety, where the table has both. -/
def record (engine : PolicyEngine) (algorithmId : PyStr) : Option (Status × Bool) :=
  match Json.field engine.riskTable "algorithms" with
  | some (.obj algos) => recordOf algos algorithmId
  | _ => none

def Tally.add (t : Tally) (algorithmId : PyStr) (r : Status × Bool) : Tally where
  statuses := t.statuses ++ [r.1]
  isQs := t.isQs || r.2
  deprecatedComponents :=
    if r.1 = .deprecated then t.deprecatedComponents ++ [algorithmId]
    else t.deprecatedComponents

theorem tallySource_eq (algos : JsonObject) (t : Tally) (id : PyStr) :
    tallySource algos t id = (recordOf algos id).map (t.add id) := by
  unfold tallySource recordOf
  cases Json.field algos id with
  | none => rfl
  | some v =>
    cases v with
    | obj record =>
      dsimp only
      cases (Json.field record "status").bind Status.ofJson with
      | none => rfl
      | some status =>
        cases Json.field record "quantum_safe" with
        | none => rfl
        | some q =>
          cases q with
          | bool b => cases b <;> simp [Tally.add]
          | _ => rfl
    | _ => rfl

def isDeprecated (algos : JsonObject) (algorithmId : PyStr) : Bool :=
  match recordOf algos algorithmId with
  | some (.deprecated, _) => true
  | _ => false

/-- What the loop has collected once every source had a record. -/
def tallyOf (algos : JsonObject) (t : Tally) (ids : List PyStr) : Tally where
  statuses := t.statuses ++ (ids.filterMap (recordOf algos)).map Prod.fst
  isQs := t.isQs || (ids.filterMap (recordOf algos)).any Prod.snd
  deprecatedComponents :=
    t.deprecatedComponents ++ ids.filter (isDeprecated algos)

theorem tally_eq (algos : JsonObject) (ids : List PyStr) (t : Tally) :
    ids.foldlM (tallySource algos) t =
      if ids.all (fun id => (recordOf algos id).isSome) then some (tallyOf algos t ids)
      else none := by
  induction ids generalizing t with
  | nil => simp [tallyOf]
  | cons id ids ih =>
    rw [List.foldlM_cons, tallySource_eq]
    cases hr : recordOf algos id with
    | none => simp [hr]
    | some r =>
      have hstep : tallyOf algos (t.add id r) ids = tallyOf algos t (id :: ids) := by
        obtain ⟨status, qs⟩ := r
        cases status <;> simp [tallyOf, Tally.add, isDeprecated, hr, Bool.or_assoc]
      simp [ih, hr, hstep]

/-- A profile passes the table: every source has a record, some source is approved and, where
that is required, some source is quantum safe. -/
structure Accepts (engine : PolicyEngine) (p : SecurityProfile H) (requireQs : Bool) : Prop where
  listed : ∀ s ∈ p.sources, ∃ r, engine.record s.algorithmId = some r
  approved : ∃ s ∈ p.sources, ∃ qs, engine.record s.algorithmId = some (.approved, qs)
  quantumSafe : requireQs = true →
    ∃ s ∈ p.sources, ∃ status, engine.record s.algorithmId = some (status, true)

theorem record_of_algorithms {engine : PolicyEngine} {algos : JsonObject}
    (h : Json.field engine.riskTable "algorithms" = some (.obj algos)) (id : PyStr) :
    engine.record id = recordOf algos id := by
  simp only [record, h]

/-- The statuses of the sources are all deprecated unless some source is approved. -/
theorem statuses_all_deprecated (algos : JsonObject) (ids : List PyStr) :
    ((ids.filterMap (recordOf algos)).map Prod.fst).all (· = .deprecated) = false ↔
      ∃ id ∈ ids, ∃ qs, recordOf algos id = some (.approved, qs) := by
  simp only [List.all_eq_false, List.mem_map, List.mem_filterMap]
  constructor
  · rintro ⟨st, ⟨⟨st', qs⟩, ⟨id, hid, hr⟩, rfl⟩, hne⟩
    cases st' with
    | approved => exact ⟨id, hid, qs, hr⟩
    | deprecated => simp at hne
  · rintro ⟨id, hid, qs, hr⟩
    exact ⟨.approved, ⟨(.approved, qs), ⟨id, hid, hr⟩, rfl⟩, by simp⟩

theorem any_quantumSafe (algos : JsonObject) (ids : List PyStr) :
    (ids.filterMap (recordOf algos)).any Prod.snd = true ↔
      ∃ id ∈ ids, ∃ status, recordOf algos id = some (status, true) := by
  simp only [List.any_eq_true, List.mem_filterMap]
  constructor
  · rintro ⟨⟨st, qs⟩, ⟨id, hid, hr⟩, hq⟩
    dsimp only at hq
    subst hq
    exact ⟨id, hid, st, hr⟩
  · rintro ⟨id, hid, st, hr⟩
    exact ⟨(st, true), ⟨id, hid, hr⟩, rfl⟩

theorem isProfileAcceptable_iff (engine : PolicyEngine) (p : SecurityProfile H)
    (requireQs : Bool) :
    (engine.isProfileAcceptable p requireQs).1 = true ↔ engine.Accepts p requireQs := by
  unfold isProfileAcceptable
  split
  · next algos halgos =>
    have hrec := record_of_algorithms halgos
    have happ := statuses_all_deprecated algos (p.sources.map (·.algorithmId))
    have hqs := any_quantumSafe algos (p.sources.map (·.algorithmId))
    simp only [List.mem_map, exists_exists_and_eq_and] at happ hqs
    rw [tally_eq]
    by_cases hall : (p.sources.map (·.algorithmId)).all (fun id => (recordOf algos id).isSome)
    · rw [if_pos hall]
      simp only [tallyOf, List.nil_append, Bool.false_or]
      have hlisted : ∀ s ∈ p.sources, ∃ r, engine.record s.algorithmId = some r := by
        intro s hs
        simp only [List.all_map, List.all_eq_true, Function.comp_apply] at hall
        rw [hrec]
        exact Option.isSome_iff_exists.mp (hall s hs)
      split_ifs with h1 h2
      · refine ⟨nofun, fun h => ?_⟩
        simp only [Bool.and_eq_true, Bool.not_eq_true'] at h1
        obtain ⟨s, hs, st, hr⟩ := h.quantumSafe h1.1
        rw [hrec] at hr
        rw [hqs.mpr ⟨s, hs, st, hr⟩] at h1
        cases h1.2
      · refine ⟨nofun, fun h => ?_⟩
        obtain ⟨s, hs, qs, hr⟩ := h.approved
        rw [hrec] at hr
        rw [happ.mpr ⟨s, hs, qs, hr⟩] at h2
        cases h2
      all_goals
        refine ⟨fun _ => ⟨hlisted, ?_, fun hreq => ?_⟩, fun _ => rfl⟩
        · obtain ⟨s, hs, qs, hr⟩ := happ.mp (by simpa using h2)
          exact ⟨s, hs, qs, by rw [hrec]; exact hr⟩
        · rw [hreq] at h1
          obtain ⟨s, hs, st, hr⟩ := hqs.mp (by simpa using h1)
          exact ⟨s, hs, st, by rw [hrec]; exact hr⟩
    · rw [if_neg hall]
      refine ⟨nofun, fun h => absurd ?_ hall⟩
      simp only [List.all_map, List.all_eq_true, Function.comp_apply]
      intro s hs
      obtain ⟨r, hr⟩ := h.listed s hs
      rw [hrec] at hr
      simp [hr]
  · next hno =>
    refine ⟨nofun, fun h => ?_⟩
    obtain ⟨s, hs, qs, hr⟩ := h.approved
    unfold record at hr
    split at hr
    · next algos h' => exact absurd h' (hno algos)
    · cases hr

/-- The candidates the loop takes: available and accepted by the table. -/
def Selectable (engine : PolicyEngine) (p : SecurityProfile H) (requireQs : Bool) : Prop :=
  p.isAvailable = true ∧ engine.Accepts p requireQs

theorem decideFrom_missing (engine : PolicyEngine) {profiles : Registry H}
    (constraint : Constraint) (requireQs : Bool) (idealId : PyStr) {id : PyStr}
    (h : profiles.lookup id = none) (rest : List PyStr) :
    engine.decideFrom profiles constraint requireQs idealId (id :: rest) = .error .keyError := by
  rw [decideFrom, h]

theorem decideFrom_skip {engine : PolicyEngine} {profiles : Registry H}
    (constraint : Constraint) {requireQs : Bool} (idealId : PyStr) {id : PyStr}
    {p : SecurityProfile H} (h : profiles.lookup id = some p)
    (hs : ¬engine.Selectable p requireQs) (rest : List PyStr) :
    engine.decideFrom profiles constraint requireQs idealId (id :: rest) =
      engine.decideFrom profiles constraint requireQs idealId rest := by
  rw [decideFrom, h]
  dsimp only
  by_cases ha : p.isAvailable = true
  · have hacc : (engine.isProfileAcceptable p requireQs).1 = false := by
      rw [Bool.eq_false_iff]
      exact fun hacc => hs ⟨ha, (isProfileAcceptable_iff engine p requireQs).mp hacc⟩
    rw [if_neg (by simp [ha]), if_pos (by simp [hacc])]
  · rw [if_pos (by simpa using ha)]

theorem decideFrom_select {engine : PolicyEngine} {profiles : Registry H}
    (constraint : Constraint) {requireQs : Bool} (idealId : PyStr) {id : PyStr}
    {p : SecurityProfile H} (h : profiles.lookup id = some p)
    (hs : engine.Selectable p requireQs) (rest : List PyStr) :
    ∃ d, engine.decideFrom profiles constraint requireQs idealId (id :: rest) = .ok d ∧
      d.profile = p := by
  rw [decideFrom, h]
  dsimp only
  rw [if_neg (by simp [hs.1]),
    if_neg (by simp [(isProfileAcceptable_iff engine p requireQs).mpr hs.2])]
  exact ⟨_, rfl, rfl⟩

/-- A decision is for a registered profile. -/
theorem decideFrom_registered {engine : PolicyEngine} {profiles : Registry H}
    {constraint : Constraint} {requireQs : Bool} {idealId : PyStr} {candidates : List PyStr}
    {d : PolicyDecision H}
    (h : engine.decideFrom profiles constraint requireQs idealId candidates = .ok d) :
    ∃ id, profiles.lookup id = some d.profile := by
  induction candidates with
  | nil => cases h
  | cons id rest ih =>
    cases hl : profiles.lookup id with
    | none =>
      rw [decideFrom_missing engine constraint requireQs idealId hl] at h
      cases h
    | some p =>
      by_cases hs : engine.Selectable p requireQs
      · obtain ⟨d', hd, hp⟩ := decideFrom_select constraint idealId hl hs rest
        rw [hd] at h
        cases h
        exact ⟨id, by rw [hp]; exact hl⟩
      · rw [decideFrom_skip constraint idealId hl hs] at h
        exact ih h

theorem decide_registered {engine : PolicyEngine} {profiles : Registry H}
    {constraint : Constraint} {requireQs : Bool} {d : PolicyDecision H}
    (h : engine.decide profiles constraint requireQs = .ok d) :
    ∃ id, profiles.lookup id = some d.profile :=
  decideFrom_registered h

end CryptoFlex.PolicyEngine
