import CryptoFlex.Json.Value
import CryptoFlex.Profiles

namespace CryptoFlex

variable {H : Type}

inductive Constraint
  | fast
  | balanced
  | maxSecurity
  deriving DecidableEq

def Constraint.value : Constraint → String
  | fast => "fast"
  | balanced => "balanced"
  | maxSecurity => "max_security"

structure PolicyDecision (H : Type) where
  profile : SecurityProfile H
  reason : String
  degraded : Bool
  minAcceptedProfile : PyStr

/-- `PolicyDecision(...)` with its `__post_init__`. -/
def policyDecision (profile : SecurityProfile H) (reason : String) (degraded : Bool)
    (minAcceptedProfile : PyStr) : PolicyDecision H :=
  { profile, reason, degraded
    minAcceptedProfile :=
      if minAcceptedProfile.isEmpty then profile.profileId else minAcceptedProfile }

/-- The two accepted values of a record's `status`. -/
inductive Status
  | approved
  | deprecated
  deriving DecidableEq

/-- `status in ("approved", "deprecated")`. -/
def Status.ofJson : Json → Option Status
  | .str s =>
    if s = .text "approved" then some approved
    else if s = .text "deprecated" then some deprecated
    else none
  | _ => none

structure PolicyEngine where
  riskTable : JsonObject

namespace PolicyEngine

def validateRecord (algoId : PyStr) (record : Json) : Except Exc Unit :=
  match record with
  | .obj record =>
    match Json.field record "status" with
    | none => .error (.valueError s!"Algorithm '{algoId}' missing required 'status' field.")
    | some status =>
      if Status.ofJson status = none then
        .error (.valueError s!"Algorithm '{algoId}' has invalid status '{status}'.") else
      match Json.field record "quantum_safe" with
      | none =>
        .error (.valueError s!"Algorithm '{algoId}' missing required 'quantum_safe' field.")
      | some (.bool _) =>
        match Json.field record "notes" with
        | none | some (.str _) => .ok ()
        | some _ =>
          .error (.valueError s!"Algorithm '{algoId}' notes must be a string if present.")
      | some _ => .error (.valueError s!"Algorithm '{algoId}' quantum_safe must be boolean.")
  | _ => .error (.valueError s!"Algorithm entry '{algoId}' must be an object.")

def validateRecords : JsonObject → Except Exc Unit
  | [] => .ok ()
  | (algoId, record) :: rest => do
    validateRecord algoId record
    validateRecords rest

/-- A field that has to be a string where it is present. -/
def validateText (table : JsonObject) (key : PyStr) (msg : String) : Except Exc Unit :=
  match Json.field table key with
  | none | some (.str _) => .ok ()
  | some _ => .error (.valueError msg)

def validateRiskTable (riskTable : Json) : Except Exc JsonObject :=
  match riskTable with
  | .obj table =>
    match Json.field table "algorithms" with
    | none => .error (.valueError "Risk table missing required 'algorithms' field.")
    | some (.obj algos) => do
      validateText table "table_version" "'table_version' must be a string."
      validateText table "note" "'note' must be a string if present."
      validateRecords algos
      return table
    | some _ => .error (.valueError "'algorithms' must be a dictionary object (dict).")
  | _ => .error (.valueError "Risk table must be a dictionary object (dict).")

/-- `PolicyEngine(risk_table)`. -/
def init (riskTable : Json) : Except Exc PolicyEngine := do
  let table ← validateRiskTable riskTable
  return { riskTable := table }

/-- The variables of the loop over a profile's sources. -/
structure Tally where
  statuses : List Status := []
  isQs : Bool := false
  deprecatedComponents : List PyStr := []

/-- One source's record added to the tally; `none` is the loop's `return False, False, ""`. -/
def tallySource (algos : JsonObject) (t : Tally) (algorithmId : PyStr) : Option Tally :=
  match Json.field algos algorithmId with
  | some (.obj record) =>
    match (Json.field record "status").bind Status.ofJson with
    | none => none
    | some status =>
      let t := { t with
        statuses := t.statuses ++ [status]
        deprecatedComponents :=
          if status = .deprecated then t.deprecatedComponents ++ [algorithmId]
          else t.deprecatedComponents }
      match Json.field record "quantum_safe" with
      | some (.bool true) => some { t with isQs := true }
      | some (.bool false) => some t
      | _ => none
  | _ => none

def isProfileAcceptable (engine : PolicyEngine) (profile : SecurityProfile H)
    (requireQuantumSafe : Bool) : Bool × Bool × String :=
  match Json.field engine.riskTable "algorithms" with
  | some (.obj algos) =>
    match (profile.sources.map (·.algorithmId)).foldlM (tallySource algos) {} with
    | none => (false, false, "")
    | some t =>
      if requireQuantumSafe && !t.isQs then (false, false, "") else
      -- also refuses a profile without sources: Python's all() of nothing is True
      if t.statuses.all (· = .deprecated) then (false, false, "") else
      let isDegraded := decide (t.deprecatedComponents ≠ [])
      let reason :=
        if isDegraded then
          "contains deprecated component(s): " ++
            ", ".intercalate (t.deprecatedComponents.map PyStr.display)
        else ""
      (true, isDegraded, reason)
  | _ => (false, false, "")

def candidateOrder (constraint : Constraint) : List PyStr :=
  match constraint with
  | .fast => ["classical_only", "hybrid_standard", "hybrid_high"]
  | .maxSecurity => ["hybrid_high", "hybrid_standard", "classical_only"]
  | .balanced => ["hybrid_standard", "hybrid_high", "classical_only"]

def decisionReason (constraint : Constraint) (profileId idealId : PyStr) (mixedDegraded : Bool)
    (mixedReason : String) : String :=
  let reasonParts := [s!"selected '{profileId}' for constraint={constraint.value}"]
  let reasonParts :=
    if profileId ≠ idealId then
      reasonParts ++ [s!"(fell back from '{idealId}': unavailable or deprecated)"]
    else reasonParts
  let reasonParts :=
    if mixedDegraded then reasonParts ++ [s!"(degraded: {mixedReason})"] else reasonParts
  " ".intercalate reasonParts

/-- The candidate loop of `decide`. -/
def decideFrom (engine : PolicyEngine) (profiles : Registry H) (constraint : Constraint)
    (requireQuantumSafe : Bool) (idealId : PyStr) :
    List PyStr → Except Exc (PolicyDecision H)
  | [] =>
    let required := if requireQuantumSafe then "True" else "False"
    .error (.runtimeError ("No acceptable security profile available: all candidates were " ++
      "either unavailable on this machine or deprecated by the risk " ++
      s!"table (require_quantum_safe={required}). " ++
      "This is a hard stop, not a silent fallback to weak crypto."))
  | profileId :: rest =>
    match profiles.lookup profileId with
    | none => .error .keyError
    | some profile =>
      if !profile.isAvailable then
        decideFrom engine profiles constraint requireQuantumSafe idealId rest else
      let (acceptable, mixedDegraded, mixedReason) :=
        engine.isProfileAcceptable profile requireQuantumSafe
      if !acceptable then
        decideFrom engine profiles constraint requireQuantumSafe idealId rest else
      let degraded := profileId ≠ idealId || mixedDegraded
      .ok (policyDecision profile
        (decisionReason constraint profileId idealId mixedDegraded mixedReason)
        degraded profileId)

def decide (engine : PolicyEngine) (profiles : Registry H) (constraint : Constraint)
    (requireQuantumSafe : Bool) : Except Exc (PolicyDecision H) :=
  let candidates := candidateOrder constraint
  engine.decideFrom profiles constraint requireQuantumSafe (candidates.headD "") candidates

end PolicyEngine

end CryptoFlex
