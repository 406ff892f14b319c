import HarnessConformance.Campaign.Assertions

/-! # Campaign runs

The six handlers, the status of a whole report and `run_campaign` of `campaign.py`. A refusal of a control's input
is the result of that control; any other exception leaves the run. -/

namespace HarnessConformance.Campaign
open Lib Lib.Outcome Lib.Lines LinuxReadiness
set_option autoImplicit false

/-! ## Outcomes -/

/-- What a handler returns. -/
structure Outcome where
  status : ResultStatus
  reason : String
  detail : Json

/-- `FAIL` with the reason of a refusal as its detail. -/
def Outcome.refused (reason : String) : Outcome := ⟨.fail, reason, .obj [("valid", .bool false), ("reason", .str reason)]⟩

/-- `try: …; except ConformanceError as exc: return refused(exc.reason)` -/
def onRefusal {α : Type} (refused : String → Outcome) (done : α → Outcome) : Py α → Py Outcome
  | .ok a => .ok (done a)
  | .error (.conformance reason _) => .ok (refused reason)
  | .error e => .error e

/-! ## Handlers -/

/-- `data.get(key, default)` -/
def getOr (members : Json.Members) (key : String) (default : Json) : Json := (members.lookup key).getD default

/-- `_static(control, environment)`, on the input of the control. -/
def static (input : Json) : Py Outcome := do
  let data ← requireObject input "static assertion"
  closedWith input ["actual", "expected"] ["applicable", "severity"]
  if getOr data "applicable" (.bool true) = .bool false then
    pure ⟨.notApplicable, "CONTROL_NOT_APPLICABLE", .obj [("applicable", .bool false)]⟩
  else if pyEq (← item input "actual") (← item input "expected") then
    pure ⟨.pass, "ASSERTION_MATCHED", .obj [("matched", .bool true)]⟩
  else if getOr data "severity" (.str "REQUIRED") = .str "ADVISORY" then
    pure ⟨.warn, "ADVISORY_ASSERTION_MISMATCH", .obj [("matched", .bool false)]⟩
  else pure ⟨.fail, "ASSERTION_MISMATCH", .obj [("matched", .bool false)]⟩

/-- `_schema(control, environment)` -/
def schema [Runtime] (input : Json) : Py Outcome := do
  let _ ← requireObject input "schema assertion"
  closed input ["kind", "document"]
  let kind ← item input "kind"
  let document ← item input "document"
  onRefusal Outcome.refused (fun _ => ⟨.pass, "SCHEMA_VALID", .obj [("valid", .bool true)]⟩) (validate kind document)

/-- `_lifecycle(control, environment)` -/
def lifecycle (input : Json) : Py Outcome := do
  let _ ← requireObject input "lifecycle assertion"
  closed input ["entity", "fromState", "toState"]
  let entity ← item input "entity"
  let fromState ← item input "fromState"
  let toState ← item input "toState"
  onRefusal (fun reason => ⟨.fail, reason, .obj [("legal", .bool false)]⟩)
    (fun _ => ⟨.pass, "TRANSITION_LEGAL", .obj [("legal", .bool true)]⟩) (assertTransition entity fromState toState)

/-- `_event(control, environment)` -/
def event (input : Json) : Py Outcome := do
  let _ ← requireObject input "event assertion"
  closed input ["event"]
  let document ← item input "event"
  onRefusal Outcome.refused (fun _ => ⟨.pass, "EVENT_VALID", .obj [("valid", .bool true)]⟩) (validateEvent document)

/-- `_capability(control, environment)` -/
def capability (environment input : Json) : Py Outcome := do
  let _ ← requireObject input "environment capability"
  closed input ["capability", "expected"]
  let name ← requireText (.conformance "INVALID_CAPABILITY_ASSERTION" "capability assertion is malformed") (fun _ => true)
    (← item input "capability")
  let expected ← item input "expected"
  conform "INVALID_CAPABILITY_ASSERTION" "capability assertion is malformed"
    (pyEq expected (.bool true) || pyEq expected (.bool false))
  let actual ← getItem (← item environment "capabilities") name.text
  if actual = .null then
    pure ⟨.notRunEnvUnavailable, "ENVIRONMENT_CAPABILITY_UNAVAILABLE", .obj [("available", .bool false)]⟩
  else if pyEq actual expected then
    pure ⟨.pass, "ENVIRONMENT_CAPABILITY_MATCHED", .obj [("available", .bool true), ("matched", .bool true)]⟩
  else pure ⟨.fail, "ENVIRONMENT_CAPABILITY_MISMATCH", .obj [("available", .bool true), ("matched", .bool false)]⟩

/-- `linux_runtime_availability()`, as its status and reason. -/
def linuxRuntimeAvailability : String × String := ("NOT_RUN_ENV_UNAVAILABLE", "LINUX_LIVE_BACKEND_UNAVAILABLE")

/-- `evaluate_control(control, environment)` -/
def evaluateControl (input : Json) : Py Outcome := do
  validateControlInput input
  let (status, reason) := linuxRuntimeAvailability
  pure ⟨.notRunEnvUnavailable, reason, .obj
    [("architecture", ← item input "architecture"), ("caseId", ← item input "caseId"), ("nativeAcceptance", .bool false),
      ("availability", .str status)]⟩

/-- `HANDLERS[handler](control, environment)` -/
def handle [Runtime] (environment : Json) : Handler → Json → Py Outcome
  | .staticAssertion => static
  | .schemaAssertion => schema
  | .lifecycleAssertion => lifecycle
  | .eventAssertion => event
  | .environmentCapability => capability environment
  | .linuxReadiness => evaluateControl

/-! ## Results -/

/-- `ControlResult` -/
structure ControlResult where
  controlId : Json
  handler : Json
  required : Json
  axis : Json
  status : ResultStatus
  reasonCode : String
  observationDigest : Digest

/-- `as_dict()` -/
def ControlResult.asDict (r : ControlResult) : Json :=
  .obj [("axis", r.axis), ("controlId", r.controlId), ("handler", r.handler), ("observationDigest", .str r.observationDigest.text),
    ("reasonCode", .str r.reasonCode), ("required", r.required), ("status", .str r.status.name)]

/-- `result.required` counts as true. -/
def ControlResult.isRequired (r : ControlResult) : Bool := r.required = .bool true

/-- `_overall(results)` -/
def overall (results : List ControlResult) : ResultStatus :=
  let required := results.filter ControlResult.isRequired
  if results.any (·.status = .fail) then .fail
  else if required.any (·.status = .notRunEnvUnavailable) then .notRunEnvUnavailable
  else if required.any (·.status ≠ .pass) then .warn
  else if results.any fun r => r.status = .warn ∨ r.status = .notRunEnvUnavailable then .warn
  else if results ≠ [] ∧ results.all (·.status = .notApplicable) then .notApplicable
  else .pass

variable [Runtime]

/-- `_observation(control_id, status, reason, detail)` -/
def observation (controlId : Json) (outcome : Outcome) : Py Digest :=
  canonicalDigest (.obj [("controlId", controlId), ("detail", outcome.detail), ("reasonCode", .str outcome.reason),
    ("status", .str outcome.status.name)]) (some "planeon.harness-conformance-observation/v1alpha1")

/-- One round of the loop over the controls. -/
def runControl (environment control : Json) : Py ControlResult := do
  let handler ← item control "handler"
  match Handler.ofJson? handler with
  | none => .error (.keyError "handler")
  | some h =>
    let outcome ← onRefusal Outcome.refused id (do handle environment h (← item control "input"))
    let controlId ← item control "controlId"
    let digest ← observation controlId outcome
    pure ⟨controlId, handler, ← item control "required", ← item control "axis", outcome.status, outcome.reason, digest⟩

/-- The report without its digest. -/
def reportBody (campaign environment : Json) (runId observedAt : String) (results : List ControlResult) : Py Json.Members := do
  pure [("schemaVersion", .str "harness.planeon.ai/campaign-report/v1alpha1"), ("campaignId", ← item campaign "campaignId"),
    ("campaignVersion", ← item campaign "version"), ("environmentId", ← item environment "environmentId"),
    ("executionClass", ← item campaign "executionClass"), ("observedAt", .str observedAt),
    ("results", .arr (results.map ControlResult.asDict)), ("runId", .str runId), ("status", .str (overall results).name),
    ("tenantId", ← item environment "tenantId")]

/-- The controls of a validated campaign. -/
def controlsOf (campaign : Json) : Py (List Json) := do iterate (← item campaign "controls")

/-- The results of a run and its report. -/
def runResults (campaign environment : Json) : Py (List ControlResult) := do
  (← controlsOf campaign).mapM (runControl environment)

/-- `run_campaign(campaign, environment, run_id=…, observed_at=…)` -/
def runCampaign (campaign environment : Json) (runId observedAt : String) : Py Json := do
  let campaign ← validateCampaign campaign
  let environment ← validateEnvironment environment
  let results ← runResults campaign environment
  let body ← reportBody campaign environment runId observedAt results
  let digest ← canonicalDigest (.obj body) (some "planeon.harness-conformance-report/v1alpha1")
  pure (.obj (body ++ [("reportDigest", .str digest.text)]))

end HarnessConformance.Campaign
