import HarnessConformance.Lib.Splitting
import HarnessConformance.Campaign.IsoTime
import HarnessConformance.LinuxReadiness.CaseRecord

/-! # Documents

The validators of `schema.py` for environment intakes, campaigns, control results and porting ledgers, with
the part of `linux_readiness.py` that a campaign reaches. -/

namespace HarnessConformance.Campaign
open Lib Lib.Outcome Lib.Lines LinuxReadiness
set_option autoImplicit false

/-! ## Enumerations -/

/-- `EVIDENCE_AXES` -/
def evidenceAxes : List String :=
  ["SOURCE", "UNIT", "CI", "MERGE", "ARTIFACT", "SIGNATURE", "DEPLOYMENT", "RUNTIME", "SECURITY", "ASSURANCE",
    "TENANT_ACCEPTANCE_CANDIDATE", "TENANT_ACCEPTANCE"]

/-- `LIVE_EVIDENCE_AXES` -/
def liveEvidenceAxes : List String := ["DEPLOYMENT", "RUNTIME", "SECURITY", "ASSURANCE", "TENANT_ACCEPTANCE_CANDIDATE"]

/-- `HANDLERS` -/
inductive Handler where
  | staticAssertion
  | schemaAssertion
  | lifecycleAssertion
  | eventAssertion
  | environmentCapability
  | linuxReadiness
  deriving DecidableEq

namespace Handler

def name : Handler → String
  | staticAssertion => "STATIC_ASSERTION"
  | schemaAssertion => "SCHEMA_ASSERTION"
  | lifecycleAssertion => "LIFECYCLE_ASSERTION"
  | eventAssertion => "EVENT_ASSERTION"
  | environmentCapability => "ENVIRONMENT_CAPABILITY"
  | linuxReadiness => "LINUX_READINESS"

def all : List Handler :=
  [staticAssertion, schemaAssertion, lifecycleAssertion, eventAssertion, environmentCapability, linuxReadiness]

/-- The handler that a value names. -/
def ofJson? (value : Json) : Option Handler := all.find? fun h => value = .str h.name

theorem ofJson?_eq_some {value : Json} {h : Handler} : ofJson? value = some h ↔ value = .str h.name := by
  constructor
  · intro hfound
    simpa using List.find?_some hfound
  · rintro rfl
    cases h <;> decide

end Handler

inductive ResultStatus where
  | pass
  | fail
  | warn
  | notApplicable
  | notRunEnvUnavailable
  deriving DecidableEq

namespace ResultStatus

def name : ResultStatus → String
  | pass => "PASS"
  | fail => "FAIL"
  | warn => "WARN"
  | notApplicable => "NOT_APPLICABLE"
  | notRunEnvUnavailable => "NOT_RUN_ENV_UNAVAILABLE"

theorem name_injective {s t : ResultStatus} (h : s.name = t.name) : s = t := by
  revert h
  cases s <;> cases t <;> decide

end ResultStatus

/-- `RESULT_STATES` -/
def resultStates : List String := ["PASS", "FAIL", "WARN", "NOT_APPLICABLE", "NOT_RUN_ENV_UNAVAILABLE"]

/-! ## Text -/

/-- `KEY_ID` -/
def keyIdPattern : Regex :=
  .seq (.one Char.isAlphanum)
    (.between (.one fun c => c.isAlphanum || c == '.' || c == '_' || c == ':' || c == '-') 0 127)

abbrev KeyId := Text keyIdPattern.fullmatch

/-- `require_key_id(value, name)` -/
def requireKeyId (value : Json) (name : String) : Py KeyId :=
  requireText (.conformance "INVALID_KEY_ID" (name ++ " is not a bounded key identifier")) _ value

/-- `text.lower()`, as far as ASCII letters come out of it: the Kelvin sign and the capital I with a dot have some. -/
def lowerChar (c : Char) : List Char :=
  if c = '\u212a' then ['k'] else if c = '\u0130' then ['i', '\u0307'] else [c.toLower]

def lower (text : String) : List Char := text.toList.flatMap lowerChar

/-- `[term.lower() for term in SECRET_TERMS]` -/
def secretTerms : List String := ["password", "apikey", "api_key", "accesstoken", "privatekey", "secret"]

/-- A key that has a secret term in it, in whatever case. -/
def isSecretKey (key : String) : Bool := secretTerms.any fun term => decide (term.toList <:+: lower key)

mutual
/-- `reject_secret_shape(value, path)` -/
def rejectSecretShape (path : String) : Json → Py Unit
  | .obj members => rejectMembers path members
  | .arr items => rejectItems path 0 items
  | _ => pure ()
def rejectMembers (path : String) : Json.Members → Py Unit
  | [] => pure ()
  | (key, value) :: members => do
    conform "SECRET_SHAPED_FIELD" ("secret-shaped field at " ++ path ++ "." ++ key) (isSecretKey key = false)
    rejectSecretShape (path ++ "." ++ key) value
    rejectMembers path members
def rejectItems (path : String) (index : ℕ) : List Json → Py Unit
  | [] => pure ()
  | value :: items => do
    rejectSecretShape (path ++ "[" ++ toString index ++ "]") value
    rejectItems path (index + 1) items
end

/-! ## Environment intakes -/

def environmentFields : List String := ["schemaVersion", "environmentId", "tenantId", "capturedAt", "capabilities"]

/-- `state in (True, False, None)` -/
def isCapabilityState (state : Json) : Bool := pyEq state (.bool true) || pyEq state (.bool false) || state = .null

/-- `validate_environment(document)` -/
def validateEnvironment (document : Json) : Py Json := do
  let _ ← requireObject document "environment intake"
  closed document environmentFields
  conform "UNSUPPORTED_SCHEMA" "unsupported environment intake schema"
    ((← item document "schemaVersion") = .str "harness.planeon.ai/environment-intake/v1alpha1")
  let _ ← requireId (← item document "environmentId") "environmentId"
  let _ ← requireId (← item document "tenantId") "tenantId"
  let _ ← requireTime (← item document "capturedAt") "capturedAt"
  let capabilities ← requireObject (← item document "capabilities") "capabilities"
  conform "COLLECTION_TOO_LARGE" "too many capabilities" (capabilities.length ≤ 128)
  capabilities.forM fun (name, state) => do
    let _ ← requireId (.str name) "capability"
    conform "INVALID_CAPABILITY" "capability values are true, false, or null" (isCapabilityState state)
  rejectSecretShape "$" document
  pure document

/-! ## Campaigns -/

/-- `validate_control_input(value)` -/
def validateControlInput (value : Json) : Py Unit := do
  let _ ← obj value ["architecture", "caseId"] "Linux control"
  require "LINUX_CONTROL_INVALID"
    (isOneOf (← item value "architecture") architectures ∧ isOneOf (← item value "caseId") cases)

/-- `CASE_AXES` -/
def caseAxes : List String :=
  ["SECURITY", "DEPLOYMENT", "ASSURANCE", "RUNTIME", "RUNTIME", "RUNTIME", "SECURITY", "SECURITY", "DEPLOYMENT", "SECURITY"]

/-- `architecture + "." + case.lower().replace("_", "-")` -/
def linuxControlId (architecture caseId : String) : String :=
  architecture ++ "." ++ String.ofList (caseId.toList.map fun c => if c = '_' then '-' else c.toLower)

/-- The controls of the Linux baseline. -/
def linuxControls : Json :=
  .arr (architectures.flatMap fun architecture => (cases.zip caseAxes).map fun (caseId, axis) => .obj
    [("controlId", .str (linuxControlId architecture caseId)), ("handler", .str Handler.linuxReadiness.name),
      ("required", .bool true), ("axis", .str axis),
      ("input", .obj [("architecture", .str architecture), ("caseId", .str caseId)])])

/-- `validate_linux_campaign(value)` -/
def validateLinuxCampaign [Runtime] (value : Json) : Py Unit := do
  let named := (← item value "campaignId") = .str "linux-baseline" ∧ (← item value "executionClass") = .str "LIVE_CAMPAIGN"
  require "LINUX_CAMPAIGN_INVENTORY_INVALID" named
  let controls ← canonicalBytes (← item value "controls")
  let expected ← canonicalBytes linuxControls
  require "LINUX_CAMPAIGN_INVENTORY_INVALID" (controls = expected)

def campaignFields : List String :=
  ["schemaVersion", "campaignId", "version", "description", "executionClass", "environmentFixture", "controls"]

def controlFields : List String := ["controlId", "handler", "required", "axis", "input"]

/-- `[0-9]+\.[0-9]+\.[0-9]+` -/
def versionPattern : Regex := .chain [.plus digit, .char '.', .plus digit, .char '.', .plus digit]

/-- `text.split("/")` -/
def splitPath (text : String) : List (List Char) := text.toList.splitOn '/'

/-- A relative path without `..` to a JSON file. -/
def isFixturePath (value : Json) : Bool :=
  match value with
  | .str text => text.toList.head? ≠ some '/' ∧ ".".toList ++ ".".toList ∉ splitPath text ∧ ".json".toList <:+ text.toList
  | _ => false

def isBool : Json → Bool
  | .bool _ => true
  | _ => false

/-- One round of the loop over the controls. -/
def validateControl (executionClass : Json) (seen : List String) (control : Json) : Py String := do
  let _ ← requireObject control "control"
  closed control controlFields
  let controlId ← requireId (← item control "controlId") "controlId"
  conform "DUPLICATE_CONTROL" ("duplicate control " ++ controlId.text) (controlId.text ∉ seen)
  let handler ← item control "handler"
  conform "INVALID_HANDLER" ("unknown handler for " ++ controlId.text) (Handler.ofJson? handler ≠ none)
  conform "INVALID_REQUIRED" "required must be boolean" (isBool (← item control "required"))
  let axis ← item control "axis"
  conform "INVALID_AXIS" "unknown evidence axis" (isOneOf axis evidenceAxes)
  let input ← item control "input"
  let _ ← requireObject input "control input"
  if handler = .str Handler.linuxReadiness.name then
    validateControlInput input
    conform "LINUX_CONTROL_SCOPE_INVALID" "Linux qualification is mandatory live evidence only"
      (executionClass = .str "LIVE_CAMPAIGN" ∧ isOneOf axis ["DEPLOYMENT", "RUNTIME", "SECURITY", "ASSURANCE"] ∧
        (← item control "required") = .bool true)
  pure controlId.text

def validateControls (executionClass : Json) : List String → List Json → Py Unit
  | _, [] => pure ()
  | seen, control :: controls => do
    let controlId ← validateControl executionClass seen control
    validateControls executionClass (seen ++ [controlId]) controls

/-- `any(item[key] … for item in controls)`, of controls that were checked. -/
def fieldsOf (controls : List Json) (key : String) : Py (List Json) := controls.mapM fun control => item control key

/-- `validate_campaign(document)` -/
def validateCampaign [Runtime] (document : Json) : Py Json := do
  let _ ← requireObject document "campaign"
  closed document campaignFields
  conform "UNSUPPORTED_SCHEMA" "unsupported campaign schema"
    ((← item document "schemaVersion") = .str "harness.planeon.ai/conformance-campaign/v1alpha1")
  let campaignId ← requireId (← item document "campaignId") "campaignId"
  let _ ← requireText (.conformance "INVALID_VERSION" "campaign version must be SemVer core") versionPattern.fullmatch
    (← item document "version")
  let _ ← requireText (.conformance "INVALID_DESCRIPTION" "campaign description is unbounded or empty")
    (fun text => 1 ≤ text.length && text.length ≤ 512) (← item document "description")
  let executionClass ← item document "executionClass"
  conform "INVALID_EXECUTION_CLASS" "unknown execution class" (isOneOf executionClass ["OFFLINE_TEST", "LIVE_CAMPAIGN"])
  conform "INVALID_FIXTURE_REFERENCE" "environment fixture must be a local relative JSON path"
    (isFixturePath (← item document "environmentFixture"))
  match ← item document "controls" with
  | .arr controls =>
    conform "INVALID_CONTROLS" "controls must be a bounded non-empty array" (controls ≠ [] ∧ controls.length ≤ 512)
    validateControls executionClass [] controls
    let axes ← fieldsOf controls "axis"
    conform "OFFLINE_AXIS_ESCALATION" "offline campaigns may originate UNIT only"
      (executionClass = .str "OFFLINE_TEST" → axes.all (· = .str "UNIT"))
    conform "LIVE_AXIS_ESCALATION" "live campaign axis is not allowed"
      (executionClass = .str "LIVE_CAMPAIGN" → axes.all (isOneOf · liveEvidenceAxes))
    let handlers ← fieldsOf controls "handler"
    if campaignId.text = "linux-baseline" ∨ handlers.any (· = .str Handler.linuxReadiness.name) then validateLinuxCampaign document
    rejectSecretShape "$" document
    pure document
  | _ => .error (.conformance "INVALID_CONTROLS" "controls must be a bounded non-empty array")

/-! ## Control results -/

def resultFields : List String := ["axis", "controlId", "handler", "observationDigest", "reasonCode", "required", "status"]

/-- `value.lower().replace("_", "-")` -/
def reasonId (value : Json) : Py Json :=
  match value with
  | .str text => .ok (.str (String.ofList ((lower text).map fun c => if c = '_' then '-' else c)))
  | _ => .error .attributeError

/-- `validate_result(document)` -/
def validateResult (document : Json) : Py Json := do
  let _ ← requireObject document "control result"
  closed document resultFields
  let _ ← requireId (← item document "controlId") "controlId"
  conform "INVALID_HANDLER" "unknown result handler" (Handler.ofJson? (← item document "handler") ≠ none)
  conform "INVALID_AXIS" "unknown result axis" (isOneOf (← item document "axis") evidenceAxes)
  let _ ← requireDigest (← item document "observationDigest") "observationDigest"
  let _ ← requireId (← reasonId (← item document "reasonCode")) "reasonCode"
  conform "INVALID_REQUIRED" "required must be boolean" (isBool (← item document "required"))
  conform "INVALID_RESULT" "unknown result state" (isOneOf (← item document "status") resultStates)
  pure document

/-! ## Porting ledgers -/

/-- `validate_porting(document)` -/
def validatePorting (document : Json) : Py Json := do
  let _ ← requireObject document "porting ledger"
  closed document ["schemaVersion", "destinationRepository", "records"]
  conform "UNSUPPORTED_SCHEMA" "unsupported porting ledger schema"
    ((← item document "schemaVersion") = .str "harness.planeon.ai/porting-ledger/v1alpha1")
  conform "WRONG_DESTINATION" "porting destination mismatch"
    ((← item document "destinationRepository") = .str "mas-harness-conformance-labs")
  match ← item document "records" with
  | .arr [record] =>
    let _ ← requireObject record "porting sentinel"
    closed record ["disposition", "reason"]
    conform "COPY_NOT_AUTHORIZED" "no source mapping is authorized" ((← item record "disposition") = .str "NO_AUTHORIZATION")
    let _ ← requireText (.conformance "INVALID_REASON" "porting sentinel needs a reason") (fun text => text ≠ "")
      (← item record "reason")
    pure document
  | _ => .error (.conformance "PORTING_NOT_INERT" "ledger must contain exactly one sentinel")

end HarnessConformance.Campaign
