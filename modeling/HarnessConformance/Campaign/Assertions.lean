import HarnessConformance.Campaign.Validators
import HarnessConformance.Crypto.Base64Url

/-! # What the assertions of a campaign check

Lifecycle transitions, events, and documents by the name of their kind. -/

namespace HarnessConformance.Campaign
open Lib Lib.Outcome Lib.Lines LinuxReadiness Crypto
set_option autoImplicit false

/-! ## Values as keys and as text -/

/-- `hash(value)` returns. -/
def isHashable : Json → Bool
  | .arr _ | .obj _ => false
  | _ => true

/-- The interpreter writes no integer with more than 4300 digits. -/
@[irreducible] def writeLimit : ℕ := 10 ^ 4300

def isPrintable : Json → Bool
  | .int n => n.natAbs < writeLimit
  | _ => true

/-- `table[key]` -/
def lookupKey {α : Type} (table : List (String × α)) (key : Json) : Py α :=
  match key with
  | .str name =>
    match table.lookup name with
    | some entry => .ok entry
    | none => .error (.keyError name)
  | _ => if isHashable key then .error (.keyError "") else .error .typeError

/-- `str(value)`, with `text` for a string; only values that can be keys are written. -/
def written (text : String → String) : Json → Py String
  | .null => .ok "None"
  | .bool b => .ok (if b then "True" else "False")
  | .int n => if n.natAbs < writeLimit then .ok (toString n) else .error .valueError
  | .str s => .ok (text s)
  | .arr _ | .obj _ => .error .typeError

/-! ## Lifecycle transitions -/

/-- `TRANSITIONS` -/
def transitions : List (String × List (String × List String)) :=
  [("Operation",
      [("PENDING", ["RUNNING", "CANCELLED"]), ("RUNNING", ["SUCCEEDED", "FAILED", "CANCELLED"]), ("SUCCEEDED", []), ("FAILED", []),
        ("CANCELLED", [])]),
    ("ApprovalRequest",
      [("PENDING", ["APPROVED", "REJECTED", "CANCELLED", "EXPIRED"]), ("APPROVED", []), ("REJECTED", []), ("CANCELLED", []),
        ("EXPIRED", [])]),
    ("HarnessInstallation",
      [("NOT_SELECTED", ["SELECTED"]), ("SELECTED", ["INSTALLING", "NOT_SELECTED"]), ("INSTALLING", ["READY", "DEGRADED", "FAILED"]),
        ("READY", ["UPDATING", "DEGRADED", "UNINSTALLING"]), ("DEGRADED", ["UPDATING", "READY", "FAILED", "UNINSTALLING"]),
        ("FAILED", ["INSTALLING", "UNINSTALLING"]), ("UPDATING", ["READY", "DEGRADED", "FAILED"]),
        ("UNINSTALLING", ["NOT_SELECTED", "FAILED"])])]

def PyError.isKeyError : PyError → Bool
  | .keyError _ => true
  | _ => false

/-- `TRANSITIONS[entity][before]` -/
def targetsOf (entity before : Json) : Py (List String) :=
  reraise PyError.isKeyError "UNKNOWN_LIFECYCLE_STATE" "entity or source state is unknown" do
    lookupKey (← lookupKey transitions entity) before

/-- `assert_transition(entity, before, after)` -/
def assertTransition (entity before after : Json) : Py Unit := do
  let targets ← targetsOf entity before
  if !isHashable after then .error .typeError
  else if isOneOf after targets then pure ()
  else
    let left ← written id entity
    let middle ← written id before
    let right ← written id after
    .error (.conformance "ILLEGAL_LIFECYCLE_TRANSITION" (left ++ " cannot transition from " ++ middle ++ " to " ++ right))

/-! ## Events -/

/-- `ALLOWED_EVENT_TYPES` -/
def allowedEventTypes : List String :=
  ["harness.operation.state.changed.v1", "harness.approval.state.changed.v1", "harness.installation.state.changed.v1",
    "harness.evidence.recorded.v1"]

def eventFields : List String :=
  ["specversion", "id", "source", "type", "time", "subject", "datacontenttype", "tenantid", "data"]

def eventDataFields : List String := ["entityId", "fromState", "toState", "version", "evidenceDigest"]

def isText : Json → Bool
  | .str _ => true
  | _ => false

/-- `isinstance(value, int) and not isinstance(value, bool) and value >= 1` -/
def isPositive : Json → Bool
  | .int n => 1 ≤ n
  | _ => false

/-- `validate_event(document)` -/
def validateEvent (document : Json) : Py Json := do
  let _ ← requireObject document "HarnessCloudEvent"
  closed document eventFields
  conform "UNSUPPORTED_CLOUDEVENTS_VERSION" "specversion must be 1.0" ((← item document "specversion") = .str "1.0")
  let _ ← requireId (← item document "id") "id"
  let _ ← requireId (← item document "tenantid") "tenantid"
  let _ ← requireTime (← item document "time") "time"
  conform "UNKNOWN_EVENT_TYPE" "event type is not canonical" (isOneOf (← item document "type") allowedEventTypes)
  conform "INVALID_CONTENT_TYPE" "event data must be application/json" ((← item document "datacontenttype") = .str "application/json")
  let _ ← requireText (.conformance "INVALID_EVENT_SOURCE" "event source must be a Planeon URN")
    (fun text => "urn:planeon:".toList.isPrefixOf text.toList) (← item document "source")
  let _ ← requireText (.conformance "INVALID_EVENT_SUBJECT" "event subject is invalid") (fun text => text.length ≤ 256)
    (← item document "subject")
  let data ← item document "data"
  let _ ← requireObject data "event data"
  closed data eventDataFields
  let _ ← requireId (← item data "entityId") "entityId"
  conform "INVALID_EVENT_STATE" "event state fields must be strings"
    (isText (← item data "fromState") ∧ isText (← item data "toState"))
  conform "INVALID_EVENT_VERSION" "event version must be positive" (isPositive (← item data "version"))
  let _ ← requireDigest (← item data "evidenceDigest") "evidenceDigest"
  rejectSecretShape "$" document
  pure document

/-! ## Documents by kind -/

variable [Runtime]

def evidenceSchema : String := "harness.planeon.ai/linux-readiness-evidence/v1alpha1"

/-- `AUTHORITY_FIELDS` -/
def authorityFields : List String :=
  ["packetDigest", "envelopeDigest", "capacityDigest", "releaseDigest", "planDigest", "tenantId", "environmentId", "runNonce",
    "endpointId", "endpointDigest", "namespace", "serviceAccountSubject", "admissionPolicyDigest", "resourceQuotaDigest"]

/-- `RECORD_FIELDS` -/
def recordFields : List String :=
  ["schemaVersion", "authority", "target", "sources", "images", "build", "preflightDigest", "observedAt", "validUntil", "cases",
    "platformSignerKeyId", "tenantSignerKeyId", "capacitySignerKeyId", "platformSignature", "tenantSignature", "capacitySignature"]

/-- A field of `authority`, by the end of its name. -/
def authorityField (name : String) (value : Json) : Py Unit := do
  if "Digest".toList.isSuffixOf name.toList then
    let _ ← requireDigest value name
  else if name = "serviceAccountSubject" then
    let _ ← text value 256
  else
    let _ ← requireId value name

/-- The key identifier and the signature of a role. -/
def signedBy (value : Json) (role : String) : Py Unit := do
  let _ ← requireKeyId (← item value (role ++ "SignerKeyId")) role
  let _ ← b64urlDecode (← item value (role ++ "Signature")) 64

/-- `validate_linux_evidence(value)` -/
def validateLinuxEvidence (value : Json) : Py Json := malformedBoundary do
  let _ ← canonicalBytes value
  let _ ← obj value recordFields "Linux evidence"
  require "LINUX_EVIDENCE_SCHEMA_INVALID" ((← item value "schemaVersion") = .str evidenceSchema)
  let authority ← obj (← item value "authority") authorityFields "Linux authority"
  authority.forM fun (name, field) => authorityField name field
  target (← item value "target")
  sources (← item value "sources")
  digestMap (← item value "images") images
  digestMap (← item value "build") buildFields
  let _ ← requireDigest (← item value "preflightDigest") "preflightDigest"
  let _ ← HarnessConformance.requireTime (← item value "observedAt") "observedAt"
  let _ ← HarnessConformance.requireTime (← item value "validUntil") "validUntil"
  ["platform", "tenant", "capacity"].forM (signedBy value)
  let _ ← caseRecords (← item value "cases")
  pure value

/-- `VALIDATORS` -/
def validators : List (String × (Json → Py Json)) :=
  [("campaign", validateCampaign), ("environment-intake", validateEnvironment), ("control-result", validateResult),
    ("porting-ledger", validatePorting)]

/-- `VALIDATORS[kind]` -/
def validatorOf (kind : Json) : Py (Json → Py Json) :=
  match lookupKey validators kind with
  | .error (.keyError _) => do
    let text ← written Runtime.repr kind
    .error (.conformance "UNKNOWN_KIND" ("unknown document kind " ++ text))
  | found => found

/-- `validate(kind, document)` -/
def validate (kind document : Json) : Py Json :=
  if kind = .str "linux-readiness-evidence" then validateLinuxEvidence document
  else do (← validatorOf kind) document

end HarnessConformance.Campaign
