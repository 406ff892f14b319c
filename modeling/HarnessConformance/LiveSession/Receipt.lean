import HarnessConformance.LiveSession.Session
import HarnessConformance.LinuxReadiness.CaseRecord

/-! # Requests and receipts

A request names one case of a running session. A receipt answers it: `validateReceipt` holds the
receipt to the request, to the session's window and to the inventories the plan promised. -/

namespace HarnessConformance
open Lib Lib.Outcome Lib.Lines
set_option autoImplicit false

namespace LiveSession
open LinuxReadiness (Architecture Status Counts regressionFields readCounts integer reported outputDomain caseFields
  requireStatus requireStatus_eq_ok regression caseRecord CaseRecord caseRecords)

def requestSchema : String := "harness.planeon.ai/linux-probe-request/v1alpha1"

def requestFields : List String :=
  ["schemaVersion", "operation", "endpointId", "namespace", "method", "path", "runNonce", "architecture", "probeDigest",
    "commandDigest"]

def requireCase (value : Json) (code : String) : Py Case :=
  match Case.ofJson? value with
  | some c => .ok c
  | none => .error (.conformance code "invalid live-backend data; no execution authority")

def requireArchitecture (value : Json) (code : String) : Py Architecture :=
  match Architecture.ofJson? value with
  | some a => .ok a
  | none => .error (.conformance code "invalid live-backend data; no execution authority")

@[simp] theorem requireCase_eq_ok {value : Json} {code : String} {c : Case} :
    requireCase value code = .ok c ↔ value = .str c.name := by
  rw [requireCase, ← Case.ofJson?_eq_some]
  cases Case.ofJson? value <;> simp

@[simp] theorem requireArchitecture_eq_ok {value : Json} {code : String} {a : Architecture} :
    requireArchitecture value code = .ok a ↔ value = .str a.name := by
  rw [requireArchitecture, ← Architecture.ofJson?_eq_some]
  cases Architecture.ofJson? value <;> simp

/-! ## Requests -/

/-- A validated request. -/
structure Request where
  operation : Case
  endpointId : Identifier
  nameSpace : Identifier
  runNonce : Identifier
  architecture : Architecture
  probeDigest : Digest
  commandDigest : Digest
  deriving DecidableEq

namespace Request

def toJson (r : Request) : Json :=
  .obj [("schemaVersion", .str requestSchema), ("operation", .str r.operation.name), ("endpointId", .str r.endpointId.text),
    ("namespace", .str r.nameSpace.text), ("method", .str "POST"), ("path", .str r.operation.path),
    ("runNonce", .str r.runNonce.text), ("architecture", .str r.architecture.name),
    ("probeDigest", .str r.probeDigest.text), ("commandDigest", .str r.commandDigest.text)]

variable [Runtime]

/-- `_request(value)` -/
def read (value : Input) : Py Request := do
  let request ← dataDocument value maxSessionBytes
  closed request requestFields
  let case ← requireCase (← item request "operation") "SESSION_OPERATION_INVALID"
  require "SESSION_REQUEST_INVALID" ((← item request "schemaVersion") = .str requestSchema ∧
    (← item request "method") = .str "POST" ∧ (← item request "path") = .str case.path)
  let architecture ← requireArchitecture (← item request "architecture") "SESSION_REQUEST_INVALID"
  let endpointId ← requireId (← item request "endpointId") "endpointId"
  let nameSpace ← requireId (← item request "namespace") "namespace"
  let runNonce ← requireId (← item request "runNonce") "runNonce"
  let probeDigest ← requireDigest (← item request "probeDigest") "probeDigest"
  let commandDigest ← requireDigest (← item request "commandDigest") "commandDigest"
  pure ⟨case, endpointId, nameSpace, runNonce, architecture, probeDigest, commandDigest⟩

/-- `validate_request(value, session, expected_binding, expected_request, now)` -/
def validate (value session expectedBinding expectedRequest : Input) (now : Json) : Py Request := do
  let current ← Session.validate session expectedBinding now
  require "SESSION_NOT_RUNNING" (current.state = .running)
  let request ← read value
  let expected ← read expectedRequest
  require "SESSION_REQUEST_MISMATCH" (request = expected)
  require "SESSION_REQUEST_SCOPE_MISMATCH" (request.runNonce = current.binding.nonce)
  require "SESSION_REQUEST_SCOPE_MISMATCH" (request.endpointId = current.binding.endpointId)
  require "SESSION_REQUEST_SCOPE_MISMATCH" (request.nameSpace = current.binding.nameSpace)
  pure request

end Request

/-! ## Requests as documents -/

namespace Request

theorem wf_toJson (r : Request) : r.toJson.Wf :=
  Json.wf_obj.mpr ⟨(by decide : requestFields.Nodup), by simp [Json.Wf]⟩

theorem slim_members (r : Request) : ∃ members, r.toJson = .obj members ∧ members.length = 10 ∧
    Json.keys members = requestFields ∧ (∀ m ∈ members, m.2.Wf) ∧ ∀ m ∈ members, Slim 130 0 m := by
  refine ⟨_, rfl, rfl, rfl, by simp [Json.Wf], ?_⟩
  have hcase : Slim 130 0 ("operation", .str r.operation.name) := by
    have hshort := r.operation.name_short
    exact .text (Json.shortKey rfl) hshort.1 (by omega)
  have hpath : Slim 130 0 ("path", .str r.operation.path) := by
    have hshort := r.operation.path_short
    exact .text (Json.shortKey rfl) hshort.1 (by omega)
  have harchitecture : Slim 130 0 ("architecture", .str r.architecture.name) := by
    cases r.architecture <;> simp only [Architecture.name] <;> exact .literal (Json.shortKey rfl) rfl (by decide)
  simp only [List.forall_mem_cons]
  exact ⟨.literal (Json.shortKey rfl) rfl (by decide), hcase, slim_id (Json.shortKey rfl) _, slim_id (Json.shortKey rfl) _,
    .literal (Json.shortKey rfl) rfl (by decide), hpath, slim_id (Json.shortKey rfl) _, harchitecture,
    slim_digest (Json.shortKey rfl) _ (by decide), slim_digest (Json.shortKey rfl) _ (by decide), nofun⟩

variable [Runtime]

theorem read_toJson (r : Request) : read (.data r.toJson) = .ok r := by
  obtain ⟨members, hjson, hlength, hkeys, hwf, hslim⟩ := r.slim_members
  have hdocument : dataDocument (.data r.toJson) maxSessionBytes = .ok r.toJson.canon := by
    rw [hjson]
    refine dataDocument_slim (.inl rfl) (hkeys ▸ by decide) hwf hslim (by decide) ?_
    rw [hlength]
    decide
  have field {k t : String} (hk : r.toJson.get? k = some (.str t)) : item r.toJson.canon k = .ok (.str t) :=
    item_canon r.wf_toJson hk
  simp only [read, bind_eq_ok, require_eq_ok, requireCase_eq_ok, requireArchitecture_eq_ok, requireId_eq_ok,
    requireDigest_eq_ok, exists_const]
  refine ⟨_, hdocument, (), closed_canon_obj rfl, _, field rfl, r.operation, rfl, ?_⟩
  refine ⟨_, field rfl, _, field rfl, _, field rfl, ⟨rfl, rfl, rfl⟩, _, field rfl, r.architecture, rfl, ?_⟩
  refine ⟨_, field rfl, r.endpointId, rfl, _, field rfl, r.nameSpace, rfl, _, field rfl, r.runNonce, rfl, ?_⟩
  exact ⟨_, field rfl, r.probeDigest, rfl, _, field rfl, r.commandDigest, rfl, rfl⟩

/-- A request of the session's own scope passes against itself while the session runs. -/
theorem validate_toJson (r : Request) {session expectedBinding : Input} {now : Json} {s : Session}
    (hsession : Session.validate session expectedBinding now = .ok s) (hrunning : s.state = .running)
    (hnonce : r.runNonce = s.binding.nonce) (hendpoint : r.endpointId = s.binding.endpointId)
    (hnamespace : r.nameSpace = s.binding.nameSpace) :
    validate (.data r.toJson) session expectedBinding (.data r.toJson) now = .ok r := by
  simp only [validate, bind_eq_ok, require_eq_ok, pure_eq_ok, exists_const]
  exact ⟨s, hsession, hrunning, r, r.read_toJson, r, r.read_toJson, rfl, hnonce, hendpoint, hnamespace, rfl⟩

end Request

/-! ## Receipts -/

/-- The smallest inventory a receipt is held to, for a repository. -/
def receiptFloor (name : String) : ℕ := if name = "conformance" then 120 else 1

/-- One round of the loop over the repositories: whether the suite was incomplete. -/
def receiptRegression (name : String) (result baseline : Json) : Py Bool := do
  require "SESSION_TYPE_INVALID" (isObject result ∧ isObject baseline)
  closed result regressionFields
  closed baseline ["inventoryDigest", "testCount"]
  let inventoryDigest ← requireDigest (← item baseline "inventoryDigest") "inventoryDigest"
  let testCount ← integer (← item baseline "testCount") (receiptFloor name)
  let counts ← readCounts result
  require "SESSION_REGRESSION_COUNTS_INVALID" (counts.failed ≤ counts.executed ∧ counts.executed ≤ counts.collected ∧
    counts.skipped ≤ counts.collected)
  require "SESSION_REGRESSION_MISMATCH" ((← item result "inventoryDigest") = .str inventoryDigest.text ∧
    counts.collected = testCount)
  pure counts.incomplete

/-- The status of a receipt. -/
def receiptStatus (failed : Bool) (statuses : List Status) : Status :=
  if failed ∨ .fail ∈ statuses then .fail
  else if .notRunEnvUnavailable ∈ statuses then .notRunEnvUnavailable else .pass

/-- `type(value) is dict`, as the members. -/
def requireDict (value : Json) : Py Json.Members :=
  match value with
  | .obj members => .ok members
  | _ => .error (.conformance "SESSION_TYPE_INVALID" "invalid live-backend data; no execution authority")

theorem requireDict_eq_ok {value : Json} {members : Json.Members} : requireDict value = .ok members ↔ value = .obj members := by
  cases value <;> simp [requireDict]

variable [Runtime]

/-- `validate_receipt(value, session, expected_binding, expected_request, expected_regressions, now)` -/
def validateReceipt (value session expectedBinding expectedRequest expectedRegressions : Input) (now : Json) : Py Json := do
  let current ← Session.validate session expectedBinding now
  let request ← Request.validate expectedRequest (.data current.toJson) expectedBinding expectedRequest now
  let receipt ← dataDocument value maxResponseBytes
  closed receipt caseFields
  require "SESSION_RECEIPT_MISMATCH" ((← item receipt "caseId") = .str request.operation.name)
  require "SESSION_RECEIPT_MISMATCH" ((← item receipt "runNonce") = .str request.runNonce.text)
  require "SESSION_RECEIPT_MISMATCH" ((← item receipt "probeDigest") = .str request.probeDigest.text)
  require "SESSION_RECEIPT_MISMATCH" ((← item receipt "commandDigest") = .str request.commandDigest.text)
  let observed ← requireTime (← item receipt "observedAt") "observedAt"
  let instant ← requireTime now "now"
  require "SESSION_RECEIPT_TIME_INVALID" (current.issuedAt.instant ≤ observed.instant ∧ observed.instant ≤ instant.instant)
  let output ← item receipt "output"
  let _ ← requireDict output
  closed output ["checks", "regressions"]
  let checks ← requireDict (← item output "checks")
  let regressions ← item output "regressions"
  let _ ← requireDict regressions
  closed (.obj checks) request.operation.checks
  let statuses ← checks.mapM fun (_, status) => requireStatus
    (.conformance "SESSION_RECEIPT_STATUS_INVALID" "invalid live-backend data; no execution authority") status
  let expected ← dataDocument expectedRegressions maxSessionBytes
  closed regressions (reported request.operation)
  closed expected (reported request.operation)
  let failed ← (reported request.operation).mapM fun name => do
    receiptRegression name (← item regressions name) (← item expected name)
  require "SESSION_FALSE_RECEIPT_STATUS" ((← item receipt "status") = .str (receiptStatus (failed.any id) statuses).name)
  require "SESSION_OUTPUT_DIGEST_MISMATCH"
    ((← item receipt "outputDigest") = .str (← canonicalDigest output (some outputDomain)).text)
  pure receipt

/-! ## What an accepted receipt holds -/

/-- The parts of a receipt that answers `request` in session `s`, read at `instant`. -/
structure Receipt (s : Session) (request : Request) (instant : TimeText) (expected receipt : Json) : Prop where
  closed : closed receipt caseFields = .ok ()
  caseId : receipt.get? "caseId" = some (.str request.operation.name)
  runNonce : receipt.get? "runNonce" = some (.str request.runNonce.text)
  probeDigest : receipt.get? "probeDigest" = some (.str request.probeDigest.text)
  commandDigest : receipt.get? "commandDigest" = some (.str request.commandDigest.text)
  observedAt : ∃ t : TimeText, receipt.get? "observedAt" = some (.str t.text) ∧ s.issuedAt.instant ≤ t.instant ∧
    t.instant ≤ instant.instant
  output : ∃ output checks regressions statuses failed, receipt.get? "output" = some output ∧
    HarnessConformance.closed output ["checks", "regressions"] = .ok () ∧
    output.get? "checks" = some (.obj checks) ∧ output.get? "regressions" = some (.obj regressions) ∧
    HarnessConformance.closed (.obj checks) request.operation.checks = .ok () ∧
    List.Forall₂ (fun m status => m.2 = Json.str (Status.name status)) checks statuses ∧
    HarnessConformance.closed (.obj regressions) (reported request.operation) = .ok () ∧
    HarnessConformance.closed expected (reported request.operation) = .ok () ∧
    List.Forall₂ (fun name flag => ∃ result, (Json.obj regressions).get? name = some result ∧
      ∃ baseline, expected.get? name = some baseline ∧ receiptRegression name result baseline = .ok flag)
      (reported request.operation) failed ∧
    receipt.get? "status" = some (.str (receiptStatus (failed.any id) statuses).name) ∧ Valid output ∧
    receipt.get? "outputDigest" =
      some (.str (byteDigest (domainPrefix (some outputDomain) ++ canonicalText output)).text)

theorem validateReceipt_eq_ok {value session expectedBinding expectedRequest expectedRegressions : Input} {now receipt : Json} :
    validateReceipt value session expectedBinding expectedRequest expectedRegressions now = .ok receipt ↔
      ∃ s, Session.validate session expectedBinding now = .ok s ∧
      ∃ request, Request.validate expectedRequest (.data s.toJson) expectedBinding expectedRequest now = .ok request ∧
      dataDocument value maxResponseBytes = .ok receipt ∧ ∃ t : TimeText, now = .str t.text ∧
      ∃ expected, dataDocument expectedRegressions maxSessionBytes = .ok expected ∧ Receipt s request t expected receipt := by
  simp only [validateReceipt, bind_eq_ok, item_eq_ok, require_eq_ok, requireStatus_eq_ok, requireTime_eq_ok, requireDict_eq_ok,
    mapM_eq_ok, canonicalDigest_eq_ok, pure_eq_ok, exists_const]
  constructor
  · rintro ⟨s, hs, request, hrequest, receipt, hreceipt, _, hclosed, _, hid, rfl, _, hnonce, rfl, _, hprobe, rfl, h⟩
    obtain ⟨_, hcommand, rfl, _, htime, observed, rfl, t, rfl, hwindow, output, houtput, _, rfl, _, houtputClosed, h⟩ := h
    obtain ⟨_, hchecks, checks, rfl, _, hregressions, regressions, rfl, _, hchecksClosed, statuses, hstatuses, h⟩ := h
    obtain ⟨expected, hexpected, _, hregressionsClosed, _, hexpectedClosed, failed, hfailed, _, hstatus, rfl, h⟩ := h
    obtain ⟨_, hdigest, _, ⟨hvalid, rfl⟩, rfl, rfl⟩ := h
    exact ⟨s, hs, request, hrequest, hreceipt, t, rfl, expected, hexpected, hclosed, hid, hnonce, hprobe, hcommand,
      ⟨observed, htime, hwindow⟩, _, checks, regressions, statuses, failed, houtput, houtputClosed, hchecks, hregressions,
      hchecksClosed, hstatuses, hregressionsClosed, hexpectedClosed, hfailed, hstatus, hvalid, hdigest⟩
  · rintro ⟨s, hs, request, hrequest, hreceipt, t, rfl, expected, hexpected, h⟩
    obtain ⟨observed, htime, hwindow⟩ := h.observedAt
    obtain ⟨output, checks, regressions, statuses, failed, houtput, houtputClosed, hchecks, hregressions, h'⟩ := h.output
    obtain ⟨hchecksClosed, hstatuses, hregressionsClosed, hexpectedClosed, hfailed, hstatus, hvalid, hdigest⟩ := h'
    obtain ⟨members, rfl, -⟩ := closed_eq_ok.mp houtputClosed
    refine ⟨s, hs, request, hrequest, receipt, hreceipt, (), h.closed, _, h.caseId, rfl, _, h.runNonce, rfl, _, h.probeDigest,
      rfl, ?_⟩
    refine ⟨_, h.commandDigest, rfl, _, htime, observed, rfl, t, rfl, hwindow, _, houtput, members, rfl, (), houtputClosed, ?_⟩
    refine ⟨_, hchecks, checks, rfl, _, hregressions, regressions, rfl, (), hchecksClosed, statuses, hstatuses, ?_⟩
    exact ⟨expected, hexpected, (), hregressionsClosed, (), hexpectedClosed, failed, hfailed, _, hstatus, rfl, _, hdigest, _,
      ⟨hvalid, rfl⟩, rfl, rfl⟩

end LiveSession
end HarnessConformance
