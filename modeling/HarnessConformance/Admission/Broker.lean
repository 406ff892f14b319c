import HarnessConformance.Lib.Base64
import HarnessConformance.Admission.Cleanup
import HarnessConformance.Admission.Observation

/-! # Broker messages

The messages of a dispatched execution, `broker_document` and the transcript that either side keeps of them:
`BrokerTranscript` of `live_mutation_admission.py`. -/

namespace HarnessConformance.Admission
open Lib Lib.Outcome Lib.Lines
set_option autoImplicit false

/-! ## The pinned shapes -/

/-- One or more characters of the alphabet and at most two of padding. -/
def base64Pattern : Regex :=
  .seq (.plus (.one fun c => c.isAlpha || c.isDigit || c == '+' || c == '/')) (.upTo (.char '=') 2)

def caseShape : Shape := namesShape (Case.all.map Case.name)

def caseDigestsShape : Shape := .obj (Case.all.map fun c => (c.name, .arr 0 32 true digestShape))

def brokerBindingShape : Shape :=
  .obj [("schemaVersion", .const (.str "planeon.internal.broker-binding/v1")), ("profileDigest", digestShape),
    ("observationBindingDigest", digestShape), ("brokerManifestDigest", digestShape), ("brokerExecutableDigest", digestShape),
    ("workerManifestDigest", digestShape), ("workerArtifactDigest", digestShape), ("caseResourceDigests", caseDigestsShape)]

/-- `BROKER_COMMON`, with the shapes of its fields. -/
def commonShapes : List (String × Shape) :=
  [("bindingDigest", digestShape), ("reservationDigest", digestShape), ("runNonce", nameShape), ("caseId", caseShape),
    ("requestDigest", digestShape), ("observationDigest", digestShape), ("generation", hexShape), ("challenge", hexShape)]

def dispatchShape : Shape :=
  .obj ([("schemaVersion", .const (.str "planeon.internal.broker-dispatch/v1")),
    ("operation", .const (.str "EXECUTE_FIXED_PROBE"))] ++ commonShapes)

/-- The kinds of frame. -/
inductive FrameKind where
  | started
  | resourceAction
  | resourceResult
  | receiptChunk
  | cleanupRecorded
  | terminal
  | abort
  | refused
  deriving DecidableEq

namespace FrameKind

def name : FrameKind → String
  | started => "STARTED"
  | resourceAction => "RESOURCE_ACTION"
  | resourceResult => "RESOURCE_RESULT"
  | receiptChunk => "RECEIPT_CHUNK"
  | cleanupRecorded => "CLEANUP_RECORDED"
  | terminal => "TERMINAL"
  | abort => "ABORT"
  | refused => "REFUSED"

def all : List FrameKind :=
  [started, resourceAction, resourceResult, receiptChunk, cleanupRecorded, terminal, abort, refused]

theorem mem_all (k : FrameKind) : k ∈ all := by
  cases k <;> decide

theorem name_injective {k l : FrameKind} (h : k.name = l.name) : k = l :=
  List.inj_on_of_nodup_map (by decide : (all.map name).Nodup) (mem_all k) (mem_all l) h

/-- The kinds that the server sends; the broker sends the others. -/
def fromServer : FrameKind → Bool
  | resourceResult | cleanupRecorded | abort => true
  | _ => false

end FrameKind

/-- One remaining resource. -/
def remainingShape : Shape :=
  .obj [("apiVersion", .const (.str "v1")), ("kind", namesShape ["Pod", "ConfigMap", "Service"]), ("namespace", nameShape),
    ("name", nameShape), ("uid", .oneOf [.null, uidShape]), ("manifestDigest", digestShape), ("reasonCode", namesShape cleanupReasons)]

/-- The payload of a frame, by its kind. -/
def payloadShapes : FrameKind → List (String × Shape)
  | .started => [("workerPid", .int 2 2147483647), ("workerStartTicks", .int 1 maxSafe)]
  | .resourceAction => [("actionId", .int 1 256), ("verb", namesShape ["CREATE", "GET", "DELETE"]), ("manifestDigest", digestShape)]
  | .resourceResult =>
    [("actionId", .int 1 256), ("outcome", namesShape ["ABSENT", "CREATED", "PRESENT", "DELETED", "DENIED", "AMBIGUOUS"]),
      ("objectBase64", .oneOf [.null, .text 4 21848 (some base64Pattern)])]
  | .receiptChunk => [("index", .int 0 170), ("dataBase64", .text 4 32768 (some base64Pattern))]
  | .cleanupRecorded =>
    [("cleanupDigest", digestShape), ("state", namesShape ["CLEAN", "CLEANUP_PENDING"]),
      ("remainingResources", .arr 0 32 true remainingShape)]
  | .terminal =>
    [("status", namesShape ["COMPLETED", "FAILED", "UNAVAILABLE"]), ("receiptSize", .int 1 4194304), ("receiptDigest", digestShape),
      ("cleanupDigest", digestShape), ("workerReaped", .const (.bool true))]
  | .abort =>
    [("reason", namesShape ["DEADLINE", "REVOKED", "POLICY_LOST", "PEER_CHANGED", "IO_AMBIGUOUS", "INVALID_FRAME"])]
  | .refused =>
    [("reason", namesShape ["UNAVAILABLE", "REPLAY", "GENERATION_MISMATCH", "CAPACITY_HELD", "INVALID_AUTHORITY"])]

/-- The fields of a frame of one kind. -/
def frameShapes (kind : FrameKind) : List (String × Shape) :=
  ("schemaVersion", .const (.str "planeon.internal.broker-frame/v1")) :: commonShapes ++
    [("executionId", hexShape), ("sequence", .int 1 2048), ("previousDigest", digestShape), ("kind", .const (.str kind.name)),
      ("payload", .obj (payloadShapes kind))]

def frameShape : Shape := .oneOf (FrameKind.all.map fun kind => .obj (frameShapes kind))

/-- The variants of a broker document, but for the start of a worker. -/
inductive BrokerVariant where
  | binding
  | dispatch
  | frame

namespace BrokerVariant

def shape : BrokerVariant → Shape
  | binding => brokerBindingShape
  | dispatch => dispatchShape
  | frame => frameShape

def maximum : BrokerVariant → ℕ
  | dispatch => 16384
  | _ => 65536

end BrokerVariant

/-! ## Data in frames -/

/-- `_base64_bytes(value, maximum)` -/
def base64Bytes (value : Json) (maximum : ℕ) : Py Bytes :=
  match value with
  | .str text =>
    match Base64.decodePadded text with
    | none => .error (.conformance "BROKER_BASE64_INVALID" "invalid bounded broker data")
    | some raw => do
      require "BROKER_BASE64_INVALID" (0 < raw.length ∧ raw.length ≤ maximum ∧ Base64.encodePadded raw = text)
      pure raw
  | _ => .error (refusal "BROKER_BASE64_INVALID")

/-- The outcomes that a verb permits. -/
def permitted (verb : Json) : List String :=
  if verb = .str "CREATE" then ["CREATED"] else if verb = .str "GET" then ["PRESENT", "ABSENT"] else ["DELETED"]

variable [Runtime]

/-- `broker_document(value, variant)` -/
def brokerDocument (input : Input) (variant : BrokerVariant) : Py Json := do
  let result ← document input variant.maximum
  shape variant.shape result
  pure result

/-! ## The transcript -/

/-- `BrokerTranscript`; what is `None` there is null here. -/
structure Transcript where
  binding : Json
  dispatch : Json
  sequence : ℕ
  previous : Digest
  execution : Json
  pending : Json
  cleanup : Json
  terminal : Json
  actions : Finset ℤ
  chunks : List Bytes
  receiptSize : ℕ
  failedAction : Bool
  poisoned : Bool

namespace Transcript

/-- `BrokerTranscript(binding, dispatch)` -/
def new (binding dispatch : Input) : Py Transcript := do
  let binding ← brokerDocument binding .binding
  let dispatch ← brokerDocument dispatch .dispatch
  let digest ← canonicalDigest binding none
  require "BROKER_BINDING_MISMATCH" ((← item dispatch "bindingDigest") = .str digest.text)
  pure ⟨binding, dispatch, 0, zero, .null, .null, .null, .null, ∅, [], 0, false, false⟩

variable (t : Transcript)

omit [Runtime] in
/-- `self.binding["caseResourceDigests"][self.dispatch["caseId"]]` -/
def assigned : Py (List Json) := do
  let digests ← item t.binding "caseResourceDigests"
  iterate (← item digests (← textItem t.dispatch "caseId"))

/-- A `RESOURCE_ACTION` -/
def onAction (payload : Json) : Py Transcript := do
  let actionId ← intItem payload "actionId"
  require "BROKER_RESOURCE_ACTION_INVALID"
    (t.pending = .null ∧ t.chunks = [] ∧ t.cleanup = .null ∧ actionId ∉ t.actions ∧
      (← item payload "manifestDigest") ∈ (← t.assigned))
  let pending ← document (.data payload) 16384
  pure { t with pending := pending, actions := insert actionId t.actions }

omit t in
/-- The object that a result returns. -/
def checkObject (object : Json) : Py Unit := do
  let value ← document (.bytes (← base64Bytes object 16384)) 16384
  require "BROKER_RESOURCE_OBJECT_INVALID" (isObject value)

/-- A `RESOURCE_RESULT` -/
def onResult (payload : Json) : Py Transcript := do
  require "BROKER_RESULT_WITHOUT_ACTION" (t.pending ≠ .null)
  require "BROKER_RESULT_WITHOUT_ACTION" ((← item payload "actionId") = (← item t.pending "actionId"))
  let outcome ← item payload "outcome"
  require "BROKER_RESOURCE_OUTCOME_INVALID" (isOneOf outcome (permitted (← item t.pending "verb") ++ ["DENIED", "AMBIGUOUS"]))
  let object ← item payload "objectBase64"
  require "BROKER_RESOURCE_OBJECT_INVALID" (isOneOf outcome ["CREATED", "PRESENT"] = decide (object ≠ .null))
  if isOneOf outcome ["CREATED", "PRESENT"] then checkObject object
  pure { t with failedAction := t.failedAction || isOneOf outcome ["DENIED", "AMBIGUOUS"], pending := .null }

omit [Runtime] in
/-- A `RECEIPT_CHUNK` -/
def onChunk (payload : Json) : Py Transcript := do
  require "BROKER_CHUNK_ORDER" (t.pending = .null ∧ t.cleanup = .null ∧ (← item payload "index") = .int t.chunks.length)
  let chunk ← base64Bytes (← item payload "dataBase64") 24576
  require "BROKER_RECEIPT_SIZE" (t.receiptSize + chunk.length ≤ 4194304)
  pure { t with chunks := t.chunks ++ [chunk], receiptSize := t.receiptSize + chunk.length }

omit [Runtime] in
/-- One remaining resource, after the keys already seen. -/
def onRemaining (seen : List (Json × Json × Json)) (row : Json) : Py (List (Json × Json × Json)) := do
  let key := (← item row "kind", ← item row "namespace", ← item row "name")
  require "BROKER_CLEANUP_SCOPE" (key ∉ seen ∧ (← item row "manifestDigest") ∈ (← t.assigned) ∧
    ((← item row "uid") ≠ .null ∨ (← item row "reasonCode") = .str "IO_AMBIGUOUS"))
  pure (key :: seen)

/-- A `CLEANUP_RECORDED` -/
def onCleanup (payload : Json) : Py Transcript := do
  let remaining ← iterate (← item payload "remainingResources")
  require "BROKER_CLEANUP_ORDER"
    (t.pending = .null ∧ t.chunks ≠ [] ∧ t.cleanup = .null ∧ ((← item payload "state") = .str "CLEAN" ↔ remaining = []))
  let _ ← remaining.foldlM t.onRemaining []
  let cleanup ← document (.data payload) 16384
  pure { t with cleanup := cleanup }

/-- A `TERMINAL` -/
def onTerminal (payload : Json) : Py Transcript := do
  require "BROKER_TERMINAL_MISMATCH" (t.pending = .null ∧ t.cleanup ≠ .null)
  require "BROKER_TERMINAL_MISMATCH"
    ((← item payload "receiptSize") = .int t.receiptSize ∧
      (← item payload "receiptDigest") = .str (byteDigest t.chunks.flatten).text ∧
      (← item payload "cleanupDigest") = (← item t.cleanup "cleanupDigest"))
  require "BROKER_FALSE_COMPLETION"
    ((← item payload "status") ≠ .str "COMPLETED" ∨ ((← item t.cleanup "state") = .str "CLEAN" ∧ t.failedAction = false))
  let terminal ← document (.data payload) 16384
  pure { t with terminal := terminal }

/-- What a frame of each kind does to the transcript. -/
def onPayload (kind payload : Json) : Py Transcript :=
  if kind = .str "RESOURCE_ACTION" then t.onAction payload
  else if kind = .str "RESOURCE_RESULT" then t.onResult payload
  else if kind = .str "RECEIPT_CHUNK" then t.onChunk payload
  else if kind = .str "CLEANUP_RECORDED" then t.onCleanup payload
  else if kind = .str "TERMINAL" then t.onTerminal payload
  else if kind ≠ .str "STARTED" then .error (.conformance "BROKER_ABORTED" "execution refused; no success receipt")
  else pure t

omit [Runtime] in
/-- `all(frame[k] == self.dispatch[k] for k in BROKER_COMMON)` and the place in the chain. -/
def checkChain (frame : Json) : Py Unit := do
  (commonShapes.map Prod.fst).forM fun k => do
    require "BROKER_TRANSCRIPT_BINDING" ((← item frame k) = (← item t.dispatch k))
  require "BROKER_TRANSCRIPT_BINDING"
    ((← item frame "sequence") = .int (t.sequence + 1) ∧ (← item frame "previousDigest") = .str t.previous.text)

omit [Runtime] in
/-- The first frame names the execution and the others repeat it. -/
def checkExecution (frame kind : Json) : Py Transcript := do
  if t.execution = .null then
    require "BROKER_CONTROLLED_START_REQUIRED" (kind = .str "STARTED")
    pure { t with execution := ← item frame "executionId" }
  else
    require "BROKER_EXECUTION_REPLAY" ((← item frame "executionId") = t.execution ∧ kind ≠ .str "STARTED")
    pure t

/-- `accept`, but for the poison: the transcript after a frame, and the frame. -/
def step (raw : Input) (sender : String) : Py (Transcript × Json) := do
  let frame ← brokerDocument raw .frame
  require "BROKER_DIRECTION_INVALID" (sender ∈ ["BROKER", "SERVER"])
  let kind ← item frame "kind"
  let payload ← item frame "payload"
  require "BROKER_DIRECTION_INVALID" (sender = "SERVER" ↔ isOneOf kind ["RESOURCE_RESULT", "CLEANUP_RECORDED", "ABORT"] = true)
  t.checkChain frame
  let t ← t.checkExecution frame kind
  let t ← t.onPayload kind payload
  let digest ← canonicalDigest frame none
  pure ({ t with sequence := t.sequence + 1, previous := digest }, frame)

/-- `accept(raw, sender)`: a refused frame poisons the transcript, unless it was closed before. -/
def accept (raw : Input) (sender : String) : Transcript × Py Json :=
  if t.poisoned = true ∨ t.terminal ≠ .null then (t, .error (refusal "BROKER_TRANSCRIPT_CLOSED"))
  else
    match t.step raw sender with
    | .ok (after, frame) => (after, .ok frame)
    | .error e => ({ t with poisoned := true }, .error e)

/-- The frame that `server_frame(kind, payload)` builds. -/
def nextFrame (kind : String) (payload : Json) : Py Json := do
  let common ← (commonShapes.map Prod.fst).mapM fun k => do pure (k, ← item t.dispatch k)
  pure (.obj (("schemaVersion", .str "planeon.internal.broker-frame/v1") :: common ++
    [("executionId", t.execution), ("sequence", .int (t.sequence + 1)), ("previousDigest", .str t.previous.text),
      ("kind", .str kind), ("payload", payload)]))

/-- `server_frame(kind, payload)` -/
def serverFrame (kind : String) (payload : Json) : Transcript × Py Bytes :=
  if t.execution = .null then (t, .error (refusal "BROKER_CONTROLLED_START_REQUIRED"))
  else
    match t.nextFrame kind payload with
    | .error e => (t, .error e)
    | .ok frame =>
      match t.accept (.data frame) "SERVER" with
      | (after, .ok _) => (after, canonicalBytes frame)
      | (after, .error e) => (after, .error e)

/-- `receipt()` -/
def receipt : Py Bytes := do
  require "BROKER_TERMINAL_REQUIRED" (t.poisoned = false ∧ t.terminal ≠ .null)
  pure t.chunks.flatten

end Transcript

end HarnessConformance.Admission
