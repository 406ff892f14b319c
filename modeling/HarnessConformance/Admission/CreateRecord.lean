import HarnessConformance.Admission.Ledger
import HarnessConformance.Admission.Qualification

/-! # What a creation records

`validate_observed_manifest` and `_create_record` of `live_mutation_admission.py`: the resource that a row of the ledger
states, from a profile, a broker binding and an action of that binding. -/

namespace HarnessConformance.Admission
open Lib Lib.Outcome Lib.Lines
set_option autoImplicit false

def actionFields : List String := ["actionId", "verb", "manifestDigest"]

/-- The fields of a binding that are no digests. -/
def scopeFields : List String := ["tenantId", "environmentId", "runNonce", "capacityNonce", "endpointId"]

/-- `value.get(key, default)` -/
def getOr (value : Json) (key : String) (default : Json) : Py Json :=
  match value with
  | .obj members => .ok ((members.lookup key).getD default)
  | _ => .error .attributeError

/-- `value.pop(key, None)`: what it returns and what it leaves. A list takes one argument, and other values have no `pop`. -/
def popItem (value : Json) (key : String) : Py (Json × Json) :=
  match value with
  | .obj members => .ok ((members.lookup key).getD .null, .obj (members.filter (·.1 ≠ key)))
  | .arr _ => .error .typeError
  | _ => .error .attributeError

/-- A dictionary with one of its values replaced, as a change of that value in place leaves it. -/
def replaced (value : Json) (key : String) (content : Json) : Json :=
  match value with
  | .obj members => .obj (members.map fun m => if m.1 = key then (key, content) else m)
  | _ => value

/-- `str(ipaddress.ip_address(address)) == address` -/
def requireClusterIp [AddressReader] (address : Json) : Py Unit :=
  match address with
  | .str text =>
    match AddressReader.ipAddress text with
    | some parsed => require "ADMISSION_SERVICE_ADDRESS" (parsed.text = text)
    | none => .error .valueError
  | _ => .error (refusal "ADMISSION_SERVICE_ADDRESS")

/-- What the server assigned is taken out of the object; a service loses its address too. -/
def withoutAssigned [AddressReader] (actual metadata : Json) : Py Json := do
  let metadata ← ["uid", "resourceVersion", "creationTimestamp"].foldlM (fun m field => do pure (← popItem m field).2) metadata
  let actual := replaced actual "metadata" metadata
  if (← getItem actual "kind") = .str "Service" then do
    let (address, spec) ← popItem (← getOr actual "spec" (.obj [])) "clusterIP"
    requireClusterIp address
    pure (replaced actual "spec" spec)
  else pure actual

variable [Runtime] [AddressReader]

/-- `validate_observed_manifest(observed, expected)` -/
def validateObservedManifest (observed expected : Input) : Py (Uid × Version) := do
  let actual ← document observed 16384
  let signed ← document expected 16384
  let metadata ← getOr actual "metadata" (.obj [])
  let assigned ← getItem metadata "uid"
  let version ← getItem metadata "resourceVersion"
  let uid ← requireText (refusal "ADMISSION_IDENTITY_MISSING") uidPattern.fullmatch assigned
  let version ← requireText (refusal "ADMISSION_IDENTITY_MISSING") versionPattern.fullmatch version
  let stripped ← withoutAssigned actual metadata
  require "ADMISSION_POST_MUTATION_MISMATCH" (pyEq stripped signed)
  pure (uid, version)

omit [AddressReader] in
/-- The binding is that of the profile and of the broker. -/
def requireCreateBinding (binding profile brokerBinding : Json) : Py Unit := do
  let digest ← canonicalDigest profile none
  require "ADMISSION_CREATE_BINDING" ((← item binding "profileDigest") = .str digest.text ∧
    (← item brokerBinding "profileDigest") = .str digest.text)
  let scope ← item profile "binding"
  scopeFields.forM fun k => do require "ADMISSION_CREATE_BINDING" ((← item binding k) = (← item scope k))

omit [Runtime] [AddressReader] in
/-- Every resource is assigned to one case, and the action's to the one that runs. The rows of the profile come back. -/
def requireOwnership (profile brokerBinding : Json) (operation : Case) (digest : Digest) : Py (List Json) := do
  let cases ← item brokerBinding "caseResourceDigests"
  let assigned ← Case.all.mapM fun c => do iterate (← item cases c.name)
  let rows ← iterate (← item profile "resources")
  let digests ← rows.mapM fun row => item row "manifestDigest"
  let own ← iterate (← item cases operation.name)
  require "ADMISSION_CREATE_OWNERSHIP" (assigned.flatten.Nodup ∧ (∀ d ∈ assigned.flatten, d ∈ digests) ∧
    (∀ d ∈ digests, d ∈ assigned.flatten) ∧ .str digest.text ∈ own)
  pure rows

omit [Runtime] [AddressReader] in
/-- `next(r["manifest"] for r in profile["resources"] if r["manifestDigest"] == digest)` -/
def manifestOf (rows : List Json) (digest : Digest) : Py Json :=
  match rows.find? fun row => row.get? "manifestDigest" = some (.str digest.text) with
  | some row => item row "manifest"
  | none => .error .stopIteration

/-- The uid and version, of an object that was observed. -/
def observedIdentity (observed : Option Input) (manifest : Json) : Py (Json × Json) :=
  match observed with
  | none => pure (.null, .null)
  | some object => do
    let (uid, version) ← validateObservedManifest object (.data manifest)
    pure (.str uid.text, .str version.text)

/-- `_create_record(binding, operation, profile, broker_binding, action, observed)` -/
def createRecord (binding : Input) (operation : Json) (profile brokerBinding action : Input) (observed : Option Input) : Py Json := do
  let binding ← document binding 16384
  closed binding bindingFields
  let profile ← validateProfile profile
  let brokerBinding ← brokerDocument brokerBinding .binding
  let action ← document action 16384
  closed action actionFields
  let operation ← requireCase "ADMISSION_CREATE_ACTION" operation
  let actionId ← requireActionId "ADMISSION_CREATE_ACTION" (← item action "actionId")
  require "ADMISSION_CREATE_ACTION" ((← item action "verb") = .str "CREATE")
  let digest ← requireDigest (← item action "manifestDigest") "manifestDigest"
  requireCreateBinding binding profile brokerBinding
  let rows ← requireOwnership profile brokerBinding operation digest
  let manifest ← manifestOf rows digest
  let metadata ← item manifest "metadata"
  let (uid, version) ← observedIdentity observed manifest
  pure (.obj [("actionId", .int actionId.val), ("apiVersion", ← item manifest "apiVersion"), ("kind", ← item manifest "kind"),
    ("namespace", ← item metadata "namespace"), ("name", ← item metadata "name"), ("manifestDigest", .str digest.text),
    ("uid", uid), ("resourceVersion", version)])

end HarnessConformance.Admission
