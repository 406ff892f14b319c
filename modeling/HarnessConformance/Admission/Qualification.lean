import HarnessConformance.Lib.Splitting
import HarnessConformance.Admission.Pinned

/-! # Qualification records and captures

`validate_qualification_record` and `validate_qualification_capture` of `live_mutation_admission.py`: the record
enrols the files, programs and labels of four roles, and a capture is held against one of them. -/

namespace HarnessConformance.Admission
open Lib Lib.Outcome Lib.Lines
set_option autoImplicit false

/-! ## Addresses -/

inductive IpVersion where
  | v4
  | v6
  deriving DecidableEq

/-- What the checks ask of an address of `ipaddress`. -/
structure Address where
  version : IpVersion
  /-- `str(address)` -/
  text : String
  isUnspecified : Bool
  isMulticast : Bool
  /-- `address.ipv4_mapped is not None` -/
  isMapped : Bool
  /-- `address.scope_id is not None` -/
  isScoped : Bool
  deriving DecidableEq

/-- `ipaddress.ip_address(text)`, with `none` for its `ValueError`. -/
class AddressReader where
  ipAddress : String → Option Address

/-! ## Documents -/

inductive QualificationVariant where
  | record
  | capture

def QualificationVariant.spec : QualificationVariant → Spec
  | record => Pinned.record
  | capture => Pinned.capture

/-- `all(32 <= ord(c) <= 126 for c in item)` -/
def isPrintable (text : String) : Bool := text.toList.all fun c => 32 ≤ c.toNat && c.toNat ≤ 126

mutual
/-- All keys and texts are printable, whichever of them the source looks at first. -/
def isPrintableAscii : Json → Bool
  | .str text => isPrintable text
  | .obj members => membersPrintable members
  | .arr items => itemsPrintable items
  | _ => true
def itemsPrintable : List Json → Bool
  | [] => true
  | v :: vs => isPrintableAscii v && itemsPrintable vs
def membersPrintable : Json.Members → Bool
  | [] => true
  | (k, v) :: ms => isPrintable k && isPrintableAscii v && membersPrintable ms
end

/-- The texts of a list. -/
def textsOf (value : Json) : Py (List String) := do
  (← iterate value).mapM fun v =>
    match v with
    | .str text => pure text
    | _ => .error .typeError

/-- `{row["path"]: row for row in rows}`, as long as no two rows share a path. -/
def inventory (rows : List Json) : Py (List (String × Json)) := rows.mapM fun row => do pure (← textItem row "path", row)

/-- `files[path]` -/
def fileAt (files : List (String × Json)) (path : String) : Py Json :=
  match files.lookup path with
  | some row => .ok row
  | none => .error (.keyError path)

section
variable [Runtime]

/-- `_qualification_document(value, variant)` -/
def qualificationDocument (value : Input) (variant : QualificationVariant) : Py Json := do
  let value ← document value 262144
  require "QUALIFICATION_ASCII_REQUIRED" (isPrintableAscii value)
  shapeIn Pinned.qualificationDefinitions variant.spec value
  pure value

/-! ## Records -/

/-- `_canonical_qualification_path(value)` -/
def requireCanonicalPath (value : Json) : Py Unit :=
  match value with
  | .str path => require "QUALIFICATION_PATH_INVALID" (path.toList.head? = some '/' ∧ '\\' ∉ path.toList ∧
      (Splitting.split ['/'] path.toList).length ≤ 65 ∧
      ∀ part ∈ Splitting.split ['/'] (path.toList.drop 1), part ∉ [[], ['.'], ['.', '.']])
  | _ => .error (refusal "QUALIFICATION_PATH_INVALID")

/-- The record is for the profile, in its scope and in an even epoch of the policy. -/
def requireRecordScope (record profile : Json) : Py Unit := do
  let scope ← item profile "binding"
  let stated ← item record "scope"
  let expected ← (← membersOf stated).mapM fun m => do pure (m.1, ← item scope m.1)
  require "QUALIFICATION_PROFILE_SCOPE" (pyEq (← item record "profileDigest") (.str (← canonicalDigest profile none).text) ∧
    pyEq stated (.obj expected))
  let status ← item (← item record "selinux") "status"
  require "QUALIFICATION_POLICY_EPOCH" ((← intItem status "sequence") % 2 = 0)

def endpointFields : List String := ["endpointId", "kind", "addressFamily", "ipAddress", "port"]

/-- The address of an endpoint is numeric, in its one spelling, and reaches a single peer. -/
def requireAddress [AddressReader] (row : Json) : Py Unit := do
  let text ← textItem row "ipAddress"
  match AddressReader.ipAddress text with
  | none => .error (refusal "QUALIFICATION_ENDPOINTS")
  | some address =>
    require "QUALIFICATION_ENDPOINTS" (address.text = text ∧ address.isUnspecified = false ∧ address.isMulticast = false ∧
      ¬ (address.version = .v6 ∧ (address.isMapped = true ∨ address.isScoped = true)) ∧
      pyEq (← item row "addressFamily") (.str (if address.version = .v4 then "IPV4" else "IPV6")))

/-- The body of the loop over `endpoints`: the row. -/
def endpointRow [AddressReader] (endpoint : Json) : Py Json := do
  match endpoint with
  | .obj members =>
    require "QUALIFICATION_ENDPOINTS" (sameSet endpointFields (Json.keys members))
    let row := Json.obj (← endpointFields.mapM fun key => do pure (key, ← item endpoint key))
    shapeIn Pinned.qualificationDefinitions Pinned.endpoint row
    requireAddress row
    pure row
  | _ => .error (refusal "QUALIFICATION_ENDPOINTS")

/-- The endpoints that the profile is about. Its own checks keep the two names apart. -/
def expectedEndpoints (profile : Json) : Py (List (Json × Json)) := do
  let scope ← item profile "binding"
  let endpoint ← item scope "endpointId"
  let resources ← iterate (← item profile "resources")
  if resources ≠ [] then
    pure [(endpoint, .str "CAMPAIGN_PROXY"), (← item scope "apiEndpointId", .str "KUBERNETES_API_PROXY")]
  else pure [(endpoint, .str "CAMPAIGN_PROXY")]

/-- The endpoints handed over are those of the record; their names. -/
def requireEndpoints [AddressReader] (record profile endpoints : Json) : Py (List Json) := do
  match endpoints with
  | .arr items =>
    require "QUALIFICATION_ENDPOINTS" (1 ≤ items.length ∧ items.length ≤ 16)
    let tuples ← items.mapM endpointRow
    let ids ← tuples.mapM fun row => item row "endpointId"
    require "QUALIFICATION_ENDPOINTS" (ids.Nodup ∧ pyEq (← item record "endpointTuples") (.arr tuples))
    let kinds ← tuples.mapM fun row => item row "kind"
    require "QUALIFICATION_ENDPOINT_SCOPE" ((← expectedEndpoints profile) ⊆ ids.zip kinds)
    pure ids
  | _ => .error (refusal "QUALIFICATION_ENDPOINTS")

/-- The body of the loop over the segments of a file, after those already seen. -/
def requireSegment (size : ℤ) (seen : List (ℤ × ℤ × Json)) (segment : Json) : Py (List (ℤ × ℤ × Json)) := do
  let offset ← intItem segment "offset"
  let length ← intItem segment "length"
  let permissions ← item segment "permissions"
  require "QUALIFICATION_SEGMENT_INVALID" ((offset, length, permissions) ∉ seen ∧ offset < size ∧
    offset + length ≤ (size + 4095) / 4096 * 4096)
  pure ((offset, length, permissions) :: seen)

def requireFile (row : Json) : Py Unit := do
  requireCanonicalPath (← item row "path")
  require "QUALIFICATION_CONFLATED_DIGEST" (pyEq (← item row "sha256") (← item row "verityDigest") = false)
  let size ← intItem row "size"
  let _ ← (← iterate (← item row "executableSegments")).foldlM (requireSegment size) []

/-- The files of the record by their paths. -/
def requireFiles (record : Json) : Py (List (String × Json)) := do
  let files ← inventory (← iterate (← item record "files"))
  let sizes ← files.mapM fun f => intItem f.2 "size"
  require "QUALIFICATION_FILE_INVENTORY" ((files.map Prod.fst).Nodup ∧ sizes.sum ≤ 536870912)
  files.forM fun f => requireFile f.2
  pure files

/-- The interpreter of a role, or else its executable, is native code. -/
def requireNative (files : List (String × Json)) (selected : List String) (role artifact : Json) : Py Unit := do
  match ← item role "interpreterPath" with
  | .null => require "QUALIFICATION_NATIVE_ELF_REQUIRED" ((← iterate (← item artifact "executableSegments")) ≠ [])
  | .str path =>
    require "QUALIFICATION_INTERPRETER" (path ∈ selected)
    let row ← fileAt files path
    require "QUALIFICATION_INTERPRETER" (pyEq (← item row "mode") (.str "0555") ∧
      (← iterate (← item row "executableSegments")) ≠ [])
  | _ => .error (refusal "QUALIFICATION_INTERPRETER")

/-- The files of a role are enrolled, with its executable among them; their paths. -/
def requireRoleFiles (files : List (String × Json)) (role : Json) : Py (List String) := do
  requireCanonicalPath (← item (← item role "cgroup") "path")
  let selected ← textsOf (← item role "filePaths")
  let executable ← textItem role "executable"
  require "QUALIFICATION_ROLE_FILES" (selected ⊆ files.map Prod.fst ∧ executable ∈ selected)
  let artifact ← fileAt files executable
  require "QUALIFICATION_ARTIFACT_MISMATCH" (pyEq (← item artifact "sha256") (← item role "artifactDigest") ∧
    pyEq (← item artifact "mode") (.str "0555"))
  requireNative files selected role artifact
  pure selected

/-- A role reaches endpoints of the record only: the worker none, the server the one of the API. -/
def requireOutbound (profile : Json) (ids : List Json) (name : String) (role : Json) : Py Unit := do
  let outbound ← iterate (← item role "outboundEndpointIds")
  require "QUALIFICATION_OUTBOUND_SCOPE" (outbound ⊆ ids)
  if name = "WORKER" then require "QUALIFICATION_WORKER_NETWORK" (outbound = [])
  if name = "SERVER" then
    let resources ← iterate (← item profile "resources")
    let expected ← if resources ≠ [] then do pure [← item (← item profile "binding") "apiEndpointId"] else pure []
    require "QUALIFICATION_OUTBOUND_SCOPE" (outbound = expected)

def requireProgram (hook : String) (program : Json) : Py Unit := do
  require "QUALIFICATION_PROGRAM_INVALID" ((← intItem program "programType") = (if hook = "INET_SOCK_CREATE" then 9 else 18) ∧
    (← intItem program "instructionBytes") % 8 = 0)

/-- The body of the loop over the roles: the paths that the role uses. -/
def requireRole (profile : Json) (files : List (String × Json)) (ids : List Json) (name : String) (role : Json) :
    Py (List String) := do
  let selected ← requireRoleFiles files role
  requireOutbound profile ids name role
  (← membersOf (← item role "bpfPrograms")).forM fun m => requireProgram m.1 m.2
  pure selected

/-- The checks after the two documents were read. -/
def requireRecord [AddressReader] (record profile endpoints : Json) : Py Unit := do
  requireRecordScope record profile
  let ids ← requireEndpoints record profile endpoints
  let files ← requireFiles record
  let used ← (← membersOf (← item record "roles")).mapM fun m => requireRole profile files ids m.1 m.2
  require "QUALIFICATION_UNUSED_FILE" (sameSet used.flatten (files.map Prod.fst))

/-- `validate_qualification_record(value, profile, endpoints)` -/
def validateQualificationRecord [AddressReader] (value profile : Input) (endpoints : Json) : Py Json := do
  let record ← qualificationDocument value .record
  let profile ← validateProfile profile
  requireRecord record profile endpoints
  pure record

/-! ## Captures -/

/-- The capture is of a role of the record, on its host; the role. -/
def requireCaptureBinding (record capture role : Json) : Py Json := do
  let roles ← membersOf (← item record "roles")
  match role with
  | .str name =>
    require "QUALIFICATION_CAPTURE_BINDING" (name ∈ Json.keys roles ∧ pyEq (← item capture "role") role ∧
      pyEq (← item capture "qualificationDigest") (.str (byteDigest (← canonicalBytes record)).text) ∧
      pyEq (← item capture "host") (← item record "host"))
    item (.obj roles) name
  | _ => .error (refusal "QUALIFICATION_CAPTURE_BINDING")

/-- The policy was the one of the record before and after the inspection. -/
def requirePolicyStatus (record capture : Json) : Py Unit := do
  let selinux ← item record "selinux"
  let after ← item capture "selinuxAfter"
  require "QUALIFICATION_POLICY_CHANGED" (pyEq (← item capture "selinuxBefore") after ∧ pyEq after (← item selinux "status") ∧
    pyEq (← item capture "kernelPolicyDigest") (← item selinux "policyDigest"))

/-- The inspection was short, before its deadline and in the window of the scope. -/
def requireInspection (record capture : Json) : Py Unit := do
  let started ← intItem capture "inspectionStartedMs"
  let finished ← intItem capture "inspectionFinishedMs"
  let deadline ← intItem capture "deadlineMs"
  require "QUALIFICATION_INSPECTION_EXPIRED" (started ≤ finished ∧ finished < deadline ∧ finished - started ≤ 2000 ∧
    deadline - started ≤ 900000)
  let now ← time (← item capture "observedAt")
  let scope ← item record "scope"
  let validFrom ← time (← item scope "validFrom")
  let expiresAt ← time (← item scope "expiresAt")
  require "QUALIFICATION_INSPECTION_EXPIRED" (validFrom ≤ now ∧ now < expiresAt)

def processFields : List String := ["uid", "gid", "processLabel", "namespaceInodes", "cgroup", "seccompMode"]

/-- The process runs as its role says. -/
def requireProcess (capture role : Json) : Py Unit := do
  let process ← item capture "process"
  processFields.forM fun field => do
    require "QUALIFICATION_PROCESS_CHANGED" (pyEq (← item process field) (← item role field))

/-- The files that a role enrols, by their paths. -/
def enrolledFiles (record role : Json) : Py (List (String × Json)) := do
  let selected ← textsOf (← item role "filePaths")
  let files ← inventory (← iterate (← item record "files"))
  pure (files.filter fun f => f.1 ∈ selected)

/-- `{"path": path, **segment, "device": row["device"], "inode": row["inode"]}` -/
def mappingOf (path : String) (device inode : ℤ) (segment : Json) : Py Json := do
  pure (.obj (("path", .str path) :: ((← membersOf segment) ++ [("device", .int device), ("inode", .int inode)])))

/-- The inodes seen and the mappings gathered. -/
structure FileScan where
  seen : List (ℤ × ℤ)
  mappings : List Json

/-- The body of the loop over the files observed. -/
def requireObservedFile (expected : List (String × Json)) (s : FileScan) (f : String × Json) : Py FileScan := do
  let (path, row) := f
  let device ← intItem row "device"
  let inode ← intItem row "inode"
  let file ← fileAt expected path
  require "QUALIFICATION_FILE_CHANGED" ((device, inode) ∉ s.seen ∧ pyEq (← item row "entry") file ∧
    pyEq (← item row "contentDigest") (← item file "sha256") ∧ pyEq (← item row "measuredVerity") (← item file "verityDigest"))
  let mappings ← (← iterate (← item file "executableSegments")).mapM (mappingOf path device inode)
  pure ⟨(device, inode) :: s.seen, s.mappings ++ mappings⟩

/-- The files observed are those enrolled; the mappings that they call for. -/
def requireObservedFiles (record capture role : Json) : Py (List Json) := do
  let expected ← enrolledFiles record role
  let rows ← iterate (← item capture "files")
  let actual ← rows.mapM fun row => do pure (← textItem (← item row "entry") "path", row)
  require "QUALIFICATION_FILE_INVENTORY" ((actual.map Prod.fst).Nodup ∧
    sameSet (actual.map Prod.fst) (expected.map Prod.fst))
  pure (← actual.foldlM (requireObservedFile expected) ⟨[], []⟩).mappings

/-- The executable mappings observed are those called for, in any order. -/
def requireMappings (capture : Json) (mappings : List Json) : Py Unit := do
  let expected ← mappings.mapM canonicalBytes
  let observed ← (← iterate (← item capture "executableMaps")).mapM canonicalBytes
  require "QUALIFICATION_MAPPING_CHANGED" (expected.insertionSort (· ≤ ·) = observed.insertionSort (· ≤ ·))

/-- The body of the loop over the programs observed. -/
def requireObservedProgram (role : Json) (hook : String) (observed : Json) : Py Unit := do
  let program ← item (← item role "bpfPrograms") hook
  let effective ← item observed "effectiveIds"
  require "QUALIFICATION_PROGRAM_CHANGED" (pyEq (← item observed "program") program ∧
    pyEq (← item observed "localIds") effective ∧ pyEq effective (.arr [← item program "programId"]))

/-- What a capture shares with the one before. -/
def retainedFields : List String :=
  ["host", "process", "files", "executableMaps", "bpfPrograms", "selinuxBefore", "selinuxAfter", "kernelPolicyDigest"]

/-- The capture continues the one before, under its deadline. -/
def requireRetained (capture previous : Json) : Py Unit := do
  retainedFields.forM fun key => do
    require "QUALIFICATION_RETAINED_IDENTITY_CHANGED" (pyEq (← item capture key) (← item previous key))
  require "QUALIFICATION_LIFETIME_CHANGED" ((← intItem previous "inspectionFinishedMs") ≤ (← intItem capture "inspectionStartedMs") ∧
    (← textItem previous "observedAt").toList ≤ (← textItem capture "observedAt").toList ∧
    (← intItem capture "deadlineMs") = (← intItem previous "deadlineMs"))

/-- The checks on a capture by itself, after the two documents were read. -/
def requireCapture (record capture role : Json) : Py Unit := do
  let entry ← requireCaptureBinding record capture role
  requirePolicyStatus record capture
  requireInspection record capture
  requireProcess capture entry
  let mappings ← requireObservedFiles record capture entry
  requireMappings capture mappings
  (← membersOf (← item capture "bpfPrograms")).forM fun m => requireObservedProgram entry m.1 m.2

/-- `validate_qualification_capture(record, capture, profile, endpoints, role=role)`; the two documents. -/
def validateCapture [AddressReader] (record capture profile : Input) (endpoints role : Json) : Py (Json × Json) := do
  let record ← validateQualificationRecord record profile endpoints
  let capture ← qualificationDocument capture .capture
  requireCapture record capture role
  pure (record, capture)

/-- `validate_qualification_capture(record, capture, profile, endpoints, role=role, previous=previous)` -/
def validateQualificationCapture [AddressReader] (record capture profile : Input) (endpoints role : Json)
    (previous : Option Input) : Py Unit := do
  let (record, capture) ← validateCapture record capture profile endpoints role
  match previous with
  | none => pure ()
  | some previous =>
    let _ ← validateCapture (.data record) previous profile endpoints role
    match previous with
    | .data value => requireRetained capture value
    | _ => .error .typeError

end

end HarnessConformance.Admission
