import HarnessConformance.Admission.Specification
import HarnessConformance.Admission.Broker

/-! # The pinned specifications

`_PROFILE_SPEC`, `_OBSERVATION_SPEC`, `_BROKER_SPEC` and `_QUALIFICATION_SPEC` keyword by keyword: the evaluator
reads each of them as a JSON Schema. -/

namespace HarnessConformance.Admission
open Lib Lib.Outcome Lib.Lines
set_option autoImplicit false

namespace Pinned
open Spec

/-! ## Parts -/

/-- A text with all three of its keywords. -/
def text (minLength maxLength : ℕ) (pattern : Regex) : Spec := string (some minLength) (some maxLength) (some pattern)

/-- A set of a bounded size. -/
def set (minItems maxItems : ℕ) (items : Spec) : Spec := array (some minItems) maxItems (some true) (some items)

/-- A list of a bounded size. -/
def list (minItems maxItems : ℕ) (items : Spec) : Spec := array (some minItems) maxItems none (some items)

def word (value : String) : Spec := constant (.str value)

def words (values : List String) : Spec := enumeration (values.map .str)

def number (value : ℤ) : Spec := constant (.int value)

def flag (value : Bool) : Spec := constant (.bool value)

def null : Spec := typed .null

def digest : Spec := text 1 71 digestPattern

def uid : Spec := text 1 128 uidPattern

def time : Spec := text 1 20 secondPattern

def subject : Spec := text 1 256 subjectPattern

def natural : Spec := integer 0 9007199254740991

def positive : Spec := integer 1 9007199254740991

/-! ## Profiles -/

def id : Spec := text 1 128 namePattern

def image : Spec := text 1 1024 imagePattern

def labels : Spec := object [("planeon.ai/run-nonce", id), ("planeon.ai/tenant-id", id)]

def metadata : Spec := object [("name", id), ("namespace", id), ("labels", labels)]

def quantities : Spec :=
  object [("cpu", text 1 128 cpuPattern), ("memory", text 1 128 quantityPattern),
    ("ephemeral-storage", text 1 128 quantityPattern)]

def container : Spec :=
  object [("name", word "probe"), ("image", image), ("imagePullPolicy", word "Never"),
    ("resources", object [("requests", quantities), ("limits", quantities)]),
    ("securityContext", object [("allowPrivilegeEscalation", flag false), ("readOnlyRootFilesystem", flag true),
      ("runAsNonRoot", flag true), ("runAsUser", integer 10000 2147483647),
      ("seccompProfile", object [("type", word "RuntimeDefault")]),
      ("capabilities", object [("drop", constant (.arr [.str "ALL"]))])])]

def pod : Spec :=
  object [("apiVersion", word "v1"), ("kind", word "Pod"), ("metadata", metadata),
    ("spec", object [("restartPolicy", word "Never"), ("serviceAccountName", id),
      ("automountServiceAccountToken", flag false), ("enableServiceLinks", flag false), ("hostNetwork", flag false),
      ("hostPID", flag false), ("hostIPC", flag false), ("containers", list 1 1 container)])]

def configMap : Spec :=
  object [("apiVersion", word "v1"), ("kind", word "ConfigMap"), ("metadata", metadata), ("immutable", flag true),
    ("data", object [("fixture.json", string none (some 8192) none)])]

def service : Spec :=
  object [("apiVersion", word "v1"), ("kind", word "Service"), ("metadata", metadata),
    ("spec", object [("type", word "ClusterIP"), ("selector", labels),
      ("ports", list 1 1 (object [("name", word "probe"), ("protocol", word "TCP"), ("port", integer 1 65535),
        ("targetPort", integer 1 65535)]))])]

/-- `_PROFILE_SPEC["$defs"]` -/
def profileDefinitions : List (String × Spec) :=
  [("binding", object [("tenantId", id), ("environmentId", id), ("runNonce", id), ("capacityNonce", id),
      ("endpointId", id), ("namespace", id), ("serviceAccountSubject", subject), ("validFrom", time), ("expiresAt", time),
      ("apiEndpointId", choice [id, null])]),
    ("credentialIdentity", object [("endpointId", id),
      ("purpose", words ["CAMPAIGN_PROXY_CLIENT_MTLS", "KUBERNETES_PROXY_SERVER_MTLS"]), ("subject", subject),
      ("expiresAt", time), ("certificateDigest", digest), ("clientSpkiDigest", digest)]),
    ("apiRule", object [("endpointId", id), ("verb", words ["get", "create", "delete"]), ("apiGroup", word ""),
      ("apiVersion", word "v1"), ("resource", words ["pods", "configmaps", "services"]), ("namespace", id), ("name", id),
      ("subresource", word ""), ("requestMediaType", word "application/json"),
      ("responseMediaType", word "application/json"), ("requestMaxBytes", number 16384),
      ("responseMaxBytes", number 4194304)]),
    ("proxyRule", object [("endpointId", id), ("namespace", id), ("service", word "linux-baseline-probes"),
      ("port", integer 1 65535), ("protocol", word "HTTPS"), ("methods", constant (.arr [.str "POST"])),
      ("paths", set 10 10 (text 1 128 probePathPattern)), ("requestMediaType", word "application/json"),
      ("responseMediaType", word "application/json"), ("requestMaxBytes", number 16384),
      ("responseMaxBytes", number 4194304), ("timeoutSeconds", number 900)]),
    ("gvkRule", object [("apiGroup", word ""), ("apiVersion", word "v1"), ("kind", words ["Pod", "ConfigMap", "Service"]),
      ("verbs", constant (.arr [.str "create", .str "get", .str "delete"])), ("names", set 1 32 id)]),
    ("resourceRef", object [("apiVersion", word "v1"),
      ("kind", words ["ResourceQuota", "LimitRange", "ServiceAccount", "Service", "ConfigMap"]), ("namespace", id),
      ("name", id), ("uid", uid), ("observedDigest", digest)]),
    ("units", object [("pods", natural), ("configMaps", natural), ("services", natural), ("cpuMillis", natural),
      ("memoryBytes", natural), ("ephemeralStorageBytes", natural)]),
    ("manifest", choice [pod, configMap, service]),
    ("resource", object [("manifest", reference "manifest"), ("manifestDigest", digest)]),
    ("policy", object [("admissionPolicyDigest", digest), ("resourceQuotaDigest", digest), ("limitRangeDigest", digest),
      ("namespaceUid", uid), ("resourceQuotaUid", uid), ("limitRangeUid", uid), ("serviceAccountUid", uid),
      ("rbacDigest", digest), ("networkPolicyDigest", digest), ("mutationBrokerDigest", digest),
      ("maxConcurrentOperations", number 1), ("serviceAccountDigest", digest)])]

/-- `_PROFILE_SPEC` -/
def profile : Spec :=
  object [("profileId", word "CAMPAIGN_PROXY_MTLS_ZERO_COST_V1"), ("binding", reference "binding"),
    ("capacityEntries", object [("kubernetesApiRules", set 0 256 (reference "apiRule")),
      ("campaignProxyRules", set 1 1 (reference "proxyRule")),
      ("permittedGvksAndVerbs", set 0 3 (reference "gvkRule")),
      ("preexistingResourceRefs", set 0 256 (reference "resourceRef")),
      ("preallocatedStorageRefs", array none 0 none none), ("preallocatedAcceleratorRefs", array none 0 none none),
      ("credentialIdentities", set 1 2 (reference "credentialIdentity"))]),
    ("policy", reference "policy"), ("quota", reference "units"), ("resources", set 0 32 (reference "resource")),
    ("localImages", set 0 16 image)]

/-! ## Observations -/

def name : Spec := text 1 63 namePattern

def hex : Spec := text 1 64 hexPattern

def resourceVersion : Spec := text 1 128 resourceVersionPattern

def projection : List (String × Spec) :=
  [("apiVersion", text 1 128 apiVersionPattern), ("kind", text 1 128 kindPattern), ("name", name),
    ("namespace", choice [name, null]), ("uid", uid), ("projectionDigest", digest)]

/-- One object for each of the seven policies. -/
def projections (fields : List (String × Spec)) : Spec := object (Policy.all.map fun p => (p.name, object fields))

def pins : List (String × Spec) :=
  [("admissionFenceDigest", digest), ("rbacClosureDigest", digest), ("networkEnforcementDigest", digest),
    ("hostPreflightDigest", digest)]

def echo : List (String × Spec) :=
  [("bindingDigest", digest), ("runNonce", name), ("challenge", hex), ("sequence", positive),
    ("previousObservationDigest", digest)]

def units : Spec :=
  object [("pods", natural), ("configMaps", natural), ("services", natural), ("cpuMillis", natural),
    ("memoryBytes", natural), ("ephemeralStorageBytes", natural)]

/-- `_OBSERVATION_SPEC["$defs"]` -/
def observationDefinitions : List (String × Spec) :=
  [("binding", object [("schemaVersion", word "planeon.internal.policy-observation-binding/v1"), ("profileDigest", digest),
      ("scope", object [("tenantId", name), ("environmentId", name), ("runNonce", name), ("capacityNonce", name),
        ("endpointId", name), ("namespace", name), ("serviceAccountSubject", subject), ("validFrom", time),
        ("expiresAt", time)]),
      ("observer", object [("executableDigest", digest), ("manifestDigest", digest)]),
      ("namespace", object [("name", name), ("uid", uid)]), ("projections", projections projection),
      ("enforcementPins", object pins)]),
    ("request", object ([("schemaVersion", word "planeon.internal.policy-observation-request/v1"),
      ("operation", word "OBSERVE_POLICY")] ++ echo)),
    ("observation", object ([("schemaVersion", word "planeon.internal.policy-observation/v1")] ++ echo ++
      [("observerBootId", text 1 36 bootIdPattern), ("generation", hex), ("observedAt", time), ("expiresAt", time),
        ("namespace", object [("name", name), ("uid", uid), ("resourceVersion", resourceVersion)]),
        ("projections", projections (projection ++ [("resourceVersion", resourceVersion)])),
        ("quota", object [("hard", units), ("used", units)]),
        ("enforcement", object (("policyGeneration", hex) :: pins))]))]

/-! ## Broker messages -/

def caseId : Spec := words (Case.all.map Case.name)

def common : List (String × Spec) :=
  [("bindingDigest", digest), ("reservationDigest", digest), ("runNonce", name), ("caseId", caseId),
    ("requestDigest", digest), ("observationDigest", digest), ("generation", hex), ("challenge", hex)]

def payload : FrameKind → List (String × Spec)
  | .started => [("workerPid", integer 2 2147483647), ("workerStartTicks", positive)]
  | .resourceAction => [("actionId", integer 1 256), ("verb", words ["CREATE", "GET", "DELETE"]), ("manifestDigest", digest)]
  | .resourceResult =>
    [("actionId", integer 1 256), ("outcome", words ["ABSENT", "CREATED", "PRESENT", "DELETED", "DENIED", "AMBIGUOUS"]),
      ("objectBase64", choice [null, text 4 21848 base64Pattern])]
  | .receiptChunk => [("index", integer 0 170), ("dataBase64", text 4 32768 base64Pattern)]
  | .cleanupRecorded =>
    [("cleanupDigest", digest), ("state", words ["CLEAN", "CLEANUP_PENDING"]),
      ("remainingResources", set 0 32 (object [("apiVersion", word "v1"), ("kind", words ["Pod", "ConfigMap", "Service"]),
        ("namespace", name), ("name", name), ("uid", choice [null, uid]), ("manifestDigest", digest),
        ("reasonCode", words ["DELETE_DENIED", "UID_CHANGED", "DEADLINE", "IO_AMBIGUOUS", "OBSERVATION_UNAVAILABLE"])]))]
  | .terminal =>
    [("status", words ["COMPLETED", "FAILED", "UNAVAILABLE"]), ("receiptSize", integer 1 4194304), ("receiptDigest", digest),
      ("cleanupDigest", digest), ("workerReaped", flag true)]
  | .abort => [("reason", words ["DEADLINE", "REVOKED", "POLICY_LOST", "PEER_CHANGED", "IO_AMBIGUOUS", "INVALID_FRAME"])]
  | .refused => [("reason", words ["UNAVAILABLE", "REPLAY", "GENERATION_MISMATCH", "CAPACITY_HELD", "INVALID_AUTHORITY"])]

def frame (kind : FrameKind) : Spec :=
  object (("schemaVersion", word "planeon.internal.broker-frame/v1") :: common ++
    [("executionId", hex), ("sequence", integer 1 2048), ("previousDigest", digest), ("kind", word kind.name),
      ("payload", object (payload kind))])

def workerStart : Spec :=
  object [("schemaVersion", word "planeon.internal.broker-worker/v1"), ("operation", word "START"), ("executionId", hex),
    ("bindingDigest", digest), ("caseId", caseId), ("requestDigest", digest), ("generation", hex)]

/-- `_BROKER_SPEC["$defs"]` -/
def brokerDefinitions : List (String × Spec) :=
  [("binding", object [("schemaVersion", word "planeon.internal.broker-binding/v1"), ("profileDigest", digest),
      ("observationBindingDigest", digest), ("brokerManifestDigest", digest), ("brokerExecutableDigest", digest),
      ("workerManifestDigest", digest), ("workerArtifactDigest", digest),
      ("caseResourceDigests", object (Case.all.map fun c => (c.name, set 0 32 digest)))]),
    ("dispatch", object ([("schemaVersion", word "planeon.internal.broker-dispatch/v1"),
      ("operation", word "EXECUTE_FIXED_PROBE")] ++ common)),
    ("frame", choice (FrameKind.all.map frame)),
    ("workerStart", workerStart)]

/-! ## Qualifications -/

/-- Slashes, and names of letters, digits and four signs. -/
def filePattern : Regex :=
  .seq (.char '/') (.plus (.one fun c => c.isAlpha || c.isDigit || c == '_' || c == '.' || c == '/' || c == '+' || c == '-'))

/-- `^[ -~]+$` -/
def printablePattern : Regex := .plus (.one fun c => ' ' ≤ c && c ≤ '~')

/-- `^[0-9a-f]{8}-[0-9a-f]{4}-[0-9a-f]{4}-[0-9a-f]{4}-[0-9a-f]{12}$` -/
def uuidPattern : Regex :=
  .chain [.times hexDigit 8, .char '-', .times hexDigit 4, .char '-', .times hexDigit 4, .char '-', .times hexDigit 4,
    .char '-', .times hexDigit 12]

/-- A digest by its pattern alone. -/
def bareDigest : Spec := string none none (some digestPattern)

def label (maxLength : ℕ) : Spec := text 1 maxLength printablePattern

def permissions : Spec := words ["r-xp", "r-xs", "--xp", "--xs"]

def hooks : List String :=
  ["INET_SOCK_CREATE", "INET4_BIND", "INET6_BIND", "INET4_CONNECT", "INET6_CONNECT", "UDP4_SENDMSG", "UDP6_SENDMSG"]

def cgroup (path : Spec) : Spec :=
  object [("path", path), ("inode", positive), ("memoryMaxBytes", integer 1048576 1099511627776),
    ("pidsMax", integer 1 4096), ("cpuQuotaMicros", integer 1000 1000000), ("cpuPeriodMicros", integer 1000 1000000)]

/-- A role of a record, with what differs between the four. -/
def role (executable cgroupPath : String) (interpreter user : Spec) : Spec :=
  object [("executable", word executable), ("artifactDigest", bareDigest), ("interpreterPath", interpreter), ("uid", user),
    ("gid", user), ("processLabel", label 256), ("namespaceInodes", reference "namespaces"),
    ("cgroup", cgroup (word cgroupPath)), ("seccompMode", number 2), ("filePaths", set 1 128 (reference "path")),
    ("bpfPrograms", object (hooks.map fun hook => (hook, reference "program"))),
    ("outboundEndpointIds", set 0 16 (label 128))]

def record : Spec :=
  object [("schemaVersion", word "planeon.internal.native-qualification/v1"),
    ("qualificationProfile", word "SELINUX_FSVERITY_CGROUP_BPF_V1"), ("profileDigest", bareDigest),
    ("scope", reference "scope"), ("host", reference "host"),
    ("selinux", object [("policyDigest", bareDigest), ("status", reference "status")]),
    ("roles", object [
      ("SERVER", role "/opt/planeon/bin/harness-live-proxy-serve" "/sys/fs/cgroup/planeon-live/proxy-server"
        (word "/opt/planeon/python/3.12.14/bin/python3.12") (number 0)),
      ("OBSERVER", role "/opt/planeon/bin/harness-policy-observer" "/sys/fs/cgroup/planeon-live/policy-observer"
        (constant .null) (number 0)),
      ("BROKER", role "/opt/planeon/bin/harness-capacity-broker" "/sys/fs/cgroup/planeon-live/capacity-broker"
        (constant .null) (number 0)),
      ("WORKER", role "/opt/planeon/bin/harness-live-probe-exec" "/sys/fs/cgroup/planeon-live/probe-worker"
        (word "/opt/planeon/python/3.12.14/bin/python3.12") (integer 10000 2147483647))]),
    ("files", list 4 128 (reference "file")), ("endpointTuples", list 1 16 (reference "endpoint"))]

def capture : Spec :=
  object [("evidenceClass", word "DATA_CHECK_ONLY"), ("qualificationDigest", bareDigest),
    ("role", words ["SERVER", "OBSERVER", "BROKER", "WORKER"]), ("host", reference "host"),
    ("selinuxBefore", reference "status"), ("selinuxAfter", reference "status"), ("kernelPolicyDigest", bareDigest),
    ("observedAt", reference "time"), ("inspectionStartedMs", natural), ("inspectionFinishedMs", natural),
    ("deadlineMs", natural),
    ("process", object [("pid", integer 2 2147483647), ("startTicks", positive), ("uid", integer 0 2147483647),
      ("gid", integer 0 2147483647), ("processLabel", label 256), ("namespaceInodes", reference "namespaces"),
      ("cgroup", reference "cgroup"), ("seccompMode", number 2)]),
    ("files", list 1 128 (reference "fileObservation")), ("executableMaps", list 1 256 (reference "mapping")),
    ("bpfPrograms", object (hooks.map fun hook => (hook, reference "observedProgram")))]

def endpoint : Spec :=
  object [("endpointId", label 128), ("kind", words ["CAMPAIGN_PROXY", "KUBERNETES_API_PROXY"]),
    ("addressFamily", words ["IPV4", "IPV6"]), ("ipAddress", string (some 1) (some 45) none), ("port", integer 1 65535)]

/-- `_QUALIFICATION_SPEC["$defs"]` -/
def qualificationDefinitions : List (String × Spec) :=
  [("digest", bareDigest), ("path", text 1 4096 filePattern), ("time", time),
    ("scope", object [("tenantId", label 128), ("environmentId", label 128), ("runNonce", label 128),
      ("capacityNonce", label 128), ("namespace", label 253), ("validFrom", reference "time"),
      ("expiresAt", reference "time")]),
    ("host", object [("machine", words ["x86_64", "aarch64"]), ("kernelRelease", label 128), ("kernelNotesDigest", bareDigest),
      ("bootId", text 1 36 uuidPattern)]),
    ("status", object [("version", number 1), ("sequence", integer 0 4294967294), ("policyload", integer 1 4294967295),
      ("enforcing", number 1), ("denyUnknown", number 1)]),
    ("namespaces", object [("user", positive), ("mnt", positive), ("pid", positive), ("net", positive)]),
    ("segment", object [("offset", natural), ("length", integer 1 67108864), ("permissions", permissions)]),
    ("file", object [("path", reference "path"), ("mode", words ["0444", "0555"]), ("size", integer 1 67108864),
      ("sha256", bareDigest), ("verityDigest", bareDigest), ("selinuxLabel", label 256),
      ("executableSegments", list 0 16 (reference "segment"))]),
    ("program", object [("programId", integer 1 4294967295), ("programType", enumeration [.int 9, .int 18]),
      ("translatedSha256", bareDigest), ("instructionBytes", integer 8 65536), ("mapIds", list 0 0 natural),
      ("ifindex", number 0)]),
    ("cgroup", cgroup (reference "path")),
    ("fileObservation", object [("entry", reference "file"), ("device", positive), ("inode", positive), ("uid", number 0),
      ("gid", number 0), ("nlink", number 1), ("contentDigest", bareDigest), ("measuredVerity", bareDigest)]),
    ("mapping", object [("path", reference "path"), ("offset", natural), ("length", integer 1 67108864),
      ("permissions", permissions), ("device", positive), ("inode", positive)]),
    ("observedProgram", object [("program", reference "program"), ("localIds", set 1 16 positive),
      ("effectiveIds", set 1 16 positive)]),
    ("record", record), ("capture", capture), ("endpoint", endpoint)]

/-- A specification that the sources check a document against, with the definitions that they pass. -/
inductive Asked : List (String × Spec) → Spec → Prop where
  | profile : Asked profileDefinitions profile
  | observation {variant : String} {spec : Spec} (hvariant : variant ∈ ["binding", "request", "observation"])
    (hspec : observationDefinitions.lookup variant = some spec) : Asked observationDefinitions spec
  | broker {variant : String} {spec : Spec} (hvariant : variant ∈ ["binding", "dispatch", "frame", "workerStart"])
    (hspec : brokerDefinitions.lookup variant = some spec) : Asked brokerDefinitions spec
  | qualification {variant : String} {spec : Spec} (hvariant : variant ∈ ["record", "capture"])
    (hspec : qualificationDefinitions.lookup variant = some spec) : Asked qualificationDefinitions spec

end Pinned

/-! ## The evaluator on the pinned specifications -/

section
variable [Runtime]

/-- The text of a constant is plain and not long. -/
def isShort (c : Json) : Bool := isFlat c && (Json.plainWidth c).any fun n => decide (n ≤ 262144)

theorem isDocument_of_short {c : Json} (h : isShort c = true) : IsDocument c := by
  rw [isShort, Bool.and_eq_true, Option.any_eq_true] at h
  obtain ⟨hflat, n, hn, hle⟩ := h
  have hpinned : Pinned (.const c) := pinned_of_flat (by simpa [Shape.constants] using hflat)
  obtain ⟨hwf, hvalid⟩ := hpinned c (List.mem_singleton_self c)
  exact ⟨hwf, hvalid, (Json.plainWidth_eq_some hn).2.trans_le (of_decide_eq_true hle)⟩

/-- The check behind `Regular`. -/
def isRegular (s : Spec) : Bool :=
  s.limits.const.all isShort && s.limits.enum.all (fun cs => cs.all isShort) &&
    s.limits.pattern.all (fun p => p.start && p.stop) &&
    (match s.properties with
      | none => s.limits.required.isNone && s.limits.additionalProperties.isNone
      | some _ => s.limits.additionalProperties == some false)

theorem regular_of_isRegular {s : Spec} (h : isRegular s = true) : Regular s := by
  simp only [isRegular, Bool.and_eq_true, Option.all_eq_true, List.all_eq_true] at h
  obtain ⟨⟨⟨hconst, henum⟩, hpattern⟩, hobject⟩ := h
  refine ⟨⟨fun c hc => isDocument_of_short (hconst c hc), fun cs hcs c hc => isDocument_of_short (henum cs hcs c hc)⟩,
    hpattern, fun hproperties => ?_, fun hproperties => ?_⟩
  · obtain ⟨ps, hps⟩ := Option.ne_none_iff_exists'.mp hproperties
    rw [hps] at hobject
    exact beq_iff_eq.mp hobject
  · rw [hproperties, Bool.and_eq_true, Option.isNone_iff_eq_none, Option.isNone_iff_eq_none] at hobject
    exact hobject

theorem isDocument_of_document {input : Input} {maximum : ℕ} {v : Json} (hwf : input.Wf) (hmaximum : maximum ≤ 262144)
    (h : document input maximum = .ok v) : IsDocument v := by
  have hcanonical := document_canonical h
  have hwidth : v.width ≤ maximum := by
    cases input with
    | bytes raw => exact (document_bytes_iff.mp h).2.2.2.1
    | data w =>
      obtain ⟨-, -, ⟨hwidth, -⟩, rfl⟩ := (document_data_iff hwf).mp h
      rwa [Json.width_canon]
    | foreign => cases h
  exact ⟨hcanonical.wf, hcanonical.valid, hwidth.trans hmaximum⟩

namespace Pinned

/-- A specification that the standard's reading fits, over definitions that lead nowhere deep. -/
def Fit (definitions : List (String × Spec)) (spec : Spec) : Bool :=
  spec.nodes.all isRegular && Spec.grounded definitions 4 spec.refs

omit [Runtime] in
theorem fit_definitions : ∀ definitions ∈ [profileDefinitions, observationDefinitions, brokerDefinitions, qualificationDefinitions],
    ∀ p ∈ definitions, Fit definitions p.2 = true := by
  have h : [profileDefinitions, observationDefinitions, brokerDefinitions, qualificationDefinitions].all
      (fun definitions => definitions.all fun p => Fit definitions p.2) = true := by decide +kernel
  simpa only [List.all_eq_true] using h

omit [Runtime] in
theorem fit_profile : Fit profileDefinitions profile = true := by decide +kernel

omit [Runtime] in
theorem Asked.fit {definitions : List (String × Spec)} {spec : Spec} (h : Asked definitions spec) :
    (∀ p ∈ definitions, Fit definitions p.2 = true) ∧ Fit definitions spec = true := by
  have hall : ∀ p ∈ definitions, Fit definitions p.2 = true := by
    cases h <;> exact fit_definitions _ (by simp)
  have hspec : Fit definitions spec = true := by
    cases h with
    | profile => exact fit_profile
    | observation _ hspec | broker _ hspec | qualification _ hspec => exact hall _ (Spec.mem_of_lookup hspec)
  exact ⟨hall, hspec⟩

end Pinned

section
variable {definitions : List (String × Spec)} {spec : Spec}

omit [Runtime] in
theorem Pinned.Asked.exists_reads (h : Pinned.Asked definitions spec) : ∃ ρ, Spec.Reads definitions ρ := by
  have hground (p : String × Spec) (hp : p ∈ definitions) : Spec.grounded definitions 4 p.2.refs = true := by
    have hfit := h.fit.1 p hp
    rw [Pinned.Fit, Bool.and_eq_true] at hfit
    exact hfit.2
  exact Spec.exists_reads hground

theorem Pinned.Asked.decides (h : Pinned.Asked definitions spec) {ρ : String → Json → Prop} (hreads : Spec.Reads definitions ρ)
    {depth : ℕ} (hdepth : 4 ≤ depth) : Decides (shapeSpec (shapeDefinition definitions depth) spec) (spec.Valid ρ) := by
  obtain ⟨hall, hspec⟩ := h.fit
  have hfit {t : Spec} (h : Pinned.Fit definitions t = true) :
      (∀ s ∈ t.nodes, Regular s) ∧ Spec.grounded definitions 4 t.refs = true := by
    rw [Pinned.Fit, Bool.and_eq_true, List.all_eq_true] at h
    exact ⟨fun s hs => regular_of_isRegular (h.1 s hs), h.2⟩
  have hlook := shapeDefinition_decides hreads (fun p hp => (hfit (hall p hp)).1) (hfit hspec).2 hdepth
  exact shapeSpec_decides (hfit hspec).1 hlook

/-- On every document the evaluator comes to an answer, and accepts exactly what is valid as the standard has it. -/
theorem pinned_specification (hasked : Pinned.Asked definitions spec) :
    (∃ ρ, Spec.Reads definitions ρ) ∧
    ∀ (input : Input) (maximum : ℕ) (v : Json), input.Wf → maximum ≤ 262144 → document input maximum = .ok v →
      ∀ ρ, Spec.Reads definitions ρ → ∀ depth ≥ 4,
        Conforms (shapeSpec (shapeDefinition definitions depth) spec v) ∧
          (shapeSpec (shapeDefinition definitions depth) spec v = .ok () ↔ spec.Valid ρ v) := by
  refine ⟨hasked.exists_reads, fun input maximum v hwf hmaximum hdocument ρ hreads depth hdepth => ?_⟩
  exact hasked.decides hreads hdepth v (isDocument_of_document hwf hmaximum hdocument)

end

end

/-! ### A message that starts a worker -/

namespace Pinned

def sampleHex : String := String.ofList (List.replicate 64 '0')

def sampleStart : Json :=
  .obj [("schemaVersion", .str "planeon.internal.broker-worker/v1"), ("operation", .str "START"),
    ("executionId", .str sampleHex), ("bindingDigest", .str ("sha256:" ++ sampleHex)), ("caseId", .str "DURABLE_RESTART"),
    ("requestDigest", .str ("sha256:" ++ sampleHex)), ("generation", .str sampleHex)]

end Pinned

theorem pinned_specification_start : ∃ ρ, Spec.Reads Pinned.brokerDefinitions ρ ∧
    Pinned.workerStart.Valid ρ Pinned.sampleStart.canon := by
  let _ := Runtime.ascii
  have hwf : Pinned.sampleStart.Wf := by decide +kernel
  have hdocument : document (.data Pinned.sampleStart) 16384 = .ok Pinned.sampleStart.canon :=
    @document_slim _ _ _ 100 0 (by decide) hwf (slim_of_isSlim (by decide +kernel)) (by decide)
  have hasked : Pinned.Asked Pinned.brokerDefinitions Pinned.workerStart := @Pinned.Asked.broker "workerStart" _ (by decide) rfl
  obtain ⟨⟨ρ, hreads⟩, h⟩ := pinned_specification hasked
  refine ⟨ρ, hreads, (h (.data Pinned.sampleStart) 16384 _ hwf (by decide) hdocument ρ hreads 4 le_rfl).2.mp ?_⟩
  decide +kernel

end HarnessConformance.Admission
