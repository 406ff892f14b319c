import HarnessConformance.Admission.Shape
import HarnessConformance.Admission.Fields
import HarnessConformance.LinuxReadiness.CaseRecord

/-! # Proxy profiles

`validate_profile` and `resource_units` of `live_mutation_admission.py`: the pinned shape of a
profile, the grants it must list exactly, and the resources whose units its quota bounds. -/

namespace HarnessConformance.Admission
open Lib Lib.Outcome Lib.Lines
set_option autoImplicit false

/-! ## Patterns -/

/-- `[0-9]{4}-[0-9]{2}-[0-9]{2}T[0-9]{2}:[0-9]{2}:[0-9]{2}Z` -/
def secondPattern : Regex :=
  .chain [.times digit 4, .char '-', .times digit 2, .char '-', .times digit 2, .char 'T', .times digit 2, .char ':',
    .times digit 2, .char ':', .times digit 2, .char 'Z']

/-- `[a-z0-9.-]` -/
def dottedLower : Regex := .one fun c => ('a' ≤ c && c ≤ 'z') || c.isDigit || c == '.' || c == '-'

/-- `^system:serviceaccount:[a-z0-9.-]+:[a-z0-9.-]+$` -/
def subjectPattern : Regex := .chain [.literal "system:serviceaccount:", .plus dottedLower, .char ':', .plus dottedLower]

/-- `^[a-z0-9][-a-z0-9.:/]*@sha256:[0-9a-f]{64}$` -/
def imagePattern : Regex :=
  .chain [lowerAlnum, .star (.one fun c => ('a' ≤ c && c ≤ 'z') || c.isDigit || c == '.' || c == ':' || c == '/' || c == '-'),
    .char '@', digestPattern]

/-- `^/v1/linux-baseline/[a-z-]+$` -/
def probePathPattern : Regex :=
  .seq (.literal "/v1/linux-baseline/") (.plus (.one fun c => ('a' ≤ c && c ≤ 'z') || c == '-'))

/-- `[1-9]` -/
def nonzeroDigit : Regex := .one fun c => '1' ≤ c && c ≤ '9'

/-- `^[1-9][0-9]{0,6}m$` -/
def cpuPattern : Regex := .chain [nonzeroDigit, .upTo digit 6, .char 'm']

/-- `^[1-9][0-9]{0,14}$` -/
def quantityPattern : Regex := .seq nonzeroDigit (.upTo digit 14)

/-- `_time(value)` -/
def time (value : Json) : Py Instant :=
  match value with
  | .str text => do
    require "PROXY_TIME_INVALID" (secondPattern.fullmatch text = true)
    match fromIsoFormat text.toList with
    | some instant => pure instant
    | none => .error .valueError
  | _ => .error (refusal "PROXY_TIME_INVALID")

/-! ## The pinned shape -/

def maxSafe : ℤ := 9007199254740991

def idShape : Shape := .text 1 128 (some namePattern)

def digestShape : Shape := .text 1 71 (some digestPattern)

theorem accepts_digest (d : Digest) : digestShape.Accepts (.str d.text) := by
  refine ⟨d.text, rfl, Nat.one_le_iff_ne_zero.mpr fun hzero => ?_, d.digest_length, fun r hr => ?_⟩
  · have hvalid := d.valid
    rw [String.length_eq_zero_iff.mp hzero] at hvalid
    exact absurd hvalid (by decide)
  · obtain rfl := Option.some.inj hr
    exact d.valid

def uidShape : Shape := .text 1 128 (some uidPattern)

def timeShape : Shape := .text 1 20 (some secondPattern)

def subjectShape : Shape := .text 1 256 (some subjectPattern)

def imageShape : Shape := .text 1 1024 (some imagePattern)

def namesShape (values : List String) : Shape := .enum (values.map .str)

def bindingShape : Shape :=
  .obj [("tenantId", idShape), ("environmentId", idShape), ("runNonce", idShape), ("capacityNonce", idShape),
    ("endpointId", idShape), ("namespace", idShape), ("serviceAccountSubject", subjectShape), ("validFrom", timeShape),
    ("expiresAt", timeShape), ("apiEndpointId", .oneOf [idShape, .null])]

def credentialShape : Shape :=
  .obj [("endpointId", idShape), ("purpose", namesShape ["CAMPAIGN_PROXY_CLIENT_MTLS", "KUBERNETES_PROXY_SERVER_MTLS"]),
    ("subject", subjectShape), ("expiresAt", timeShape), ("certificateDigest", digestShape), ("clientSpkiDigest", digestShape)]

def apiRuleShape : Shape :=
  .obj [("endpointId", idShape), ("verb", namesShape ["get", "create", "delete"]), ("apiGroup", .const (.str "")),
    ("apiVersion", .const (.str "v1")), ("resource", namesShape ["pods", "configmaps", "services"]), ("namespace", idShape),
    ("name", idShape), ("subresource", .const (.str "")), ("requestMediaType", .const (.str "application/json")),
    ("responseMediaType", .const (.str "application/json")), ("requestMaxBytes", .const (.int 16384)),
    ("responseMaxBytes", .const (.int 4194304))]

def proxyRuleShape : Shape :=
  .obj [("endpointId", idShape), ("namespace", idShape), ("service", .const (.str "linux-baseline-probes")),
    ("port", .int 1 65535), ("protocol", .const (.str "HTTPS")), ("methods", .const (.arr [.str "POST"])),
    ("paths", .arr 10 10 true (.text 1 128 (some probePathPattern))), ("requestMediaType", .const (.str "application/json")),
    ("responseMediaType", .const (.str "application/json")), ("requestMaxBytes", .const (.int 16384)),
    ("responseMaxBytes", .const (.int 4194304)), ("timeoutSeconds", .const (.int 900))]

def gvkRuleShape : Shape :=
  .obj [("apiGroup", .const (.str "")), ("apiVersion", .const (.str "v1")), ("kind", namesShape ["Pod", "ConfigMap", "Service"]),
    ("verbs", .const (.arr [.str "create", .str "get", .str "delete"])), ("names", .arr 1 32 true idShape)]

def resourceRefShape : Shape :=
  .obj [("apiVersion", .const (.str "v1")),
    ("kind", namesShape ["ResourceQuota", "LimitRange", "ServiceAccount", "Service", "ConfigMap"]), ("namespace", idShape),
    ("name", idShape), ("uid", uidShape), ("observedDigest", digestShape)]

/-- The six units of a quota. -/
inductive Quantity where
  | pods
  | configMaps
  | services
  | cpuMillis
  | memoryBytes
  | ephemeralStorageBytes
  deriving DecidableEq

namespace Quantity

def name : Quantity → String
  | pods => "pods"
  | configMaps => "configMaps"
  | services => "services"
  | cpuMillis => "cpuMillis"
  | memoryBytes => "memoryBytes"
  | ephemeralStorageBytes => "ephemeralStorageBytes"

/-- `UNITS` -/
def all : List Quantity := [pods, configMaps, services, cpuMillis, memoryBytes, ephemeralStorageBytes]

theorem mem_all (q : Quantity) : q ∈ all := by
  cases q <;> decide

end Quantity

def unitsShape : Shape := .obj (Quantity.all.map fun q => (q.name, .int 0 maxSafe))

def metadataShape : Shape :=
  .obj [("name", idShape), ("namespace", idShape),
    ("labels", .obj [("planeon.ai/run-nonce", idShape), ("planeon.ai/tenant-id", idShape)])]

def quantitiesShape : Shape :=
  .obj [("cpu", .text 1 128 (some cpuPattern)), ("memory", .text 1 128 (some quantityPattern)),
    ("ephemeral-storage", .text 1 128 (some quantityPattern))]

def podShape : Shape :=
  .obj [("apiVersion", .const (.str "v1")), ("kind", .const (.str "Pod")), ("metadata", metadataShape),
    ("spec", .obj [("restartPolicy", .const (.str "Never")), ("serviceAccountName", idShape),
      ("automountServiceAccountToken", .const (.bool false)), ("enableServiceLinks", .const (.bool false)),
      ("hostNetwork", .const (.bool false)), ("hostPID", .const (.bool false)), ("hostIPC", .const (.bool false)),
      ("containers", .arr 1 1 false (.obj [("name", .const (.str "probe")), ("image", imageShape),
        ("imagePullPolicy", .const (.str "Never")),
        ("resources", .obj [("requests", quantitiesShape), ("limits", quantitiesShape)]),
        ("securityContext", .obj [("allowPrivilegeEscalation", .const (.bool false)),
          ("readOnlyRootFilesystem", .const (.bool true)), ("runAsNonRoot", .const (.bool true)),
          ("runAsUser", .int 10000 2147483647), ("seccompProfile", .obj [("type", .const (.str "RuntimeDefault"))]),
          ("capabilities", .obj [("drop", .const (.arr [.str "ALL"]))])])]))])]

def configMapShape : Shape :=
  .obj [("apiVersion", .const (.str "v1")), ("kind", .const (.str "ConfigMap")), ("metadata", metadataShape),
    ("immutable", .const (.bool true)), ("data", .obj [("fixture.json", .text 0 8192 none)])]

def serviceShape : Shape :=
  .obj [("apiVersion", .const (.str "v1")), ("kind", .const (.str "Service")), ("metadata", metadataShape),
    ("spec", .obj [("type", .const (.str "ClusterIP")),
      ("selector", .obj [("planeon.ai/run-nonce", idShape), ("planeon.ai/tenant-id", idShape)]),
      ("ports", .arr 1 1 false (.obj [("name", .const (.str "probe")), ("protocol", .const (.str "TCP")),
        ("port", .int 1 65535), ("targetPort", .int 1 65535)]))])]

def resourceShape : Shape :=
  .obj [("manifest", .oneOf [podShape, configMapShape, serviceShape]), ("manifestDigest", digestShape)]

def policyShape : Shape :=
  .obj [("admissionPolicyDigest", digestShape), ("resourceQuotaDigest", digestShape), ("limitRangeDigest", digestShape),
    ("namespaceUid", uidShape), ("resourceQuotaUid", uidShape), ("limitRangeUid", uidShape), ("serviceAccountUid", uidShape),
    ("rbacDigest", digestShape), ("networkPolicyDigest", digestShape), ("mutationBrokerDigest", digestShape),
    ("maxConcurrentOperations", .const (.int 1)), ("serviceAccountDigest", digestShape)]

/-- `_PROFILE_SPEC` -/
def profileShape : Shape :=
  .obj [("profileId", .const (.str "CAMPAIGN_PROXY_MTLS_ZERO_COST_V1")), ("binding", bindingShape),
    ("capacityEntries", .obj [("kubernetesApiRules", .arr 0 256 true apiRuleShape),
      ("campaignProxyRules", .arr 1 1 true proxyRuleShape), ("permittedGvksAndVerbs", .arr 0 3 true gvkRuleShape),
      ("preexistingResourceRefs", .arr 0 256 true resourceRefShape), ("preallocatedStorageRefs", .arr 0 0 false .any),
      ("preallocatedAcceleratorRefs", .arr 0 0 false .any), ("credentialIdentities", .arr 1 2 true credentialShape)]),
    ("policy", policyShape), ("quota", unitsShape), ("resources", .arr 0 32 true resourceShape),
    ("localImages", .arr 0 16 true imageShape)]

/-! ## Units -/

/-- What a set of resources takes of every unit. -/
abbrev Units := Quantity → ℕ

def Units.zero : Units := fun _ => 0

def Units.add (u : Units) (q : Quantity) (n : ℕ) : Units := fun r => if r = q then u r + n else u r

/-- `{"Pod": "pods", "ConfigMap": "configMaps", "Service": "services"}[kind]`, as the kind. -/
def kindOf (value : Json) : Py Kind :=
  match Kind.all.find? fun k => value = .str k.name with
  | some k => .ok k
  | none => .error (.keyError "")

def Kind.unit : Kind → Quantity
  | pod => .pods
  | configMap => .configMaps
  | service => .services

/-- The API resource of a kind. -/
def Kind.plural : Kind → String
  | pod => "pods"
  | configMap => "configmaps"
  | service => "services"

/-- `int(limits["cpu"][:-1])`, `int(limits["memory"])`, `int(limits["ephemeral-storage"])` -/
def addLimits (u : Units) (limits : Json) : Py Units := do
  let cpu ← intOf (String.ofList (← textItem limits "cpu").toList.dropLast)
  let memory ← intOf (← textItem limits "memory")
  let storage ← intOf (← textItem limits "ephemeral-storage")
  pure (((u.add .cpuMillis cpu).add .memoryBytes memory).add .ephemeralStorageBytes storage)

/-- What only pods take. -/
def addManifest (u : Units) (kind : Kind) (manifest : Json) : Py Units := do
  if kind = .pod then do
    let container ← firstItem (← item (← item manifest "spec") "containers")
    addLimits u (← item (← item container "resources") "limits")
  else pure u

/-- The body of the loop of `resource_units`. -/
def resourceUnitsStep (u : Units) (row : Json) : Py Units := do
  let manifest ← item row "manifest"
  let kind ← kindOf (← item manifest "kind")
  addManifest (u.add kind.unit 1) kind manifest

/-- `resource_units(profile)` -/
def resourceUnits (profile : Json) : Py Units := do
  let rows ← iterate (← item profile "resources")
  let u ← rows.foldlM resourceUnitsStep .zero
  require "ADMISSION_QUOTA_OVERFLOW" (∀ q ∈ Quantity.all, (u q : ℤ) ≤ maxSafe)
  pure u

/-! ## The resources of a profile -/

/-- What the loop over the resources has gathered. -/
structure Survey where
  names : List (Kind × String)
  units : Units
  gvk : Kind → List String
  api : List (Json × String × String × String)
  images : List String

def Survey.start : Survey := ⟨[], .zero, fun _ => [], [], []⟩

variable [Runtime]

/-- The part of the loop body that only pods and services have. -/
def surveyManifest (s : Survey) (kind : Kind) (manifest labels : Json) (account : String) : Py Survey := do
  match kind with
  | .pod => do
    let spec ← item manifest "spec"
    require "pod service account mismatch" ((← item spec "serviceAccountName") = .str account)
    let container ← firstItem (← item spec "containers")
    let quantities ← item container "resources"
    require "unequal requests and limits" (pyEq (← item quantities "requests") (← item quantities "limits"))
    let units ← addLimits s.units (← item quantities "limits")
    let image ← textItem container "image"
    pure { s with units := units, images := image :: s.images }
  | .configMap => pure s
  | .service => do
    require "foreign selector" (pyEq (← item (← item manifest "spec") "selector") labels)
    pure s

/-- The labels every resource of the run carries. -/
def expectedLabels (binding : Json) : Py Json := do
  pure (.obj [("planeon.ai/run-nonce", ← item binding "runNonce"), ("planeon.ai/tenant-id", ← item binding "tenantId")])

/-- The manifest is small and has the digest its row states. -/
def requireManifest (row manifest : Json) : Py Unit := do
  let raw ← canonicalBytes manifest
  require "manifest digest or size mismatch"
    (raw.length ≤ 16384 ∧ (← item row "manifestDigest") = .str (byteDigest raw).text)

/-- The resource is a new one, of the run, and not one that existed before. -/
def requireIdentity (binding metadata labels : Json) (referenceIds : List (List Json)) (names : List (Kind × String))
    (kind : Kind) (name : String) : Py Unit := do
  let nameSpace ← item metadata "namespace"
  require "resource scope or logical identity mismatch" ((kind, name) ∉ names ∧
    nameSpace = (← item binding "namespace") ∧ pyEq (← item metadata "labels") labels)
  require "existing resource takeover" ([.str "v1", .str kind.name, nameSpace, .str name] ∉ referenceIds)

/-- What a resource adds before its kind is looked at: its name, its grants and itself. -/
def Survey.addRow (s : Survey) (endpoint : Json) (kind : Kind) (name : String) : Survey :=
  { s with
    names := (kind, name) :: s.names
    gvk := fun k => if k = kind then name :: s.gvk k else s.gvk k
    units := s.units.add kind.unit 1
    api := ["create", "get", "delete"].map (fun verb => (endpoint, verb, kind.plural, name)) ++ s.api }

/-- The body of the loop over `profile["resources"]`. -/
def surveyRow (binding : Json) (account : String) (referenceIds : List (List Json)) (s : Survey) (row : Json) : Py Survey := do
  let manifest ← item row "manifest"
  requireManifest row manifest
  let metadata ← item manifest "metadata"
  let kind ← kindOf (← item manifest "kind")
  let name ← textItem metadata "name"
  let labels ← expectedLabels binding
  requireIdentity binding metadata labels referenceIds s.names kind name
  let endpoint ← item binding "apiEndpointId"
  surveyManifest (s.addRow endpoint kind name) kind manifest labels account

/-! ## The checks on a profile -/

/-- The credentials are those of the endpoints in use, each with its own certificate and key. -/
def requireCredentials (binding : Json) (hasResources : Bool) (credentials : List Json) : Py Unit := do
  let endpoint ← item binding "endpointId"
  let api ← item binding "apiEndpointId"
  if hasResources then require "separate API endpoint required" (api ≠ .null ∧ api ≠ endpoint)
  else require "unused API endpoint forbidden" (api = .null)
  let inventory ← credentials.mapM fun c => do pure (← item c "endpointId", ← item c "purpose")
  require "credential inventory mismatch" (inventory = (endpoint, .str "CAMPAIGN_PROXY_CLIENT_MTLS") ::
    if hasResources then [(api, .str "KUBERNETES_PROXY_SERVER_MTLS")] else [])
  credentials.forM fun c => do
    require "credential binding mismatch" ((← item c "subject") = (← item binding "serviceAccountSubject") ∧
      (← item c "expiresAt") = (← item binding "expiresAt"))
  ["certificateDigest", "clientSpkiDigest"].forM fun field => do
    let digests ← credentials.mapM fun c => item c field
    require "client/server credential reuse" (digests.dedup.length = credentials.length)

/-- The first loop over the references: their identities, each in the binding's namespace. -/
def referenceId (binding : Json) (seen : List (List Json)) (reference : Json) : Py (List (List Json)) := do
  let key ← ["apiVersion", "kind", "namespace", "name"].mapM (item reference)
  require "duplicate or foreign reference" ((← item reference "namespace") = (← item binding "namespace") ∧ key ∉ seen)
  pure (key :: seen)

/-- One of the three references that the policy names. -/
def requireReference (policy : Json) (references : List Json) (account kind uidKey digestKey : String) : Py Unit := do
  let kinds ← references.mapM fun r => do pure (← item r "kind", r)
  match (kinds.filter fun p => p.1 = .str kind).map Prod.snd with
  | [reference] => do
    require "required policy reference mismatch" ((← item reference "uid") = (← item policy uidKey) ∧
      (← item reference "observedDigest") = (← item policy digestKey))
    if kind = "ServiceAccount" then require "service account name mismatch" ((← item reference "name") = .str account)
  | _ => .error (refusal "required policy reference mismatch")

def requiredReferences : List (String × String × String) :=
  [("ResourceQuota", "resourceQuotaUid", "resourceQuotaDigest"), ("LimitRange", "limitRangeUid", "limitRangeDigest"),
    ("ServiceAccount", "serviceAccountUid", "serviceAccountDigest")]

/-- The checks on `preexistingResourceRefs`; the identities found. -/
def requireReferences (binding policy : Json) (account : String) (references : List Json) : Py (List (List Json)) := do
  let ids ← references.foldlM (referenceId binding) []
  requiredReferences.forM fun (kind, uidKey, digestKey) => requireReference policy references account kind uidKey digestKey
  let uids ← references.mapM fun r => item r "uid"
  require "duplicate resource UID" (uids.dedup.length = references.length)
  pure ids

/-- Two sets given by their elements. -/
def sameSet {α : Type} [DecidableEq α] (xs ys : List α) : Bool := xs ⊆ ys && ys ⊆ xs

/-- One rule of `permittedGvksAndVerbs`, after the kinds already seen. -/
def gvkRule (observed : List (Kind × List Json)) (rule : Json) : Py (List (Kind × List Json)) := do
  let kind ← kindOf (← item rule "kind")
  require "duplicate GVK rule" (kind ∉ observed.map Prod.fst)
  pure ((kind, ← iterate (← item rule "names")) :: observed)

/-- One rule of `kubernetesApiRules`, after the grants already seen. -/
def apiRule (binding : Json) (seen : List (List Json)) (rule : Json) : Py (List (List Json)) := do
  let key ← ["endpointId", "verb", "resource", "name"].mapM (item rule)
  require "API scope or duplicate rule" ((← item rule "namespace") = (← item binding "namespace") ∧ key ∉ seen)
  pure (key :: seen)

/-- The grants listed are exactly those the resources need. -/
def requireGrants (binding entries : Json) (s : Survey) : Py Unit := do
  let observed ← (← iterate (← item entries "permittedGvksAndVerbs")).foldlM gvkRule []
  require "exact GVK/name grants required" (∀ k ∈ Kind.all, (k ∈ observed.map Prod.fst ↔ s.gvk k ≠ []) ∧
    ∀ e ∈ observed, e.1 = k → sameSet e.2 ((s.gvk k).map .str) = true)
  let api ← (← iterate (← item entries "kubernetesApiRules")).foldlM (apiRule binding) []
  require "exact server API rules required"
    (sameSet api (s.api.map fun (endpoint, verb, resource, name) => [endpoint, .str verb, .str resource, .str name]))

/-- `all(units[k] <= profile["quota"][k] for k in units)` -/
def requireQuota (quota : Json) (u : Units) : Py Unit :=
  Quantity.all.forM fun q => do
    match ← item quota q.name with
    | .int bound => require "quota exceeded" (u q ≤ bound)
    | _ => .error .typeError

/-- The fixed rule of the campaign proxy. -/
def requireProxyRule (binding rule : Json) : Py Unit := do
  require "fixed proxy rule mismatch" ((← item rule "endpointId") = (← item binding "endpointId") ∧
    (← item rule "namespace") = (← item binding "namespace") ∧
    (← item rule "paths") = .arr (Case.all.map fun c => .str c.path))

/-- `subject.rsplit(":", 1)[1]` -/
def accountOf (subject : String) : String := String.ofList (subject.toList.reverse.takeWhile fun c => c ≠ ':').reverse

/-- The window, the subject, the credentials and the proxy rule of a profile. -/
def requireScope (profile : Json) : Py Unit := do
  let binding ← item profile "binding"
  let entries ← item profile "capacityEntries"
  let start ← time (← item binding "validFrom")
  let stop ← time (← item binding "expiresAt")
  require "profile validity exceeded" (start < stop ∧ stop ≤ start + 900000000)
  let subject ← textItem binding "serviceAccountSubject"
  let nameSpace ← textItem binding "namespace"
  require "subject namespace mismatch" (("system:serviceaccount:" ++ nameSpace ++ ":").toList <+: subject.toList)
  let resources ← iterate (← item profile "resources")
  requireCredentials binding (resources ≠ []) (← iterate (← item entries "credentialIdentities"))
  requireProxyRule binding (← firstItem (← item entries "campaignProxyRules"))

/-- The references and the resources of a profile. -/
def surveyProfile (profile : Json) : Py Survey := do
  let binding ← item profile "binding"
  let account := accountOf (← textItem binding "serviceAccountSubject")
  let references ← iterate (← item (← item profile "capacityEntries") "preexistingResourceRefs")
  let ids ← requireReferences binding (← item profile "policy") account references
  (← iterate (← item profile "resources")).foldlM (surveyRow binding account ids) .start

/-- The checks after the document was read. -/
def requireProfile (profile : Json) : Py Unit := do
  shape profileShape profile
  requireScope profile
  let survey ← surveyProfile profile
  requireGrants (← item profile "binding") (← item profile "capacityEntries") survey
  let images ← iterate (← item profile "localImages")
  require "image substitution or unused image" (sameSet (survey.images.map .str) images = true)
  requireQuota (← item profile "quota") survey.units

/-- `validate_profile(value)` -/
def validateProfile (value : Input) : Py Json := do
  let profile ← document value 262144
  requireProfile profile
  pure profile

/-! ## The two counts of units -/

omit [Runtime] in
theorem surveyManifest_units {s t : Survey} {kind : Kind} {manifest labels : Json} {account : String}
    (h : surveyManifest s kind manifest labels account = .ok t) : addManifest s.units kind manifest = .ok t.units := by
  cases kind with
  | pod =>
    simp only [surveyManifest, bind_eq_ok] at h
    obtain ⟨spec, hspec, _, -, _, -, containers, hcontainers, container, hcontainer, quantities, hquantities, h⟩ := h
    obtain ⟨_, -, _, -, _, -, limits, hlimits, units, hunits, image, -, h⟩ := h
    obtain rfl := pure_eq_ok.mp h
    simp only [addManifest, if_true, bind_eq_ok]
    exact ⟨spec, hspec, containers, hcontainers, container, hcontainer, quantities, hquantities, limits, hlimits, hunits⟩
  | configMap =>
    obtain rfl := pure_eq_ok.mp h
    rfl
  | service =>
    simp only [surveyManifest, bind_eq_ok, pure_eq_ok] at h
    obtain ⟨spec, -, selector, -, _, -, rfl⟩ := h
    rfl

/-- One resource counts the same in both loops. -/
theorem surveyRow_units {binding row : Json} {account : String} {ids : List (List Json)} {s t : Survey}
    (h : surveyRow binding account ids s row = .ok t) : resourceUnitsStep s.units row = .ok t.units := by
  simp only [surveyRow, bind_eq_ok] at h
  obtain ⟨manifest, hmanifest, _, -, metadata, -, value, hvalue, kind, hkind, name, -, labels, -, _, -, endpoint, -, h⟩ := h
  simp only [resourceUnitsStep, bind_eq_ok]
  have hunits := surveyManifest_units h
  exact ⟨manifest, hmanifest, value, hvalue, kind, hkind, hunits⟩

theorem survey_units {binding : Json} {account : String} {ids : List (List Json)} {rows : List Json} {s t : Survey}
    (h : rows.foldlM (surveyRow binding account ids) s = .ok t) : rows.foldlM resourceUnitsStep s.units = .ok t.units := by
  induction rows generalizing s with
  | nil =>
    obtain rfl := pure_eq_ok.mp h
    rfl
  | cons row rows ih =>
    obtain ⟨u, hu, hrest⟩ := foldlM_cons_eq_ok.mp h
    exact foldlM_cons_eq_ok.mpr ⟨u.units, surveyRow_units hu, ih hrest⟩

/-! ## What an accepted profile holds -/

omit [Runtime] in
/-- The quota of a unit, as the profile states it. -/
def quotaOf (profile : Json) (q : Quantity) : Option ℤ :=
  match (profile.get? "quota").bind fun quota => quota.get? q.name with
  | some (.int n) => some n
  | _ => none

omit [Runtime] in
theorem quotaOf_eq_some {profile : Json} {q : Quantity} {n : ℤ} :
    quotaOf profile q = some n ↔ ∃ quota, profile.get? "quota" = some quota ∧ quota.get? q.name = some (.int n) := by
  unfold quotaOf
  cases hquota : profile.get? "quota" with
  | none => simp
  | some quota =>
    cases hunit : quota.get? q.name with
    | none => simp [hunit]
    | some v => cases v <;> simp [hunit]

theorem pinned_profile : Pinned profileShape := pinned_of_flat (by decide +kernel)

omit [Runtime] in
theorem units_get? {v : Json} (h : unitsShape.Accepts v) (q : Quantity) :
    ∃ n, v.get? q.name = some (.int n) ∧ 0 ≤ n ∧ n ≤ maxSafe := by
  have hlookup : (Quantity.all.map fun q => (q.name, Shape.int 0 maxSafe)).lookup q.name = some (.int 0 maxSafe) := by
    cases q <;> rfl
  obtain ⟨w, hw, n, rfl, hlow, hhigh⟩ := h.get? hlookup
  exact ⟨n, hw, hlow, hhigh⟩

/-- A profile that was accepted, with its survey. -/
structure Admitted (profile : Json) (s : Survey) : Prop where
  canonical : Canonical profile
  shape : profileShape.Accepts profile
  scope : requireScope profile = .ok ()
  survey : surveyProfile profile = .ok s
  quota : ∀ q, ∃ n, quotaOf profile q = some n ∧ s.units q ≤ n ∧ n ≤ maxSafe

omit [Runtime] in
theorem requireQuota_eq_ok {quota : Json} {u : Units} (h : requireQuota quota u = .ok ()) (q : Quantity) {n : ℤ}
    (hn : quota.get? q.name = some (.int n)) : u q ≤ n := by
  have hbound := forM_eq_ok.mp h q q.mem_all
  simp only [bind_eq_ok, item_eq_ok] at hbound
  obtain ⟨v, hv, hle⟩ := hbound
  obtain rfl := Option.some.inj (hv.symm.trans hn)
  exact require_eq_ok.mp hle

theorem admitted_of_validateProfile {value : Input} {profile : Json} (h : validateProfile value = .ok profile) :
    document value 262144 = .ok profile ∧ ∃ s, Admitted profile s := by
  simp only [validateProfile, bind_eq_ok, pure_eq_ok] at h
  obtain ⟨p, hp, _, hchecks, rfl⟩ := h
  simp only [requireProfile, bind_eq_ok] at hchecks
  obtain ⟨_, hshape, _, hscope, s, hsurvey, hchecks⟩ := hchecks
  obtain ⟨binding, -, entries, -, _, -, images, -, rows, -, _, -, quota, hquota, hfits⟩ := hchecks
  have hcanonical := document_canonical hp
  have haccepts := (shape_eq_ok pinned_profile ⟨hcanonical.wf, hcanonical.valid⟩).mp hshape
  refine ⟨hp, s, hcanonical, haccepts, hscope, hsurvey, fun q => ?_⟩
  obtain ⟨units, hunits, hunitsShape⟩ := haccepts.get? (k := "quota") rfl
  have hquota := item_eq_ok.mp hquota
  obtain rfl : quota = units := Option.some.inj (hquota.symm.trans hunits)
  obtain ⟨n, hn, -, hsafe⟩ := units_get? hunitsShape q
  exact ⟨n, quotaOf_eq_some.mpr ⟨quota, hquota, hn⟩, requireQuota_eq_ok hfits q hn, hsafe⟩

/-- The count of an accepted profile is the one its quota was compared with. -/
theorem Admitted.resourceUnits {profile : Json} {s : Survey} (h : Admitted profile s) : resourceUnits profile = .ok s.units := by
  have hsurvey := h.survey
  simp only [surveyProfile, bind_eq_ok] at hsurvey
  obtain ⟨binding, -, subject, -, entries, -, value, -, references, -, hsurvey⟩ := hsurvey
  obtain ⟨policy, -, ids, -, resources, hresources, rows, hrows, hfold⟩ := hsurvey
  have hsafe (q : Quantity) : (s.units q : ℤ) ≤ maxSafe := by
    obtain ⟨n, -, hle, hn⟩ := h.quota q
    exact hle.trans hn
  simp only [Admission.resourceUnits, bind_eq_ok, require_eq_ok, pure_eq_ok]
  exact ⟨resources, hresources, rows, hrows, s.units, survey_units hfold, (), fun q _ => hsafe q, rfl⟩

/-! ## A profile without resources -/

namespace SampleProfile

def scope : Json.Members :=
  [("tenantId", .str "tenant"), ("environmentId", .str "staging"), ("runNonce", .str "run-1"),
    ("capacityNonce", .str "capacity-1"), ("endpointId", .str "proxy"), ("namespace", .str "lab"),
    ("serviceAccountSubject", .str "system:serviceaccount:lab:runner"), ("validFrom", .str "2026-01-01T00:00:00Z"),
    ("expiresAt", .str "2026-01-01T00:10:00Z")]

def reference (kind name uid : String) : Json :=
  .obj [("apiVersion", .str "v1"), ("kind", .str kind), ("namespace", .str "lab"), ("name", .str name), ("uid", .str uid),
    ("observedDigest", .str zero.text)]

def quota (n : ℤ) : Json := .obj (Quantity.all.map fun q => (q.name, .int n))

def digestNames : List String :=
  ["admissionPolicyDigest", "resourceQuotaDigest", "limitRangeDigest", "serviceAccountDigest", "rbacDigest",
    "networkPolicyDigest", "mutationBrokerDigest"]

/-- A profile without resources. -/
def members : Json.Members :=
  [("profileId", .str "CAMPAIGN_PROXY_MTLS_ZERO_COST_V1"), ("binding", .obj (("apiEndpointId", .null) :: scope)),
    ("capacityEntries", .obj [("kubernetesApiRules", .arr []), ("permittedGvksAndVerbs", .arr []),
      ("preallocatedStorageRefs", .arr []), ("preallocatedAcceleratorRefs", .arr []),
      ("preexistingResourceRefs", .arr [reference "ResourceQuota" "quota" "uid-1", reference "LimitRange" "limits" "uid-2",
        reference "ServiceAccount" "runner" "uid-3"]),
      ("credentialIdentities", .arr [.obj [("endpointId", .str "proxy"), ("purpose", .str "CAMPAIGN_PROXY_CLIENT_MTLS"),
        ("subject", .str "system:serviceaccount:lab:runner"), ("expiresAt", .str "2026-01-01T00:10:00Z"),
        ("certificateDigest", .str zero.text), ("clientSpkiDigest", .str zero.text)]]),
      ("campaignProxyRules", .arr [.obj [("endpointId", .str "proxy"), ("namespace", .str "lab"),
        ("service", .str "linux-baseline-probes"), ("port", .int 8443), ("protocol", .str "HTTPS"),
        ("methods", .arr [.str "POST"]), ("paths", .arr (Case.all.map fun c => .str c.path)),
        ("requestMediaType", .str "application/json"), ("responseMediaType", .str "application/json"),
        ("requestMaxBytes", .int 16384), ("responseMaxBytes", .int 4194304), ("timeoutSeconds", .int 900)]])]),
    ("policy", .obj ((digestNames.map fun name => (name, .str zero.text)) ++
      [("namespaceUid", .str "uid-0"), ("resourceQuotaUid", .str "uid-1"), ("limitRangeUid", .str "uid-2"),
        ("serviceAccountUid", .str "uid-3"), ("maxConcurrentOperations", .int 1)])),
    ("quota", quota 10), ("resources", .arr []), ("localImages", .arr [])]

def profile : Json := .obj members

omit [Runtime] in
theorem slim : ∀ m ∈ members, Slim 2000 4 m := slim_of_isSlim (by decide +kernel)

theorem valid : Valid profile := validAt_slim slim (by decide) (by decide) (by decide)

omit [Runtime] in
theorem accepted : @validateProfile .ascii (.data profile) = .ok profile.canon := by
  let _ := Runtime.ascii
  have hdocument : document (.data profile) 262144 = .ok profile.canon :=
    document_slim (by decide) (by decide +kernel) slim (by decide)
  have hchecks : requireProfile profile.canon = .ok () := by decide +kernel
  simp only [validateProfile, bind_eq_ok, pure_eq_ok]
  exact ⟨_, hdocument, (), hchecks, rfl⟩

end SampleProfile

end HarnessConformance.Admission
