import HarnessConformance.LinuxReadiness.CaseRecord

/-! # Probe requests

The closed request for one case, built from a verified envelope, its capacity and the released plan. -/

namespace HarnessConformance.LinuxReadiness
open Lib Lib.Outcome Lib.Lines
set_option autoImplicit false

/-- `value in CASES`, as the case named. -/
def requireCase (value : Json) (reason : String) : Py Case :=
  match Case.ofJson? value with
  | some c => .ok c
  | none => .error (.conformance reason "Linux readiness binding or mandatory case is invalid")

@[simp] theorem requireCase_eq_ok {value : Json} {reason : String} {c : Case} :
    requireCase value reason = .ok c ↔ value = .str c.name := by
  rw [requireCase, ← Case.ofJson?_eq_some]
  cases Case.ofJson? value <;> simp

/-- The items of a list of exactly one. -/
def requireSingle (value : Json) (reason : String) : Py Json :=
  match value with
  | .arr [only] => .ok only
  | _ => .error (.conformance reason "Linux readiness binding or mandatory case is invalid")

theorem requireSingle_eq_ok {value w : Json} {reason : String} : requireSingle value reason = .ok w ↔ value = .arr [w] := by
  unfold requireSingle
  split
  · simp
  · rename_i h
    exact ⟨nofun, fun heq => absurd heq (h w)⟩

/-- `[item for item in envelope["endpoints"] if item["endpointId"] == endpoint_id]` -/
def endpointsNamed (envelope endpointId : Json) : Py (List Json) := do
  let endpoints ← iterate (← item envelope "endpoints")
  let named ← endpoints.mapM fun endpoint => do
    pure (endpoint, pyEq (← item endpoint "endpointId") endpointId)
  pure ((named.filter Prod.snd).map Prod.fst)

def proxyRuleFields : List String :=
  ["endpointId", "namespace", "service", "port", "protocol", "methods", "paths", "requestMediaType", "responseMediaType",
    "requestMaxBytes", "responseMaxBytes", "timeoutSeconds"]

/-- The one rule a capacity may grant the fixed proxy. -/
def proxyRule (endpointId nameSpace port : Json) : Json :=
  .obj [("endpointId", endpointId), ("namespace", nameSpace), ("service", .str "linux-baseline-probes"), ("port", port),
    ("protocol", .str "HTTPS"), ("methods", .arr [.str "POST"]), ("paths", .arr (Case.all.map fun c => .str c.path)),
    ("requestMediaType", .str "application/json"), ("responseMediaType", .str "application/json"),
    ("requestMaxBytes", .int 16384), ("responseMaxBytes", .int 4194304), ("timeoutSeconds", .int 900)]

def probeRequestSchema : String := "harness.planeon.ai/linux-probe-request/v1alpha1"

variable [Runtime]

/-- `build_probe_request(envelope, capacity, plan, case_id)` -/
def buildProbeRequest (envelope capacity plan caseId : Json) : Py Json := malformedBoundary do
  let case ← requireCase caseId "LINUX_OPERATION_FORBIDDEN"
  let endpointId ← item plan "endpointId"
  let endpoint ← requireSingle (.arr (← endpointsNamed envelope endpointId)) "LINUX_PROXY_BACKEND_UNAVAILABLE"
  require "LINUX_PROXY_BACKEND_UNAVAILABLE" ((← item endpoint "kind") = .str "CAMPAIGN_PROXY")
  let nameSpace ← item plan "namespace"
  require "LINUX_PROXY_SCOPE_MISMATCH" (← contains (← item capacity "permittedEndpointIds") endpointId)
  require "LINUX_PROXY_SCOPE_MISMATCH" (pyEq nameSpace (← item capacity "namespace"))
  let expected := proxyRule endpointId nameSpace (← item endpoint "port")
  let rule ← requireSingle (← item capacity "campaignProxyRules") "LINUX_PROXY_RULES_INVALID"
  let _ ← obj rule proxyRuleFields "Linux proxy rule"
  require "LINUX_PROXY_RULES_INVALID" ((← canonicalBytes rule) = (← canonicalBytes expected))
  require "LINUX_PROXY_POLICY_DIGEST_MISMATCH" ((← item endpoint "authorizationPolicyDigest") =
    .str (← canonicalDigest expected (some "planeon.linux-proxy-policy/v1alpha1")).text)
  let probe ← item (← item plan "probes") case.name
  pure (.obj [("schemaVersion", .str probeRequestSchema), ("operation", .str case.name), ("endpointId", endpointId),
    ("namespace", nameSpace), ("method", .str "POST"), ("path", .str case.path), ("runNonce", ← item envelope "nonce"),
    ("architecture", ← item (← item plan "target") "architecture"), ("probeDigest", ← item probe "probeDigest"),
    ("commandDigest", ← item probe "commandDigest")])

/-- What a request was built from. -/
theorem buildProbeRequest_eq_ok {envelope capacity plan caseId request : Json}
    (h : buildProbeRequest envelope capacity plan caseId = .ok request) : ∃ c, caseId = .str (Case.name c) ∧
      ∃ endpointId nameSpace nonce target architecture probes probe probeDigest commandDigest,
      plan.get? "endpointId" = some endpointId ∧ plan.get? "namespace" = some nameSpace ∧ envelope.get? "nonce" = some nonce ∧
      plan.get? "target" = some target ∧ target.get? "architecture" = some architecture ∧
      plan.get? "probes" = some probes ∧ probes.get? c.name = some probe ∧ probe.get? "probeDigest" = some probeDigest ∧
      probe.get? "commandDigest" = some commandDigest ∧
      request = .obj [("schemaVersion", .str probeRequestSchema), ("operation", .str c.name), ("endpointId", endpointId),
        ("namespace", nameSpace), ("method", .str "POST"), ("path", .str c.path), ("runNonce", nonce),
        ("architecture", architecture), ("probeDigest", probeDigest), ("commandDigest", commandDigest)] := by
  simp only [buildProbeRequest, malformedBoundary_eq_ok, bind_eq_ok, item_eq_ok, requireCase_eq_ok, pure_eq_ok] at h
  obtain ⟨c, rfl, endpointId, hendpoint, _, -, _, -, _, -, _, -, nameSpace, hnamespace, h⟩ := h
  obtain ⟨_, -, _, -, _, -, _, -, _, -, _, -, _, -, _, -, _, -, _, -, h⟩ := h
  obtain ⟨_, -, _, -, _, -, _, -, _, -, probes, hprobes, probe, hprobe, nonce, hnonce, h⟩ := h
  obtain ⟨target, htarget, architecture, harchitecture, probeDigest, hdigest, commandDigest, hcommand, rfl⟩ := h
  exact ⟨c, rfl, endpointId, nameSpace, nonce, target, architecture, probes, probe, probeDigest, commandDigest, hendpoint,
    hnamespace, hnonce, htarget, harchitecture, hprobes, hprobe, hdigest, hcommand, rfl⟩

end HarnessConformance.LinuxReadiness
