import HarnessConformance.LinuxReadiness

/-! # Session bindings

The data boundary of `live_session.py`: bounded documents in, detached canonical values out, and
the binding that names one run. -/

namespace HarnessConformance
open Lib Lib.Outcome Lib.Lines
set_option autoImplicit false

namespace LiveSession

def maxSessionBytes : ℕ := 16384
def maxResponseBytes : ℕ := 4194304
def maxDepth : ℕ := 8

def idFields : List String := ["nonce", "tenantId", "environmentId", "endpointId", "namespace"]
def digestFields : List String := ["packetDigest", "commandSetDigest", "releaseDigest", "capacityDigest"]
def bindingFields : List String := idFields ++ digestFields ++ ["notBefore", "notAfter"]

def require (code : String) (condition : Prop) [Decidable condition] : Py Unit :=
  conform code "invalid live-backend data; no execution authority" condition

@[simp] theorem require_eq_ok {code : String} {p : Prop} [Decidable p] {u : Unit} : require code p = .ok u ↔ p :=
  conform_eq_ok

/-! ## Bounded data -/

mutual
/-- `_bounded(value, maximum, depth, remaining)`: what is left of the budget. -/
def bounded (maximum depth : ℕ) (remaining : ℤ) : Json → Py ℤ
  | .null => do
    require "SESSION_DEPTH_EXCEEDED" (depth ≤ maxDepth)
    require "SESSION_SIZE_EXCEEDED" (0 ≤ remaining - 1)
    pure (remaining - 1)
  | .bool _ => do
    require "SESSION_DEPTH_EXCEEDED" (depth ≤ maxDepth)
    require "SESSION_SIZE_EXCEEDED" (0 ≤ remaining - 1)
    pure (remaining - 1)
  | .int n => do
    require "SESSION_DEPTH_EXCEEDED" (depth ≤ maxDepth)
    require "SESSION_TYPE_INVALID" (-(2 ^ 53 - 1) ≤ n ∧ n ≤ 2 ^ 53 - 1)
    require "SESSION_SIZE_EXCEEDED" (0 ≤ remaining - 1)
    pure (remaining - 1)
  | .str text => do
    require "SESSION_DEPTH_EXCEEDED" (depth ≤ maxDepth)
    require "SESSION_SIZE_EXCEEDED" (text.length ≤ maximum)
    require "SESSION_SIZE_EXCEEDED" (0 ≤ remaining - (text.length + 2))
    pure (remaining - (text.length + 2))
  | .arr items => do
    require "SESSION_DEPTH_EXCEEDED" (depth ≤ maxDepth)
    require "SESSION_COLLECTION_EXCEEDED" (items.length ≤ 4096)
    let remaining := remaining - (2 + (items.length - 1 : ℕ))
    require "SESSION_SIZE_EXCEEDED" (0 ≤ remaining)
    let remaining ← boundedItems maximum (depth + 1) remaining items
    require "SESSION_SIZE_EXCEEDED" (0 ≤ remaining)
    pure remaining
  | .obj members => do
    require "SESSION_DEPTH_EXCEEDED" (depth ≤ maxDepth)
    require "SESSION_COLLECTION_EXCEEDED" (members.length ≤ 4096)
    let remaining := remaining - (2 + (members.length - 1 : ℕ) + members.length)
    require "SESSION_SIZE_EXCEEDED" (0 ≤ remaining)
    let remaining ← boundedMembers maximum (depth + 1) remaining members
    require "SESSION_SIZE_EXCEEDED" (0 ≤ remaining)
    pure remaining
def boundedItems (maximum depth : ℕ) (remaining : ℤ) : List Json → Py ℤ
  | [] => pure remaining
  | item :: items => do
    let remaining ← bounded maximum depth remaining item
    boundedItems maximum depth remaining items
/-- A key is charged as the string it is. -/
def boundedMembers (maximum depth : ℕ) (remaining : ℤ) : Json.Members → Py ℤ
  | [] => pure remaining
  | (key, item) :: members => do
    require "SESSION_DEPTH_EXCEEDED" (depth ≤ maxDepth)
    require "SESSION_SIZE_EXCEEDED" (key.length ≤ maximum)
    let remaining := remaining - (key.length + 2)
    require "SESSION_SIZE_EXCEEDED" (0 ≤ remaining)
    let remaining ← bounded maximum depth remaining item
    boundedMembers maximum depth remaining members
end

/-! ## Documents -/

/-- The exceptions `data_document` turns into its own refusal. -/
def malformed {α : Type} : Py α → Py α
  | .ok a => .ok a
  | .error (.conformance reason message) => .error (.conformance reason message)
  | .error e =>
    if e.isValueError ∨ e = .typeError ∨ e = .recursionError
    then .error (.conformance "SESSION_DATA_MALFORMED" "malformed live-backend data") else .error e

theorem malformed_eq_ok {α : Type} {x : Py α} {a : α} : malformed x = .ok a ↔ x = .ok a := by
  cases x with
  | ok b => rfl
  | error e =>
    cases e <;> simp only [malformed, reduceCtorEq, iff_false] <;> split <;> simp

variable [Runtime]

/-- The plain data of a bounded document. -/
def dataValue (input : Input) (maximum : ℕ) : Py Json :=
  match input with
  | .bytes raw => do
    require "SESSION_SIZE_EXCEEDED" (raw.length ≤ maximum)
    requireCanonicalDocument raw
  | .data value => pure value
  | .foreign => .error (.conformance "SESSION_TYPE_INVALID" "invalid live-backend data; no execution authority")

/-- `data_document(value, maximum)` -/
def dataDocument (input : Input) (maximum : ℕ) : Py Json := do
  require "SESSION_SIZE_LIMIT_INVALID" (maximum = maxSessionBytes ∨ maximum = maxResponseBytes)
  malformed do
    let value ← dataValue input maximum
    let _ ← bounded maximum 0 maximum value
    require "SESSION_TYPE_INVALID" (isObject value)
    let encoded ← canonicalBytes value
    require "SESSION_SIZE_EXCEEDED" (encoded.length ≤ maximum)
    requireCanonicalDocument encoded

theorem dataDocument_eq_ok {input : Input} {maximum : ℕ} {v : Json} (h : dataDocument input maximum = .ok v) :
    ∃ w, dataValue input maximum = .ok w ∧ requireCanonicalDocument (canonicalText w) = .ok v := by
  simp only [dataDocument, bind_eq_ok, malformed_eq_ok, require_eq_ok, exists_const, canonicalBytes_eq_ok] at h
  obtain ⟨-, w, hw, -, -, -, encoded, ⟨-, rfl⟩, -, h⟩ := h
  exact ⟨w, hw, h⟩

theorem dataDocument_canonical {input : Input} {maximum : ℕ} {v : Json} (h : dataDocument input maximum = .ok v) :
    Canonical v := by
  obtain ⟨w, -, h⟩ := dataDocument_eq_ok h
  exact (requireCanonicalDocument_text h).1

/-- Plain data comes back with its members sorted. -/
theorem dataDocument_data {value : Json} {maximum : ℕ} {v : Json} (hwf : value.Wf)
    (h : dataDocument (.data value) maximum = .ok v) : v = value.canon := by
  obtain ⟨w, hw, h⟩ := dataDocument_eq_ok h
  obtain rfl := pure_eq_ok.mp hw
  exact requireCanonicalDocument_text_wf hwf h

end LiveSession

/-! ## Bindings -/

open LiveSession

/-- A validated binding. -/
structure SessionBinding where
  nonce : Identifier
  tenantId : Identifier
  environmentId : Identifier
  endpointId : Identifier
  nameSpace : Identifier
  packetDigest : Digest
  commandSetDigest : Digest
  releaseDigest : Digest
  capacityDigest : Digest
  notBefore : TimeText
  notAfter : TimeText
  window : notBefore.instant < notAfter.instant
  deriving DecidableEq

namespace SessionBinding

def toJson (b : SessionBinding) : Json :=
  .obj [("nonce", .str b.nonce.text), ("tenantId", .str b.tenantId.text), ("environmentId", .str b.environmentId.text),
    ("endpointId", .str b.endpointId.text), ("namespace", .str b.nameSpace.text),
    ("packetDigest", .str b.packetDigest.text), ("commandSetDigest", .str b.commandSetDigest.text),
    ("releaseDigest", .str b.releaseDigest.text), ("capacityDigest", .str b.capacityDigest.text),
    ("notBefore", .str b.notBefore.text), ("notAfter", .str b.notAfter.text)]

/-- `validate_binding(value)`, with the members read off as their checks pass. -/
def validate [Runtime] (input : Input) : Py SessionBinding := do
  let binding ← dataDocument input maxSessionBytes
  closed binding bindingFields
  let nonce ← requireId (← item binding "nonce") "nonce"
  let tenantId ← requireId (← item binding "tenantId") "tenantId"
  let environmentId ← requireId (← item binding "environmentId") "environmentId"
  let endpointId ← requireId (← item binding "endpointId") "endpointId"
  let nameSpace ← requireId (← item binding "namespace") "namespace"
  let packetDigest ← requireDigest (← item binding "packetDigest") "packetDigest"
  let commandSetDigest ← requireDigest (← item binding "commandSetDigest") "commandSetDigest"
  let releaseDigest ← requireDigest (← item binding "releaseDigest") "releaseDigest"
  let capacityDigest ← requireDigest (← item binding "capacityDigest") "capacityDigest"
  let notBefore ← requireTime (← item binding "notBefore") "notBefore"
  let notAfter ← requireTime (← item binding "notAfter") "notAfter"
  if h : notBefore.instant < notAfter.instant then
    pure ⟨nonce, tenantId, environmentId, endpointId, nameSpace, packetDigest, commandSetDigest, releaseDigest,
      capacityDigest, notBefore, notAfter, h⟩
  else .error (.conformance "SESSION_WINDOW_INVALID" "invalid live-backend data; no execution authority")

theorem wf_toJson (b : SessionBinding) : b.toJson.Wf :=
  Json.wf_obj.mpr ⟨(by decide : bindingFields.Nodup), by simp [Json.Wf]⟩

theorem eq_of_canon {b c : SessionBinding} (h : b.toJson.canon = c.toJson.canon) : b = c := by
  have field (k s t : String) (hs : b.toJson.get? k = some (.str s)) (ht : c.toJson.get? k = some (.str t)) : s = t :=
    Json.str.inj (Json.canon_get?_eq b.wf_toJson c.wf_toJson h hs ht)
  cases b
  cases c
  rw [mk.injEq]
  refine ⟨Text.ext (field "nonce" _ _ rfl rfl), Text.ext (field "tenantId" _ _ rfl rfl),
    Text.ext (field "environmentId" _ _ rfl rfl), Text.ext (field "endpointId" _ _ rfl rfl),
    Text.ext (field "namespace" _ _ rfl rfl), Text.ext (field "packetDigest" _ _ rfl rfl),
    Text.ext (field "commandSetDigest" _ _ rfl rfl), Text.ext (field "releaseDigest" _ _ rfl rfl),
    Text.ext (field "capacityDigest" _ _ rfl rfl), Text.ext (field "notBefore" _ _ rfl rfl),
    Text.ext (field "notAfter" _ _ rfl rfl)⟩

variable [Runtime]

/-- The document that validated is the binding's own. -/
theorem validate_document {input : Input} {b : SessionBinding} (h : validate input = .ok b) :
    dataDocument input maxSessionBytes = .ok b.toJson.canon := by
  simp only [validate, bind_eq_ok, item_eq_ok, requireId_eq_ok, requireDigest_eq_ok, requireTime_eq_ok] at h
  obtain ⟨v, hv, u, hclosed, h⟩ := h
  obtain ⟨_, hnonce, nonce, rfl, _, htenant, tenantId, rfl, _, henvironment, environmentId, rfl, h⟩ := h
  obtain ⟨_, hendpoint, endpointId, rfl, _, hnamespace, nameSpace, rfl, _, hpacket, packetDigest, rfl, h⟩ := h
  obtain ⟨_, hcommand, commandSetDigest, rfl, _, hrelease, releaseDigest, rfl, h⟩ := h
  obtain ⟨_, hcapacity, capacityDigest, rfl, _, hbefore, notBefore, rfl, _, hafter, notAfter, rfl, h⟩ := h
  split at h
  · obtain rfl := pure_eq_ok.mp h
    have hcanonical := dataDocument_canonical hv
    rw [hv]
    refine congrArg Except.ok (eq_canon_of_closed hcanonical.wf hcanonical.canon hclosed (by decide) rfl ?_)
    simp only [List.forall_mem_cons, hnonce, htenant, henvironment, hendpoint, hnamespace, hpacket, hcommand, hrelease,
      hcapacity, hbefore, hafter, true_and]
    exact List.forall_mem_nil _
  · cases h

/-- Validating a binding's own data again returns it. -/
theorem validate_data {b c : SessionBinding} (h : validate (.data b.toJson) = .ok c) : c = b :=
  eq_of_canon (dataDocument_data b.wf_toJson (validate_document h))

end SessionBinding

namespace LiveSession.Sample

def binding : SessionBinding :=
  ⟨⟨"nonce-1", by decide⟩, ⟨"tenant", by decide⟩, ⟨"staging", by decide⟩, ⟨"proxy", by decide⟩, ⟨"baseline", by decide⟩,
    zero, zero, zero, zero, newYear, ⟨"2026-01-01T01:00:00Z", by decide⟩, by decide⟩

end LiveSession.Sample
end HarnessConformance
