import HarnessConformance.Admission.Document

/-! # Members of ledger rows

The checked texts and numbers of the admission ledger, and the binding every row repeats. -/

namespace HarnessConformance.Admission
open Lib Lib.Outcome Lib.Lines
set_option autoImplicit false

def ledgerFields : List String :=
  ["sequence", "previousDigest", "binding", "state", "operation", "observedAt", "cleanup"]

def bindingFields : List String :=
  ["tenantId", "environmentId", "runNonce", "capacityNonce", "endpointId", "releaseDigest", "packetDigest",
    "commandSetDigest", "profileDigest"]

def resourceFields : List String :=
  ["actionId", "apiVersion", "kind", "namespace", "name", "manifestDigest", "uid", "resourceVersion"]

/-! ## Checked members -/

/-- `[a-z0-9][a-z0-9.-]{0,62}` -/
def namePattern : Regex := .seq lowerAlnum (.upTo (.one fun c => ('a' ≤ c && c ≤ 'z') || c.isDigit || c == '.' || c == '-') 62)

/-- `[A-Za-z0-9-]{1,128}` -/
def uidPattern : Regex := .between (.one fun c => c.isAlpha || c.isDigit || c == '-') 1 127

/-- `[A-Za-z0-9._:-]{1,128}` -/
def versionPattern : Regex :=
  .between (.one fun c => c.isAlpha || c.isDigit || c == '.' || c == '_' || c == ':' || c == '-') 1 127

abbrev Name := Text namePattern.fullmatch
abbrev Uid := Text uidPattern.fullmatch
abbrev Version := Text versionPattern.fullmatch
abbrev ActionId := { n : ℕ // 1 ≤ n ∧ n ≤ 256 }

/-- The kinds of resource a run may create. -/
inductive Kind where
  | pod
  | configMap
  | service
  deriving DecidableEq

namespace Kind

def name : Kind → String
  | pod => "Pod"
  | configMap => "ConfigMap"
  | service => "Service"

def all : List Kind := [pod, configMap, service]

theorem mem_all (k : Kind) : k ∈ all := by
  cases k <;> decide

theorem name_injective {k l : Kind} (h : k.name = l.name) : k = l :=
  List.inj_on_of_nodup_map (by decide : (all.map name).Nodup) (mem_all k) (mem_all l) h

end Kind

def requireName (reason : String) (value : Json) : Py Name := requireText (refusal reason) _ value

def requireCase (reason : String) (value : Json) : Py Case :=
  match Case.ofJson? value with
  | some c => .ok c
  | none => .error (refusal reason)

def requireKind (reason : String) (value : Json) : Py Kind :=
  match Kind.all.find? fun k => value = .str k.name with
  | some k => .ok k
  | none => .error (refusal reason)

theorem actionId_bounds {n : ℤ} (h : 1 ≤ n ∧ n ≤ 256) : 1 ≤ n.toNat ∧ n.toNat ≤ 256 := by
  omega

def requireActionId (reason : String) (value : Json) : Py ActionId :=
  match value with
  | .int n => if h : 1 ≤ n ∧ n ≤ 256 then .ok ⟨n.toNat, actionId_bounds h⟩ else .error (refusal reason)
  | _ => .error (refusal reason)

@[simp] theorem requireName_eq_ok {reason : String} {v : Json} {n : Name} :
    requireName reason v = .ok n ↔ v = .str n.text := requireText_eq_ok

@[simp] theorem requireCase_eq_ok {reason : String} {v : Json} {c : Case} :
    requireCase reason v = .ok c ↔ v = .str c.name := by
  rw [← Case.ofJson?_eq_some, requireCase]
  cases Case.ofJson? v <;> simp

@[simp] theorem requireKind_eq_ok {reason : String} {v : Json} {k : Kind} :
    requireKind reason v = .ok k ↔ v = .str k.name := by
  unfold requireKind
  constructor
  · intro h
    split at h
    · rename_i l hl
      obtain rfl := Except.ok.inj h
      simpa using List.find?_some hl
    · cases h
  · rintro rfl
    split
    · rename_i l hl
      have hname : Json.str k.name = .str l.name := by simpa using List.find?_some hl
      rw [Kind.name_injective (Json.str.inj hname)]
    · rename_i hnone
      simpa using List.find?_eq_none.mp hnone k (Kind.mem_all k)

@[simp] theorem requireActionId_eq_ok {reason : String} {v : Json} {a : ActionId} :
    requireActionId reason v = .ok a ↔ v = .int a.val := by
  obtain ⟨a, ha⟩ := a
  cases v with
  | int n =>
    rw [requireActionId, Json.int.injEq]
    dsimp only
    split
    · rw [Except.ok.injEq, Subtype.mk.injEq]
      omega
    · simp only [reduceCtorEq, false_iff]
      omega
  | _ => simp [requireActionId]

/-! ## Bindings -/

/-- The members of a reservation's binding. -/
structure AdmissionBinding where
  tenantId : Name
  environmentId : Name
  runNonce : Name
  capacityNonce : Name
  endpointId : Name
  releaseDigest : Digest
  packetDigest : Digest
  commandSetDigest : Digest
  profileDigest : Digest
  deriving DecidableEq

namespace AdmissionBinding

def toJson (b : AdmissionBinding) : Json :=
  .obj [("tenantId", .str b.tenantId.text), ("environmentId", .str b.environmentId.text),
    ("runNonce", .str b.runNonce.text), ("capacityNonce", .str b.capacityNonce.text),
    ("endpointId", .str b.endpointId.text), ("releaseDigest", .str b.releaseDigest.text),
    ("packetDigest", .str b.packetDigest.text), ("commandSetDigest", .str b.commandSetDigest.text),
    ("profileDigest", .str b.profileDigest.text)]

/-- The key of a reservation: the scope and the nonce of the run. -/
def key (b : AdmissionBinding) : Name × Name := (b.tenantId, b.runNonce)

/-- The loop of `parse_reservations` over the members of a binding. -/
def read (binding : Json) : Py AdmissionBinding := do
  closed binding bindingFields
  let tenantId ← requireName "ADMISSION_BINDING_INVALID" (← item binding "tenantId")
  let environmentId ← requireName "ADMISSION_BINDING_INVALID" (← item binding "environmentId")
  let runNonce ← requireName "ADMISSION_BINDING_INVALID" (← item binding "runNonce")
  let capacityNonce ← requireName "ADMISSION_BINDING_INVALID" (← item binding "capacityNonce")
  let endpointId ← requireName "ADMISSION_BINDING_INVALID" (← item binding "endpointId")
  let releaseDigest ← requireDigest (← item binding "releaseDigest") "releaseDigest"
  let packetDigest ← requireDigest (← item binding "packetDigest") "packetDigest"
  let commandSetDigest ← requireDigest (← item binding "commandSetDigest") "commandSetDigest"
  let profileDigest ← requireDigest (← item binding "profileDigest") "profileDigest"
  pure ⟨tenantId, environmentId, runNonce, capacityNonce, endpointId, releaseDigest, packetDigest, commandSetDigest,
    profileDigest⟩

theorem wf_toJson (b : AdmissionBinding) : b.toJson.Wf :=
  Json.wf_obj.mpr ⟨(by decide : bindingFields.Nodup), by simp [Json.Wf]⟩

theorem eq_of_canon {b c : AdmissionBinding} (h : b.toJson.canon = c.toJson.canon) : b = c := by
  have field (k s t : String) (hs : b.toJson.get? k = some (.str s)) (ht : c.toJson.get? k = some (.str t)) : s = t :=
    Json.str.inj (Json.canon_get?_eq b.wf_toJson c.wf_toJson h hs ht)
  cases b
  cases c
  rw [mk.injEq]
  refine ⟨Text.ext (field "tenantId" _ _ rfl rfl), Text.ext (field "environmentId" _ _ rfl rfl),
    Text.ext (field "runNonce" _ _ rfl rfl), Text.ext (field "capacityNonce" _ _ rfl rfl),
    Text.ext (field "endpointId" _ _ rfl rfl), Text.ext (field "releaseDigest" _ _ rfl rfl),
    Text.ext (field "packetDigest" _ _ rfl rfl), Text.ext (field "commandSetDigest" _ _ rfl rfl),
    Text.ext (field "profileDigest" _ _ rfl rfl)⟩

/-- A canonical value that reads as a binding is the binding's own. -/
theorem read_eq_ok {v : Json} (hwf : v.Wf) (hcanon : v.canon = v) {b : AdmissionBinding} (h : read v = .ok b) :
    v = b.toJson.canon := by
  simp only [read, bind_eq_ok, item_eq_ok, requireName_eq_ok, requireDigest_eq_ok, pure_eq_ok] at h
  obtain ⟨u, hclosed, _, htenant, tenantId, rfl, _, henvironment, environmentId, rfl, _, hrun, runNonce, rfl, h⟩ := h
  obtain ⟨_, hcapacity, capacityNonce, rfl, _, hendpoint, endpointId, rfl, _, hrelease, releaseDigest, rfl, h⟩ := h
  obtain ⟨_, hpacket, packetDigest, rfl, _, hcommand, commandSetDigest, rfl, _, hprofile, profileDigest, rfl, rfl⟩ := h
  refine eq_canon_of_closed hwf hcanon hclosed (by decide) rfl ?_
  simp only [List.forall_mem_cons, htenant, henvironment, hrun, hcapacity, hendpoint, hrelease, hpacket, hcommand,
    hprofile, true_and]
  exact List.forall_mem_nil _

/-- A binding's own value reads as the binding. -/
theorem read_toJson (b : AdmissionBinding) : read b.toJson.canon = .ok b := by
  have hclosed : closed b.toJson.canon bindingFields = .ok () := closed_canon.mpr (closed_eq_ok.mpr ⟨_, rfl, fun _ => Iff.rfl⟩)
  have hget (k : String) := Json.get?_canon b.wf_toJson k
  simp only [read, bind_eq_ok, item_eq_ok, requireName_eq_ok, requireDigest_eq_ok, pure_eq_ok]
  exact ⟨(), hclosed, _, hget "tenantId", b.tenantId, rfl, _, hget "environmentId", b.environmentId, rfl, _,
    hget "runNonce", b.runNonce, rfl, _, hget "capacityNonce", b.capacityNonce, rfl, _, hget "endpointId", b.endpointId,
    rfl, _, hget "releaseDigest", b.releaseDigest, rfl, _, hget "packetDigest", b.packetDigest, rfl, _,
    hget "commandSetDigest", b.commandSetDigest, rfl, _, hget "profileDigest", b.profileDigest, rfl, rfl⟩

end AdmissionBinding

end HarnessConformance.Admission
