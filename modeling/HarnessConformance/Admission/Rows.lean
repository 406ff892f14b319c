import HarnessConformance.Lib.Replay
import HarnessConformance.Lib.HashChain
import HarnessConformance.Admission.Ledger

/-! # The ledger as a machine over typed rows

What one line of the ledger says, which rows a state admits, and where they take it. Every result
about accepted histories is about this machine. -/

namespace HarnessConformance.Admission
open Lib Lib.Outcome Lib.Lines
set_option autoImplicit false

/-! ## Rows -/

/-- A recorded receipt, in the form the reader returns. -/
abbrev Receipt := { v : Json // v.Wf ∧ v.canon = v }

inductive Event where
  | reserved
  | running (operation : Case)
  | recorded (operation : Case) (receipt : Receipt)
  | createIntent (operation : Case) (intent : Intent)
  | created (operation : Case) (intent : Intent) (uid : Uid) (version : Version)
  deriving DecidableEq

def Intent.toJson (i : Intent) (uid version : Json) : Json :=
  .obj [("actionId", .int i.actionId.val), ("apiVersion", .str "v1"), ("kind", .str i.identity.kind.name),
    ("namespace", .str i.identity.nameSpace.text), ("name", .str i.identity.name.text),
    ("manifestDigest", .str i.manifestDigest.text), ("uid", uid), ("resourceVersion", version)]

namespace Intent

theorem wf_toJson (i : Intent) {uid version : Json} (huid : uid.Wf) (hversion : version.Wf) : (i.toJson uid version).Wf :=
  Json.wf_obj.mpr ⟨(by decide : resourceFields.Nodup), by simp [Json.Wf, huid, hversion]⟩

theorem eq_of_canon {i j : Intent} {uid version uid' version' : Json} (hwf : uid.Wf ∧ version.Wf) (hwf' : uid'.Wf ∧ version'.Wf)
    (h : (i.toJson uid version).canon = (j.toJson uid' version').canon) :
    i = j ∧ uid.canon = uid'.canon ∧ version.canon = version'.canon := by
  have field (k : String) (a b : Json) (ha : (i.toJson uid version).get? k = some a)
      (hb : (j.toJson uid' version').get? k = some b) : a.canon = b.canon :=
    Json.canon_get?_eq (i.wf_toJson hwf.1 hwf.2) (j.wf_toJson hwf'.1 hwf'.2) h ha hb
  have hid : (i.actionId.val : ℤ) = j.actionId.val := Json.int.inj (field "actionId" _ _ rfl rfl)
  have hkind := Kind.name_injective (Json.str.inj (field "kind" _ _ rfl rfl))
  have hns := Text.ext (Json.str.inj (field "namespace" _ _ rfl rfl))
  have hname := Text.ext (Json.str.inj (field "name" _ _ rfl rfl))
  have hdigest := Text.ext (Json.str.inj (field "manifestDigest" _ _ rfl rfl))
  refine ⟨?_, field "uid" _ _ rfl rfl, field "resourceVersion" _ _ rfl rfl⟩
  obtain ⟨_, ⟨_, _, _⟩, _⟩ := i
  obtain ⟨_, ⟨_, _, _⟩, _⟩ := j
  rw [mk.injEq, Identity.mk.injEq]
  exact ⟨Subtype.ext (by exact_mod_cast hid), ⟨hkind, hns, hname⟩, hdigest⟩

end Intent

namespace Event

def state : Event → String
  | reserved => "RESERVED"
  | running _ => "RUNNING"
  | recorded _ _ => "RECORDED"
  | createIntent _ _ => "CREATE_INTENT"
  | created _ _ _ _ => "CREATED"

def operation? : Event → Option Case
  | reserved => none
  | running c => some c
  | recorded c _ => some c
  | createIntent c _ => some c
  | created c _ _ _ => some c

def cleanup : Event → Json
  | recorded _ receipt => receipt
  | _ => .null

/-- The `resource` member, of the rows that have one. -/
def resource : Event → Json.Members
  | createIntent _ i => [("resource", i.toJson .null .null)]
  | created _ i uid version => [("resource", i.toJson (.str uid.text) (.str version.text))]
  | _ => []

theorem keys_resource (e : Event) :
    Json.keys e.resource = if isOneOf (.str e.state) ["CREATE_INTENT", "CREATED"] then ["resource"] else [] := by
  cases e <;> rfl

theorem resource_wf (e : Event) : ∀ m ∈ e.resource, m.2.Wf := by
  cases e with
  | createIntent c i => exact List.forall_mem_singleton.mpr (i.wf_toJson Json.wf_null Json.wf_null)
  | created c i uid version => exact List.forall_mem_singleton.mpr (i.wf_toJson (Json.wf_str _) (Json.wf_str _))
  | _ => nofun

/-- An event from the members it fixes. -/
theorem eq_of_members {e f : Event} (hstate : e.state = f.state) (hoperation : e.operation? = f.operation?)
    (hcleanup : e.cleanup = f.cleanup) (hresource : ∀ a b, e.resource.lookup "resource" = some a →
      f.resource.lookup "resource" = some b → a.canon = b.canon) : e = f := by
  cases e <;> cases f
  case reserved.reserved => rfl
  case running.running => rw [Option.some.inj hoperation]
  case recorded.recorded => rw [Option.some.inj hoperation, Subtype.ext hcleanup]
  case createIntent.createIntent =>
    obtain ⟨hintent, -, -⟩ := Intent.eq_of_canon ⟨Json.wf_null, Json.wf_null⟩ ⟨Json.wf_null, Json.wf_null⟩
      (hresource _ _ rfl rfl)
    rw [Option.some.inj hoperation, hintent]
  case created.created =>
    obtain ⟨hintent, huid, hversion⟩ := Intent.eq_of_canon ⟨Json.wf_str _, Json.wf_str _⟩ ⟨Json.wf_str _, Json.wf_str _⟩
      (hresource _ _ rfl rfl)
    rw [Option.some.inj hoperation, hintent, Text.ext (Json.str.inj huid), Text.ext (Json.str.inj hversion)]
  all_goals simp [state] at hstate

theorem cleanup_wf (e : Event) : e.cleanup.Wf ∧ e.cleanup.canon = e.cleanup := by
  cases e with
  | recorded c receipt => exact receipt.property
  | _ => exact ⟨trivial, rfl⟩

end Event

def caseJson : Option Case → Json
  | none => .null
  | some c => .str c.name

theorem caseJson_canon (c : Option Case) : (caseJson c).canon = caseJson c := by
  cases c <;> rfl

theorem caseJson_injective {c d : Option Case} (h : caseJson c = caseJson d) : c = d := by
  cases c with
  | none => cases d with
    | none => rfl
    | some _ => cases h
  | some c => cases d with
    | none => cases h
    | some d => rw [Case.name_injective (Json.str.inj h)]

structure Row where
  sequence : ℕ
  previousDigest : Digest
  binding : AdmissionBinding
  observedAt : TimeText
  event : Event
  deriving DecidableEq

namespace Row

def toJson (r : Row) : Json :=
  .obj ([("sequence", .int r.sequence), ("previousDigest", .str r.previousDigest.text), ("binding", r.binding.toJson),
    ("state", .str r.event.state), ("operation", caseJson r.event.operation?), ("observedAt", .str r.observedAt.text),
    ("cleanup", r.event.cleanup)] ++ r.event.resource)

def text (r : Row) : Bytes := canonicalText r.toJson

def key (r : Row) : Name × Name := r.binding.key

theorem clean_text (r : Row) : Clean r.text := clean_canonicalText _

/-- The names a row is closed over. -/
def fields (e : Event) : List String := ledgerFields ++ Json.keys e.resource

theorem nodup_fields (e : Event) : (fields e).Nodup := by
  rw [fields, e.keys_resource]
  split
  · decide
  · decide

theorem keys_toJson (r : Row) (members : Json.Members) (h : r.toJson = .obj members) : Json.keys members = fields r.event := by
  obtain rfl := Json.obj.inj h
  simp [fields, ledgerFields, Json.keys]

theorem wf_toJson (r : Row) : r.toJson.Wf := by
  refine Json.wf_obj.mpr ⟨(r.keys_toJson _ rfl).symm ▸ nodup_fields r.event, ?_⟩
  have hbinding := r.binding.wf_toJson
  have hcleanup := r.event.cleanup_wf.1
  have hoperation : (caseJson r.event.operation?).Wf := by
    cases r.event.operation? with
    | none => exact Json.wf_null
    | some c => exact Json.wf_str c.name
  simp only [List.forall_mem_append, List.forall_mem_cons, hbinding, hcleanup, hoperation, Json.wf_str, Json.wf_int, true_and]
  exact ⟨nofun, r.event.resource_wf⟩

theorem eq_of_canon {r t : Row} (h : r.toJson.canon = t.toJson.canon) : r = t := by
  have field (k : String) (a b : Json) (ha : r.toJson.get? k = some a) (hb : t.toJson.get? k = some b) :
      a.canon = b.canon := Json.canon_get?_eq r.wf_toJson t.wf_toJson h ha hb
  have hsequence : (r.sequence : ℤ) = t.sequence := Json.int.inj (field "sequence" _ _ rfl rfl)
  have hprevious := Text.ext (Json.str.inj (field "previousDigest" _ _ rfl rfl))
  have hbinding := AdmissionBinding.eq_of_canon (field "binding" _ _ rfl rfl)
  have htime := Text.ext (Json.str.inj (field "observedAt" _ _ rfl rfl))
  have hstate := Json.str.inj (field "state" _ _ rfl rfl)
  have hoperation := field "operation" _ _ rfl rfl
  rw [caseJson_canon, caseJson_canon] at hoperation
  have hcleanup := field "cleanup" _ _ rfl rfl
  rw [r.event.cleanup_wf.2, t.event.cleanup_wf.2] at hcleanup
  have hevent : r.event = t.event := by
    refine Event.eq_of_members hstate (caseJson_injective hoperation) hcleanup fun a b ha hb => ?_
    exact field "resource" a b ha hb
  cases r
  cases t
  rw [mk.injEq]
  exact ⟨by exact_mod_cast hsequence, hprevious, hbinding, htime, hevent⟩

theorem text_injective {r t : Row} (h : r.text = t.text) : r = t :=
  eq_of_canon ((canonicalText_injective r.wf_toJson t.wf_toJson).mp h)

end Row

variable [Runtime]

def Row.digest (r : Row) : Digest := digestOf r.toJson

/-! ## The machine -/

namespace Reservation

/-- The reservation a first row opens. -/
def first (row : Row) : Reservation := ⟨row.binding, [], none, true, zero, row.observedAt.instant, ∅⟩

/-- What a later row may say at a time, given whether its operation has a recorded cleanup. -/
def Allows (r : Reservation) (recorded : Bool) (observedAt : TimeText) : Event → Prop
  | .reserved => False
  | .running operation => r.current = none ∧ operation ∉ r.done
  | .recorded operation receipt => r.current = some operation ∧
      ∃ remaining, receipt.val.get? "remainingResources" = some (.arr remaining) ∧
        cleanupReceipt (.str (digestOf r.binding.toJson).text) (.str operation.name) (.str observedAt.text)
          (.arr remaining) (.str r.cleanupDigest.text) = .ok receipt.val ∧
        requireAccounted (r.ownedBy operation) receipt = .ok ()
  | .createIntent operation intent => recorded = false ∧ r.current = some operation ∧ r.Fresh operation intent
  | .created operation intent uid _ => recorded = false ∧ r.current = some operation ∧ r.Intended operation intent ∧
      ∀ o ∈ r.owned, o.created.map Prod.fst ≠ some uid

/-- The reservation after an event. -/
def after (r : Reservation) : Event → Reservation
  | .reserved => r
  | .running operation => { r with current := some operation, done := r.done ++ [operation] }
  | .recorded operation receipt => { r with
      cleanupDigest := digestOf receipt
      current := if isClean receipt then none else some operation
      held := r.done.length < Case.all.length || !isClean receipt }
  | .createIntent operation intent => r.own operation intent none
  | .created operation intent uid version => r.own operation intent (some (uid, version))

end Reservation

namespace Ledger

/-- The operation of the event has a recorded cleanup under the key. -/
def hasRecorded (s : Ledger) (key : Name × Name) (e : Event) : Bool :=
  match e.operation? with
  | none => false
  | some operation => (key, operation) ∈ s.recorded

def recordedAfter (s : Ledger) (key : Name × Name) : Event → List ((Name × Name) × Case)
  | .recorded operation _ => (key, operation) :: s.recorded
  | _ => s.recorded

/-- The row a history takes next. -/
structure Admits (s : Ledger) (row : Row) : Prop where
  sequence : row.sequence = s.count + 1
  previous : row.previousDigest = s.previous
  event : match s.reservations.lookup row.key with
    | none => row.event = .reserved ∧ ∀ e ∈ s.reservations.entries, e.2.held = false
    | some prior => (row.binding = prior.binding ∧ prior.last ≤ row.observedAt.instant ∧ prior.held = true) ∧
        prior.Allows (s.hasRecorded row.key row.event) row.observedAt row.event

/-- The reservation of the row's key after the row. -/
def next (s : Ledger) (row : Row) : Reservation :=
  match s.reservations.lookup row.key with
  | none => .first row
  | some prior => { prior.after row.event with last := row.observedAt.instant }

def push (s : Ledger) (row : Row) : Ledger :=
  ⟨s.reservations.insert row.key (s.next row), row.digest, s.count + 1, s.recordedAfter row.key row.event⟩

end Ledger

def machine : Machine Ledger Row := ⟨Ledger.Admits, Ledger.push⟩

end HarnessConformance.Admission
