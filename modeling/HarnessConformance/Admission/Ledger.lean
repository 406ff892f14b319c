import HarnessConformance.Admission.Cleanup

/-! # The admission ledger

The reader `parse_reservations` of `live_mutation_admission.py`, with `_resource_transition` for the
rows of a created resource. -/

namespace HarnessConformance.Admission
open Lib Lib.Outcome Lib.Lines
set_option autoImplicit false

/-! ## Reservations -/

/-- What an intent states of the resource it is about to create. -/
structure Intent where
  actionId : ActionId
  identity : Identity
  manifestDigest : Digest
  deriving DecidableEq

/-- An entry of `resources`: an intent, and the identity the created object was given. -/
structure Owned where
  intent : Intent
  operation : Case
  created : Option (Uid × Version)
  deriving DecidableEq

structure Reservation where
  binding : AdmissionBinding
  done : List Case
  current : Option Case
  held : Bool
  cleanupDigest : Digest
  last : Instant
  resources : Dict Identity Owned

namespace Reservation

/-- The values of `resources`. -/
def owned (r : Reservation) : List Owned := r.resources.entries.map Sigma.snd

/-- The resources of one operation. -/
def ownedBy (r : Reservation) (operation : Case) : List Owned := r.owned.filter (·.operation = operation)

/-- The condition under `ADMISSION_CREATE_REPLAY`. -/
def Fresh (r : Reservation) (operation : Case) (intent : Intent) : Prop :=
  r.owned.length < 32 ∧ intent.identity ∉ r.resources ∧ (∀ o ∈ r.owned, o.created ≠ none) ∧
    (∀ o ∈ r.owned, o.intent.manifestDigest ≠ intent.manifestDigest) ∧
    ∀ o ∈ r.owned, o.operation = operation → o.intent.actionId < intent.actionId

instance (r : Reservation) (operation : Case) (intent : Intent) : Decidable (r.Fresh operation intent) :=
  inferInstanceAs (Decidable (_ ∧ _))

/-- The condition under `ADMISSION_CREATED_WITHOUT_INTENT`. -/
def Intended (r : Reservation) (operation : Case) (intent : Intent) : Prop :=
  r.resources.lookup intent.identity = some ⟨intent, operation, none⟩

instance (r : Reservation) (operation : Case) (intent : Intent) : Decidable (r.Intended operation intent) :=
  inferInstanceAs (Decidable (_ = _))

/-- `resources[key] = {**resource, "operation": operation, "state": state}` -/
def own (r : Reservation) (operation : Case) (intent : Intent) (created : Option (Uid × Version)) : Reservation :=
  { r with resources := r.resources.insert intent.identity ⟨intent, operation, created⟩ }

end Reservation

/-- The `CREATE_INTENT` branch of `_resource_transition`. -/
def acceptIntent (prior : Reservation) (operation : Case) (intent : Intent) (uid version : Json) : Py Reservation := do
  require "ADMISSION_INTENT_IDENTITY" (uid = .null ∧ version = .null)
  require "ADMISSION_CREATE_REPLAY" (prior.Fresh operation intent)
  pure (prior.own operation intent none)

/-- The `CREATED` branch. -/
def acceptCreated (prior : Reservation) (operation : Case) (intent : Intent) (uid version : Json) : Py Reservation := do
  require "ADMISSION_CREATED_WITHOUT_INTENT" (prior.Intended operation intent)
  let uid ← requireText (refusal "ADMISSION_CREATED_IDENTITY") uidPattern.fullmatch uid
  let version ← requireText (refusal "ADMISSION_CREATED_IDENTITY") versionPattern.fullmatch version
  require "ADMISSION_CREATED_IDENTITY" (∀ o ∈ prior.owned, o.created.map Prod.fst ≠ some uid)
  pure (prior.own operation intent (some (uid, version)))

/-- `_resource_transition(prior, row)`, for a row whose operation is checked. -/
def resourceTransition (prior : Reservation) (operation : Case) (row : Json) : Py Reservation := do
  let resource ← item row "resource"
  closed resource resourceFields
  require "ADMISSION_RESOURCE_SCOPE" ((← item row "cleanup") = .null ∧ prior.current = some operation)
  let actionId ← requireActionId "ADMISSION_RESOURCE_SCOPE" (← item resource "actionId")
  require "ADMISSION_RESOURCE_SCOPE" ((← item resource "apiVersion") = .str "v1")
  let kind ← requireKind "ADMISSION_RESOURCE_SCOPE" (← item resource "kind")
  let nameSpace ← requireName "ADMISSION_RESOURCE_SCOPE" (← item resource "namespace")
  let name ← requireName "ADMISSION_RESOURCE_SCOPE" (← item resource "name")
  let manifestDigest ← requireDigest (← item resource "manifestDigest") "manifestDigest"
  let intent : Intent := ⟨actionId, ⟨kind, nameSpace, name⟩, manifestDigest⟩
  let uid ← item resource "uid"
  let version ← item resource "resourceVersion"
  if (← item row "state") = .str "CREATE_INTENT" then acceptIntent prior operation intent uid version
  else acceptCreated prior operation intent uid version

variable [Runtime]

/-! ## The reader -/

def identityFields : List String := ["apiVersion", "kind", "namespace", "name", "uid", "manifestDigest"]

/-- `tuple(r[k] for k in fields)` of an owned resource. -/
def Owned.tuple (o : Owned) : List Json :=
  [.str "v1", .str o.intent.identity.kind.name, .str o.intent.identity.nameSpace.text, .str o.intent.identity.name.text,
    (match o.created with | none => .null | some (uid, _) => .str uid.text), .str o.intent.manifestDigest.text]

/-- Until absence is accounted for, a receipt lists every resource its operation owns. -/
def requireAccounted (owned : List Owned) (receipt : Json) : Py Unit :=
  if owned = [] then pure () else do
    let remaining ← requireList "ADMISSION_RESOURCE_NOT_CLEAN" 32 (← item receipt "remainingResources")
    let tuples ← remaining.mapM fun r => identityFields.mapM (item r)
    require "ADMISSION_RESOURCE_NOT_CLEAN" (remaining.length = owned.length ∧
      (∀ t ∈ tuples, t ∈ owned.map Owned.tuple) ∧ ∀ t ∈ owned.map Owned.tuple, t ∈ tuples)

/-- `receipt["state"] == "CLEAN"` -/
def isClean (receipt : Json) : Bool := receipt.get? "state" = some (.str "CLEAN")

/-- The `RECORDED` branch of the loop. -/
def recordCleanup (prior : Reservation) (operation : Case) (observedAt : TimeText) (row : Json) : Py Reservation := do
  let receipt ← item row "cleanup"
  require "ADMISSION_HISTORY_TRANSITION" (prior.current = some operation ∧ isObject receipt)
  let remaining ← getItem receipt "remainingResources"
  let bindingDigest ← canonicalDigest prior.binding.toJson none
  let expected ← cleanupReceipt (.str bindingDigest.text) (.str operation.name) (.str observedAt.text) remaining
    (.str prior.cleanupDigest.text)
  require "ADMISSION_CLEANUP_INVALID" (pyEq receipt expected)
  requireAccounted (prior.ownedBy operation) receipt
  let cleanupDigest ← canonicalDigest receipt none
  let _ ← item receipt "state"
  pure { prior with
    cleanupDigest := cleanupDigest
    current := if isClean receipt then none else some operation
    held := prior.done.length < Case.all.length || !isClean receipt }

instance : LawfulBEq ((Name × Name) × Case) := inferInstance

/-- The reader between two lines; `recorded` holds the operations with a recorded cleanup. -/
structure Ledger where
  reservations : Dict (Name × Name) Reservation
  previous : Digest
  count : ℕ
  recorded : List ((Name × Name) × Case)

/-- The first row of a key. -/
def openReservation (s : Ledger) (binding : AdmissionBinding) (observedAt : TimeText) (row : Json) : Py Reservation := do
  require "ADMISSION_HISTORY_INITIAL" ((← item row "state") = .str "RESERVED" ∧ (← item row "operation") = .null ∧
    (← item row "cleanup") = .null)
  require "ADMISSION_CAPACITY_HELD" (∀ e ∈ s.reservations.entries, e.2.held = false)
  pure ⟨binding, [], none, true, zero, observedAt.instant, ∅⟩

/-- A later row of a key: the reservation after it, and the recorded operations. -/
def advanceReservation (s : Ledger) (prior : Reservation) (binding : AdmissionBinding) (observedAt : TimeText) (row : Json) :
    Py (Reservation × List ((Name × Name) × Case)) := do
  require "ADMISSION_HISTORY_TRANSITION" (binding = prior.binding ∧ prior.last ≤ observedAt.instant ∧ prior.held)
  let operation ← requireCase "ADMISSION_OPERATION_INVALID" (← item row "operation")
  let state ← item row "state"
  if isOneOf state ["CREATE_INTENT", "CREATED"] then
    require "ADMISSION_RESOURCE_AFTER_CLEANUP" ((binding.key, operation) ∉ s.recorded)
    let reservation ← resourceTransition prior operation row
    pure (reservation, s.recorded)
  else if state = .str "RUNNING" then
    require "ADMISSION_OPERATION_REPLAY" (prior.current = none ∧ operation ∉ prior.done ∧ (← item row "cleanup") = .null)
    pure ({ prior with current := some operation, done := prior.done ++ [operation] }, s.recorded)
  else if state = .str "RECORDED" then
    let reservation ← recordCleanup prior operation observedAt row
    pure (reservation, (binding.key, operation) :: s.recorded)
  else .error (refusal "ADMISSION_HISTORY_TRANSITION")

/-- The branch of the loop on the prior state of the key. -/
def reserve (s : Ledger) (binding : AdmissionBinding) (observedAt : TimeText) (row : Json) :
    Py (Reservation × List ((Name × Name) × Case)) :=
  match s.reservations.lookup binding.key with
  | none => do
    let reservation ← openReservation s binding observedAt row
    pure (reservation, s.recorded)
  | some prior => advanceReservation s prior binding observedAt row

/-- The body of the loop of `parse_reservations`. -/
def replayLine (s : Ledger) (line : Bytes) : Py Ledger := do
  let row ← document (.bytes line) 32768
  require "ADMISSION_HISTORY_INVALID" (isObject row)
  let state ← getItem row "state"
  closed row (if isOneOf state ["CREATE_INTENT", "CREATED"] then ledgerFields ++ ["resource"] else ledgerFields)
  let binding ← AdmissionBinding.read (← item row "binding")
  require "ADMISSION_HISTORY_CHAIN" ((← item row "sequence") = .int (s.count + 1 : ℕ) ∧
    (← item row "previousDigest") = .str s.previous.text)
  let observedAt ← requireTime (← item row "observedAt") "observedAt"
  let (reservation, recorded) ← reserve s binding observedAt row
  let digest ← canonicalDigest row none
  pure ⟨s.reservations.insert binding.key { reservation with last := observedAt.instant }, digest, s.count + 1, recorded⟩

def Ledger.empty : Ledger := ⟨∅, zero, 0, []⟩

def maxHistory : ℕ := 4194304
def maxRows : ℕ := 4096

/-- `parse_reservations(raw)`: the reservations, the head digest and the number of rows. -/
def parseReservations (raw : Bytes) : Py Ledger := do
  require "ADMISSION_HISTORY_INVALID" (raw.length ≤ maxHistory ∧ (raw = [] ∨ raw.getLast? = some lineFeed))
  let lines := splitLines raw
  require "ADMISSION_HISTORY_FULL" (lines.length ≤ maxRows)
  lines.foldlM replayLine .empty

end HarnessConformance.Admission
