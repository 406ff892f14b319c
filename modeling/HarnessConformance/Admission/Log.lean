import HarnessConformance.Lib.AppendLog
import HarnessConformance.Admission.Capacity
import HarnessConformance.Admission.CreateRecord

/-! # The admission log

`_AdmissionLog` of `live_mutation_admission.py`: two operations that append one row to the ledger under its lock. -/

namespace HarnessConformance.Admission
open Lib Lib.Outcome Lib.Lines
set_option autoImplicit false

/-- The operations of `_AdmissionLog`. -/
inductive Op where
  | record (binding state operation now cleanup : Json)
  | recordResource (binding : Input) (state operation now : Json) (profile brokerBinding action : Input) (expectedHistory : Bytes)
      (observed : Option Input)

/-- The row that an operation appends. -/
def rowJson (s : Ledger) (binding state operation now cleanup : Json) (resource : Json.Members) : Json :=
  .obj ([("sequence", .int (s.count + 1 : ℕ)), ("previousDigest", .str s.previous.text), ("binding", binding), ("state", state),
    ("operation", operation), ("observedAt", now), ("cleanup", cleanup)] ++ resource)

/-- What a call raises once the append has begun. -/
def broken : AppendLog.Fault → PyError
  | .append _ => refusal "ADMISSION_STORE_SHORT_WRITE"
  | .readBack (some _) => refusal "ADMISSION_READBACK_FAILED"
  | _ => .osError

variable [Runtime]

/-- A row, encoded and read back behind the history: what is appended, and the digest that the call returns. -/
def prepareRow (raw : Bytes) (row : Json) : Py (Bytes × Digest) := do
  let text ← canonicalBytes row
  let _ ← parseReservations (raw ++ (text ++ [lineFeed]))
  pure (text ++ [lineFeed], digestOf row)

/-- `record(binding, state, operation, now, cleanup)` up to `io.append`, on the poison flag and the bytes read. -/
def prepareRecord (poisoned : Bool) (raw : Bytes) (binding state operation now cleanup : Json) : Py (Bytes × Digest) := do
  require "ADMISSION_STORAGE_AMBIGUOUS" (poisoned = false)
  let s ← parseReservations raw
  prepareRow raw (rowJson s binding state operation now cleanup [])

variable [AddressReader]

/-- The checks of `record_resource` before it enters the transaction, and the binding and resource that it records. -/
def resourceArguments (binding : Input) (state operation : Json) (profile brokerBinding action : Input) (expectedHistory : Bytes)
    (observed : Option Input) : Py (Json × Json) := do
  require "ADMISSION_RESOURCE_STATE"
    (isOneOf state ["CREATE_INTENT", "CREATED"] ∧ (observed = none ↔ state = .str "CREATE_INTENT"))
  require "ADMISSION_HISTORY_INVALID" (expectedHistory.length ≤ maxHistory)
  let binding ← document binding 16384
  let resource ← createRecord (.data binding) operation profile brokerBinding action observed
  pure (binding, resource)

/-- An operation up to `io.append`. -/
def prepare (poisoned : Bool) (raw : Bytes) : Op → Py (Bytes × Digest)
  | .record binding state operation now cleanup => prepareRecord poisoned raw binding state operation now cleanup
  | .recordResource binding state operation now profile brokerBinding action expectedHistory observed => do
    require "ADMISSION_STORAGE_AMBIGUOUS" (poisoned = false)
    let (binding, resource) ← resourceArguments binding state operation profile brokerBinding action expectedHistory observed
    require "ADMISSION_RESOURCE_HISTORY_CHANGED" (raw = expectedHistory)
    let s ← parseReservations raw
    prepareRow raw (rowJson s binding state operation now .null [("resource", resource)])

/-- What an operation finds, and what it appends. -/
structure Appends (raw row : Bytes) (reply : Digest) (op : Op) : Prop where
  found : ∃ s, parseReservations raw = .ok s
  written : ∃ json, row = canonicalText json ++ [lineFeed] ∧ reply = digestOf json
  accepted : ∃ t, parseReservations (raw ++ row) = .ok t
  expected : ∀ binding state operation now profile brokerBinding action expectedHistory observed,
    op = .recordResource binding state operation now profile brokerBinding action expectedHistory observed → raw = expectedHistory

omit [AddressReader] in
theorem prepareRow_eq_ok {raw row : Bytes} {json : Json} {reply : Digest} : prepareRow raw json = .ok (row, reply) ↔
    Valid json ∧ row = canonicalText json ++ [lineFeed] ∧ reply = digestOf json ∧ ∃ t, parseReservations (raw ++ row) = .ok t := by
  simp only [prepareRow, bind_eq_ok, canonicalBytes_eq_ok, pure_eq_ok, Prod.mk.injEq]
  constructor
  · rintro ⟨text, ⟨hvalid, rfl⟩, t, ht, rfl, rfl⟩
    exact ⟨hvalid, rfl, rfl, t, ht⟩
  · rintro ⟨hvalid, rfl, rfl, t, ht⟩
    exact ⟨_, ⟨hvalid, rfl⟩, t, ht, rfl, rfl⟩

theorem prepare_eq_ok {poisoned : Bool} {raw row : Bytes} {op : Op} {reply : Digest} (h : prepare poisoned raw op = .ok (row, reply)) :
    poisoned = false ∧ Appends raw row reply op := by
  cases op with
  | record binding state operation now cleanup =>
    simp only [prepare, prepareRecord, bind_eq_ok, require_eq_ok, exists_const, prepareRow_eq_ok] at h
    obtain ⟨hpoisoned, s, hs, -, hrow, hreply, haccepted⟩ := h
    exact ⟨hpoisoned, ⟨s, hs⟩, ⟨_, hrow, hreply⟩, haccepted, nofun⟩
  | recordResource binding state operation now profile brokerBinding action expectedHistory observed =>
    simp only [prepare, bind_eq_ok, require_eq_ok, exists_const, prepareRow_eq_ok] at h
    obtain ⟨hpoisoned, _, -, rfl, s, hs, -, hrow, hreply, haccepted⟩ := h
    refine ⟨hpoisoned, ⟨s, hs⟩, ⟨_, hrow, hreply⟩, haccepted, ?_⟩
    rintro _ _ _ _ _ _ _ _ _ ⟨⟩
    rfl

/-- The admission ledger with its reader, as an append-only log. -/
def log : AppendLog.Journal Op PyError Digest where
  prepare := prepare
  broken := broken
  Accepts raw := ∃ s, parseReservations raw = .ok s
  poisoned_refuses raw op := by
    refine not_ok_iff_error.mp ?_
    rintro ⟨⟨row, reply⟩, h⟩
    exact absurd (prepare_eq_ok h).1 (by decide)
  ended := by
    rintro raw ⟨s, h⟩
    obtain ⟨rows, hhistory, -⟩ := parseReservations_eq_ok.mp h
    exact hhistory.ended
  accepts h := (prepare_eq_ok h).2.found
  accepts_row h := (prepare_eq_ok h).2.accepted
  row_line h := by
    obtain ⟨json, hrow, -⟩ := (prepare_eq_ok h).2.written
    exact ⟨_, clean_canonicalText json, hrow⟩

end HarnessConformance.Admission
