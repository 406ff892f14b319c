import HarnessConformance.PlainData

/-! # Sessions

A session is a binding with a state and a validity window inside the binding's. `transitionCandidate`
describes one change of state at one instant and performs none. -/

namespace HarnessConformance
open Lib Lib.Outcome Lib.Lines
set_option autoImplicit false

namespace LiveSession

def schema : String := "harness.planeon.ai/live-backend-session/v1alpha1"

def sessionFields : List String :=
  ["schemaVersion"] ++ idFields ++ digestFields ++ ["issuedAt", "expiresAt", "state"]

/-! ## States -/

/-- `STATES` -/
inductive State where
  | unavailable
  | validatedData
  | reserved
  | running
  | completed
  | failed
  | cancelled
  | expired
  deriving DecidableEq

namespace State

def name : State → String
  | unavailable => "UNAVAILABLE"
  | validatedData => "VALIDATED_DATA"
  | reserved => "RESERVED"
  | running => "RUNNING"
  | completed => "COMPLETED"
  | failed => "FAILED"
  | cancelled => "CANCELLED"
  | expired => "EXPIRED"

def all : List State := [unavailable, validatedData, reserved, running, completed, failed, cancelled, expired]

def ofJson? (value : Json) : Option State := all.find? fun s => value = .str s.name

theorem ofJson?_eq_some {value : Json} {s : State} : ofJson? value = some s ↔ value = .str s.name := by
  constructor
  · intro h
    simpa using List.find?_some h
  · rintro rfl
    cases s <;> decide

/-- `TRANSITIONS` -/
def transitions : List (State × State) :=
  [(validatedData, reserved), (reserved, running), (reserved, failed), (reserved, cancelled), (reserved, expired),
    (running, completed), (running, failed), (running, cancelled), (running, expired)]

end State

/-- `type(value) is str and value in STATES` -/
def requireState (value : Json) (code : String) : Py State :=
  match State.ofJson? value with
  | some s => .ok s
  | none => .error (.conformance code "invalid live-backend data; no execution authority")

@[simp] theorem requireState_eq_ok {value : Json} {code : String} {s : State} :
    requireState value code = .ok s ↔ value = .str s.name := by
  rw [requireState, ← State.ofJson?_eq_some]
  cases State.ofJson? value <;> simp

end LiveSession

/-! ## Sessions -/

open LiveSession

/-- A validated session: its binding, its own window and its state. -/
@[ext] structure Session where
  binding : SessionBinding
  issuedAt : TimeText
  expiresAt : TimeText
  state : State
  issued : binding.notBefore.instant ≤ issuedAt.instant
  window : issuedAt.instant < expiresAt.instant
  expires : expiresAt.instant ≤ binding.notAfter.instant

instance : DecidableEq Session := fun _ _ => decidable_of_iff _ Session.ext_iff.symm

namespace SessionBinding

/-- The members that a session repeats: all but the window. -/
def scope (b : SessionBinding) : Json.Members :=
  [("nonce", .str b.nonce.text), ("tenantId", .str b.tenantId.text), ("environmentId", .str b.environmentId.text),
    ("endpointId", .str b.endpointId.text), ("namespace", .str b.nameSpace.text),
    ("packetDigest", .str b.packetDigest.text), ("commandSetDigest", .str b.commandSetDigest.text),
    ("releaseDigest", .str b.releaseDigest.text), ("capacityDigest", .str b.capacityDigest.text)]

end SessionBinding

namespace Session

def toJson (s : Session) : Json :=
  .obj ([("schemaVersion", .str schema)] ++ s.binding.scope ++
    [("issuedAt", .str s.issuedAt.text), ("expiresAt", .str s.expiresAt.text), ("state", .str s.state.name)])

variable [Runtime]

/-- `_session(value, expected_binding)` -/
def read (value expectedBinding : Input) : Py Session := do
  let session ← dataDocument value maxSessionBytes
  closed session sessionFields
  LiveSession.require "SESSION_SCHEMA_INVALID" ((← item session "schemaVersion") = .str schema)
  let state ← requireState (← item session "state") "SESSION_STATE_INVALID"
  let binding ← SessionBinding.validate expectedBinding
  binding.scope.forM fun (name, expected) => do
    LiveSession.require "SESSION_BINDING_MISMATCH" ((← item session name) = expected)
  let issued ← requireTime (← item session "issuedAt") "issuedAt"
  let expires ← requireTime (← item session "expiresAt") "expiresAt"
  if h : binding.notBefore.instant ≤ issued.instant ∧ issued.instant < expires.instant ∧
      expires.instant ≤ binding.notAfter.instant
  then pure ⟨binding, issued, expires, state, h.1, h.2.1, h.2.2⟩
  else .error (.conformance "SESSION_WINDOW_INVALID" "invalid live-backend data; no execution authority")

/-- `validate_session(value, expected_binding, now)` -/
def validate (value expectedBinding : Input) (now : Json) : Py Session := do
  let session ← read value expectedBinding
  let instant ← requireTime now "now"
  LiveSession.require "SESSION_NOT_CURRENT" (session.issuedAt.instant ≤ instant.instant ∧ instant.instant < session.expiresAt.instant)
  LiveSession.require "SESSION_NOT_CURRENT" (session.state ≠ .expired)
  pure session

/-- What `transition_candidate` returns besides its two fixed flags. -/
structure Candidate where
  fromState : State
  toState : State
  sessionDigest : Digest
  nonce : Identifier

/-- `transition_candidate(value, next_state, expected_binding, now)` -/
def transitionCandidate (value : Input) (nextState : Json) (expectedBinding : Input) (now : Json) : Py Candidate := do
  let session ← read value expectedBinding
  let next ← requireState nextState "SESSION_TRANSITION_INVALID"
  LiveSession.require "SESSION_TRANSITION_INVALID" ((session.state, next) ∈ State.transitions)
  let instant ← requireTime now "now"
  LiveSession.require "SESSION_NOT_CURRENT" (session.issuedAt.instant ≤ instant.instant)
  LiveSession.require "SESSION_TRANSITION_TIME_INVALID"
    (next = .expired ↔ session.expiresAt.instant ≤ instant.instant)
  let digest ← canonicalDigest session.toJson none
  pure ⟨session.state, next, digest, session.binding.nonce⟩

/-! ## Sessions as documents -/

omit [Runtime] in
theorem wf_toJson (s : Session) : s.toJson.Wf := by
  refine Json.wf_obj.mpr ⟨(by decide : sessionFields.Nodup), ?_⟩
  simp [SessionBinding.scope, Json.Wf]

omit [Runtime] in
theorem slim_state (s : State) : Slim 130 0 ("state", .str s.name) := by
  cases s <;> exact .text (Json.shortKey rfl) (by decide) (by decide)

omit [Runtime] in
theorem slim_members (s : Session) : ∃ members, s.toJson = .obj members ∧ members.length = 13 ∧
    Json.keys members = sessionFields ∧ (∀ m ∈ members, m.2.Wf) ∧ ∀ m ∈ members, Slim 130 0 m := by
  refine ⟨_, rfl, rfl, rfl, by simp [SessionBinding.scope, Json.Wf], ?_⟩
  simp only [SessionBinding.scope, List.cons_append, List.nil_append, List.forall_mem_cons]
  exact ⟨.literal (Json.shortKey rfl) rfl (by decide), slim_id (Json.shortKey rfl) _, slim_id (Json.shortKey rfl) _, slim_id (Json.shortKey rfl) _,
    slim_id (Json.shortKey rfl) _, slim_id (Json.shortKey rfl) _, slim_digest (Json.shortKey rfl) _ (by decide), slim_digest (Json.shortKey rfl) _ (by decide),
    slim_digest (Json.shortKey rfl) _ (by decide), slim_digest (Json.shortKey rfl) _ (by decide), slim_time (Json.shortKey rfl) _, slim_time (Json.shortKey rfl) _,
    slim_state _, nofun⟩

theorem dataDocument_toJson (s : Session) : dataDocument (.data s.toJson) maxSessionBytes = .ok s.toJson.canon := by
  obtain ⟨members, hjson, hlength, hkeys, hwf, hslim⟩ := s.slim_members
  rw [hjson]
  refine dataDocument_slim (.inl rfl) (hkeys ▸ by decide) hwf hslim (by decide) ?_
  rw [hlength]
  decide

/-- A session reads back from its own dictionary. -/
theorem read_toJson (s : Session) {expected : Input} (h : SessionBinding.validate expected = .ok s.binding) :
    read (.data s.toJson) expected = .ok s := by
  have field {k t : String} (hk : s.toJson.get? k = some (.str t)) : item s.toJson.canon k = .ok (.str t) :=
    item_canon s.wf_toJson hk
  simp only [read, bind_eq_ok, require_eq_ok, requireState_eq_ok, requireTime_eq_ok, exists_const]
  refine ⟨_, s.dataDocument_toJson, (), closed_canon_obj rfl, _, field rfl, rfl, _, field rfl, s.state, rfl, _, h, (), ?_, ?_⟩
  · rw [forM_eq_ok]
    simp only [SessionBinding.scope, List.forall_mem_cons, bind_eq_ok, require_eq_ok]
    exact ⟨⟨_, field rfl, rfl⟩, ⟨_, field rfl, rfl⟩, ⟨_, field rfl, rfl⟩, ⟨_, field rfl, rfl⟩, ⟨_, field rfl, rfl⟩,
      ⟨_, field rfl, rfl⟩, ⟨_, field rfl, rfl⟩, ⟨_, field rfl, rfl⟩, ⟨_, field rfl, rfl⟩, List.forall_mem_nil _⟩
  · refine ⟨_, field rfl, s.issuedAt, rfl, _, field rfl, s.expiresAt, rfl, ?_⟩
    rw [dif_pos ⟨s.issued, s.window, s.expires⟩]
    rfl

theorem read_eq_ok {value expected : Input} {s : Session} (h : read value expected = .ok s) :
    dataDocument value maxSessionBytes = .ok s.toJson.canon ∧ SessionBinding.validate expected = .ok s.binding := by
  simp only [read, bind_eq_ok, item_eq_ok, require_eq_ok, requireState_eq_ok, requireTime_eq_ok] at h
  obtain ⟨v, hv, u, hclosed, h⟩ := h
  obtain ⟨_, hschema, -, rfl, _, hstate, state, rfl, binding, hbinding, u', hscope, h⟩ := h
  obtain ⟨_, hissued, issued, rfl, _, hexpires, expires, rfl, h⟩ := h
  split at h
  · obtain rfl := pure_eq_ok.mp h
    rw [forM_eq_ok] at hscope
    simp only [SessionBinding.scope, List.forall_mem_cons, bind_eq_ok, item_eq_ok, require_eq_ok] at hscope
    obtain ⟨⟨_, hnonce, rfl⟩, ⟨_, htenant, rfl⟩, ⟨_, henvironment, rfl⟩, ⟨_, hendpoint, rfl⟩, hscope⟩ := hscope
    obtain ⟨⟨_, hnamespace, rfl⟩, ⟨_, hpacket, rfl⟩, ⟨_, hcommand, rfl⟩, ⟨_, hrelease, rfl⟩, ⟨_, hcapacity, rfl⟩, -⟩ := hscope
    have hcanonical := dataDocument_canonical hv
    refine ⟨?_, hbinding⟩
    rw [hv]
    refine congrArg Except.ok (eq_canon_of_closed hcanonical.wf hcanonical.canon hclosed (by decide) rfl ?_)
    simp only [SessionBinding.scope, List.cons_append, List.nil_append, List.forall_mem_cons, hschema, hnonce, htenant,
      henvironment, hendpoint, hnamespace, hpacket, hcommand, hrelease, hcapacity, hissued, hexpires, hstate, true_and]
    exact List.forall_mem_nil _
  · cases h

omit [Runtime] in
theorem requireTime_text (t : TimeText) (name : String) : requireTime (.str t.text) name = .ok t :=
  requireTime_eq_ok.mpr rfl

/-- What `validate_session` accepts. -/
theorem validate_eq_ok {value expected : Input} {now : Json} {s : Session} : validate value expected now = .ok s ↔
    read value expected = .ok s ∧ s.state ≠ .expired ∧ ∃ t : TimeText, now = .str t.text ∧
      s.issuedAt.instant ≤ t.instant ∧ t.instant < s.expiresAt.instant := by
  simp only [validate, bind_eq_ok, requireTime_eq_ok, require_eq_ok, pure_eq_ok, exists_const]
  constructor
  · rintro ⟨s', hread, t, hnow, ⟨hissued, hexpires⟩, hstate, rfl⟩
    exact ⟨hread, hstate, t, hnow, hissued, hexpires⟩
  · rintro ⟨hread, hstate, t, hnow, hissued, hexpires⟩
    exact ⟨s, hread, t, hnow, ⟨hissued, hexpires⟩, hstate, rfl⟩

end Session
end HarnessConformance
