import HarnessConformance.Lib.Script
import HarnessConformance.LiveSession.Completion
import Mathlib

/-! # The supervisor's lifecycle

`_Lifecycle` of `live_supervisor.py`, without the native branches: one run reserves its nonce, lets
the boundary establish and execute the fixed cases, and ends in one terminal record. The clock, the
monotonic source, the journal and the boundary are calls; whatever they answer or raise, the
operations go on from there. -/

namespace HarnessConformance.Supervisor
open Lib Lib.Outcome Lib.Lines
open LiveSession (State expectedRegressions validateReceipt)
set_option autoImplicit false

def require (reason : String) (condition : Prop) [Decidable condition] : Py Unit :=
  conform reason "protected Linux boundary refused" condition

@[simp] theorem require_eq_ok {reason : String} {p : Prop} [Decidable p] {u : Unit} : require reason p = .ok u ↔ p :=
  conform_eq_ok

/-! ## Monotonic readings -/

/-- What `monotonic()` returns: an `int`, a finite `float`, or neither. -/
inductive Number where
  | int (n : ℤ)
  | float (q : ℚ)
  | other

/-- The nearest integer, ties to even. -/
def roundEven (q : ℚ) : ℤ :=
  if q - ⌊q⌋ < 1 / 2 ∨ (q - ⌊q⌋ = 1 / 2 ∧ ⌊q⌋ % 2 = 0) then ⌊q⌋ else ⌊q⌋ + 1

/-- The nearest double, `⊤` past the largest. -/
def double (q : ℚ) : WithTop ℚ :=
  if q = 0 then 0
  else
    let unit : ℚ := 2 ^ max (Int.log 2 |q| - 52) (-1074)
    let nearest := roundEven (q / unit) * unit
    if 2 ^ 1024 ≤ nearest then ⊤ else nearest

example : double (1 / 10) = (3602879701896397 / 36028797018963968 : ℚ) := by decide +kernel

/-- `type(value) in (int, float) and math.isfinite(value)`, and `value >= floor` where there is one. -/
def requireMonotonic (reason : String) (floor : Option ℚ) : Number → Py ℚ
  | .int n =>
    if double |(n : ℚ)| = ⊤ then .error .overflowError
    else do
      require reason (∀ q ∈ floor, q ≤ n)
      pure n
  | .float q => do
    require reason (∀ r ∈ floor, r ≤ q)
    pure q
  | .other => .error (.conformance reason "protected Linux boundary refused")

/-- `monotonic + min(duration, 900)`, the duration in microseconds. -/
def deadlineAfter (reading : Number) (duration : Instant) : WithTop ℚ :=
  match double (duration / 1000000), reading with
  | (d : ℚ), .int n => if 900 < d then ((n + 900 : ℤ) : ℚ) else (double n).bind fun q => double (q + d)
  | (d : ℚ), .float q => double (q + min d 900)
  | _, _ => ⊤

/-! ## Calls -/

/-- The states a run can end in. -/
inductive Ending where
  | completed
  | failed
  | cancelled
  | expired
  deriving DecidableEq

def Ending.name : Ending → String
  | completed => "COMPLETED"
  | failed => "FAILED"
  | cancelled => "CANCELLED"
  | expired => "EXPIRED"

inductive Call where
  | clock
  | monotonic
  | reserveNonce (binding : SessionBinding) (now : TimeText)
  | running (binding : SessionBinding) (now : TimeText)
  | terminal (binding : SessionBinding) (ending : Ending) (now : TimeText) (receiptDigest : Digest)
  | establish (binding : SessionBinding) (plan : Json) (deadline : WithTop ℚ)
  | checkPeer
  | request (c : Case)
  | execute (request : Input) (deadline : WithTop ℚ)
  | interrupt
  | cleanup

/-- What a call returns, as far as the lifecycle looks at it. -/
abbrev Value : Call → Type
  | .clock => Json
  | .monotonic => Number
  | .request _ => Input
  | .execute _ _ => Input
  | _ => Unit

/-! ## State -/

/-- The record of the run in progress. -/
structure Active where
  binding : SessionBinding
  state : State
  plan : Json
  done : List (Case × Digest)
  handle : Option ℕ
  deadline : WithTop ℚ
  lastWall : Instant
  lastMonotonic : ℚ

/-- The session of a binding over its whole window. -/
def sessionOf (b : SessionBinding) (state : State) : Session :=
  ⟨b, b.notBefore, b.notAfter, state, le_rfl, b.window, le_rfl⟩

structure Lifecycle where
  active : Option Active
  serial : ℕ
  opened : Bool

def Lifecycle.start : Lifecycle := ⟨none, 0, false⟩

abbrev Life := Action (fun c => Py (Value c)) Lifecycle PyError

def call (c : Call) : Life (Value c) := Action.call c

/-- A change of the record in progress, seen through every reference to it. -/
def update (f : Active → Active) : Life Unit := Action.modify fun s => { s with active := s.active.map f }

/-- The record in progress; its callers hold one. -/
def current : Life Active := do
  match (← Action.get).active with
  | some active => pure active
  | none => Action.raise .attributeError

/-! ## Time -/

/-- `_now(active)` -/
def now : Life TimeText := do
  let active ← current
  let value ← call .clock
  let now ← Action.lift (requireTime value "now")
  let reading ← call .monotonic
  let monotonic ← Action.lift (requireMonotonic "SUPERVISOR_MONOTONIC_ROLLBACK" (some active.lastMonotonic) reading)
  Action.lift (require "SUPERVISOR_CLOCK_ROLLBACK" (active.lastWall ≤ now.instant))
  -- The readings stay recorded when the window turns out to be over.
  update fun a => { a with lastWall := now.instant, lastMonotonic := monotonic }
  Action.lift (require "SUPERVISOR_EXPIRED" (now.instant < active.binding.notAfter.instant ∧ monotonic < active.deadline))
  pure now

/-- The readings a run ends at, and the state they leave it in. -/
def finalReading (active : Active) (ending : Ending) : Life (TimeText × Ending) := do
  let value ← call .clock
  let now ← Action.lift (requireTime value "now")
  let reading ← call .monotonic
  Action.lift (require "SUPERVISOR_CLOCK_ROLLBACK" (active.lastWall ≤ now.instant))
  let monotonic ← Action.lift (requireMonotonic "SUPERVISOR_MONOTONIC_ROLLBACK" (some active.lastMonotonic) reading)
  pure (now, if active.binding.notAfter.instant ≤ now.instant then .expired
    else if active.deadline ≤ monotonic then .failed else ending)

variable [Runtime]

/-! ## Termination -/

/-- What the terminal record's receipt digest is taken of. -/
def outcomeJson (ending : Ending) (done : List (Case × Digest)) : Json :=
  .obj [("state", .str ending.name), ("receipts", .obj (done.map fun (c, digest) => (c.name, .str digest.text))),
    ("nativeAcceptance", .bool false)]

/-- `_terminate(state)`, called while `original` was being handled. -/
def terminate (ending : Ending) (original : Option PyError) : Life Unit := do
  match (← Action.get).active with
  | none => pure ()
  | some active =>
    Action.modify fun s => { s with active := none }
    let reading ← Action.outcome (finalReading active ending)
    let cleaned ← Action.outcome (call .cleanup)
    -- Without both there is no terminal claim; the nonce stays consumed.
    match reading, cleaned with
    | .ok (now, ending), .ok _ =>
      let digest ← Action.lift (canonicalDigest (outcomeJson ending active.done) none)
      call (.terminal active.binding ending now digest)
    | .error failure, _ => Action.raise (original.getD failure)
    | .ok _, .error failure => Action.raise (original.getD failure)

/-- The exception goes on after the run it left in progress was ended. -/
def failing {α : Type} (body : Life α) : Life α := Action.attempt body fun e => do
  if (← Action.get).active.isSome then terminate .failed (some e)
  Action.raise e

/-! ## Operations -/

/-- The body of `_open` from the reservation on. -/
def startSession (active : Active) (at_ : TimeText) : Life ℕ := do
  call (.reserveNonce active.binding at_)
  Action.modify fun s => { s with active := some active }
  let _ ← now
  call (.establish active.binding active.plan active.deadline)
  call .checkPeer
  let started ← now
  call (.running active.binding started)
  Action.modify fun s => { s with serial := s.serial + 1 }
  let s ← Action.get
  update fun a => { a with state := .running, handle := some s.serial }
  pure s.serial

/-- `_open(binding, plan)`, as the serial of the handle it returns. -/
def openSession (binding : Input) (plan : Json) : Life ℕ := do
  let binding ← Action.lift (SessionBinding.validate binding)
  let s ← Action.get
  Action.lift (require "SUPERVISOR_BUSY" (s.active.isNone ∧ s.opened = false))
  let value ← call .clock
  let _ ← Action.lift (Session.validate (.data (sessionOf binding .reserved).toJson) (.data binding.toJson) value)
  let architecture ← Action.lift (do item (← item plan "target") "architecture")
  Action.lift (require "SUPERVISOR_ARCHITECTURE_INVALID" (isOneOf architecture LinuxReadiness.architectures))
  let at_ ← Action.lift (requireTime value "now")
  let reading ← call .monotonic
  let monotonic ← Action.lift (requireMonotonic "SUPERVISOR_MONOTONIC_INVALID" none reading)
  -- Even an ambiguous reservation makes the instance one-shot.
  Action.modify fun s => { s with opened := true }
  failing (startSession ⟨binding, .reserved, plan, [], none,
    deadlineAfter reading (binding.notAfter.instant - at_.instant), at_.instant, monotonic⟩ at_)

/-- A handle as a caller can present it: one an instance made, by its serial, or any other value. -/
inductive Handle where
  | issued (serial : ℕ)
  | foreign
  deriving DecidableEq

/-- `_get(handle)` -/
def held (handle : Handle) : Life Unit := do
  let s ← Action.get
  Action.lift (require "SUPERVISOR_HANDLE_INVALID" (∃ active ∈ s.active, ∃ n ∈ active.handle, handle = .issued n))

/-- `type(case_id) is str and case_id in CASES and case_id not in active["done"]`, as the case named. -/
def requireOperation (done : List (Case × Digest)) (caseId : Json) : Py Case :=
  match Case.ofJson? caseId with
  | some c => do
    require "SUPERVISOR_OPERATION_INVALID" (c ∉ done.map Prod.fst)
    pure c
  | none => .error (.conformance "SUPERVISOR_OPERATION_INVALID" "protected Linux boundary refused")

/-- The body of `execute_fixed` for the record its handle names. -/
def executeCase (active : Active) (caseId architecture : Json) : Life Json := do
  let c ← Action.lift (requireOperation active.done caseId)
  let target ← Action.lift (do item (← item active.plan "target") "architecture")
  Action.lift (require "SUPERVISOR_ARCHITECTURE_MISMATCH" (pyEq architecture target))
  let _ ← now
  call .checkPeer
  let request ← call (.request c)
  let raw ← call (.execute request active.deadline)
  -- Expiry and peer are checked again after every blocking operation.
  let at_ ← now
  call .checkPeer
  let expected ← Action.lift (expectedRegressions active.plan c)
  let receipt ← Action.lift (validateReceipt raw (.data (sessionOf active.binding active.state).toJson)
    (.data active.binding.toJson) request (.data expected) (.str at_.text))
  let digest ← Action.lift (canonicalDigest receipt none)
  update fun a => { a with done := a.done ++ [(c, digest)] }
  let status ← Action.lift (item receipt "status")
  if status ≠ .str "PASS" then terminate .failed none
  else if (active.done ++ [(c, digest)]).length = Case.all.length then terminate .completed none
  pure (.obj [("receipt", receipt), ("evidenceClass", .str "UNIT_VERIFICATION_ONLY"), ("nativeAcceptance", .bool false)])

/-- `execute_fixed(handle, case_id, architecture)` -/
def executeFixed (handle : Handle) (caseId architecture : Json) : Life Json := do
  held handle
  failing do executeCase (← current) caseId architecture

/-- `cancel(handle)` -/
def cancel (handle : Handle) : Life Unit := do
  held handle
  call .interrupt
  terminate .cancelled none

/-- `close()` -/
def close : Life Unit := terminate .failed none

/-! ## Runs -/

inductive Op where
  | openSession (binding : Input) (plan : Json)
  | executeFixed (handle : Handle) (caseId architecture : Json)
  | cancel (handle : Handle)
  | close

inductive Reply where
  | handle (serial : ℕ)
  | result (value : Json)
  | none

def perform : Op → Life Reply
  | .openSession binding plan => do pure (.handle (← openSession binding plan))
  | .executeFixed handle caseId architecture => do pure (.result (← executeFixed handle caseId architecture))
  | .cancel handle => do cancel handle; pure .none
  | .close => do close; pure .none

/-- One operation, what it called and how it ended. -/
structure Step where
  op : Op
  events : History fun c => Py (Value c)
  outcome : Py Reply

/-- The operations of one instance, one after another, under any answers. -/
inductive Run : List Step → Lifecycle → Prop where
  | start : Run [] .start
  | step {steps : List Step} {s s' : Lifecycle} {op : Op} {events : History fun c => Py (Value c)} {outcome : Py Reply} :
      Run steps s → (perform op s).Runs events (outcome, s') → Run (steps ++ [⟨op, events, outcome⟩]) s'

def history (steps : List Step) : History fun c => Py (Value c) := steps.flatMap Step.events

end HarnessConformance.Supervisor
