import HarnessConformance.Lib.Json
import Mathlib

/-! # The coordination board

`Board` of `tests/mas/_sim.py`: one record per item, claims with leases, the answers given so far and
the rows of the log that the board writes. A control that is bypassed is a member of `bypass`. -/

namespace HarnessConformance.Coordination
open Lib
set_option autoImplicit false

/-! ## Operations -/

/-- `sim.bypass`, as far as the board looks at it. -/
inductive Bypass where
  | expiry
  | dedupe
  | retry
  | version
  | held
  | concurrency
  | holder
  | singleMerge
  | workVerdict
  | supersession
  | evidenceKind
  | mergeVerdict
  | selfVerification
  | messageShape
  | edge
  deriving DecidableEq

inductive Mode where
  | central
  | decentralized
  deriving DecidableEq

structure Verdict where
  verdictId : String
  workDigest : String
  status : String
  claimOpId : String
  verifier : String
  holder : String
  supersedes : Option String
  evidence : ℤ
  checks : Option (List String)
  deriving DecidableEq

/-- `op["op"]`, with what only operations of that kind carry. -/
inductive Kind where
  | message (body : Json.Members)
  | acquire
  | assign
  | renew
  | release
  | merge
  | verify (verdict : Verdict)
  | other (name : String)
  deriving DecidableEq

/-- `body_of(op)` -/
structure Body where
  agent : String
  kind : Kind
  item : Option ℤ
  toAgent : Option String
  expectedVersion : Option ℤ
  workDigest : Option String
  deriving DecidableEq

structure Op where
  opId : String
  retryOf : Option String
  body : Body
  deriving DecidableEq

inductive Answer where
  | accepted
  | deadline
  | duplicateId
  | retryMismatch
  | notPermitted
  | merged
  | held
  | staleVersion
  | concurrencyLimit
  | notHolder
  | noVerdict
  | workMismatch
  | verdictNotPass
  | consistencyOnly
  | notHeld
  | selfVerification
  | ledgerMismatch
  | verdictHistory
  | shape
  | offEdge
  deriving DecidableEq

/-! ## Configuration -/

/-- `cfg["evidenceRule"]` -/
structure EvidenceRule where
  deterministicChecks : List String
  consistencyOnly : List String

structure Config where
  mode : Mode
  workers : List String
  coordinator : Option String
  edges : List (String × Json)
  deadline : ℤ
  leaseTicks : ℤ
  concurrency : ℕ
  evidenceRule : Option EvidenceRule
  bypass : List Bypass

/-! ## State -/

inductive State where
  | opened
  | held
  | merged
  deriving DecidableEq

structure Claim where
  holder : String
  claimOpId : String
  leaseUntil : ℤ
  verdicts : List Verdict
  deriving DecidableEq

structure Record where
  state : State
  version : ℕ
  claims : List Claim
  mergedClaim : Option Claim
  deriving DecidableEq

/-- What an operation is told, and whether it changed a record. -/
structure Reply where
  answer : Answer
  version : Option ℕ
  claimOpId : Option String
  leaseUntil : Option ℤ
  changed : Bool
  deriving DecidableEq

/-- An entry of `answered`. -/
structure Entry where
  result : Reply
  body : Body

/-- The rows of the log that the board writes. -/
inductive Row (n : ℕ) where
  | expiry (t : ℤ) (item : Fin n) (claim : Claim)
  | answer (t : ℤ) (op : Op) (reply : Reply)
  deriving DecidableEq

structure Board (n : ℕ) where
  records : Fin n → Record
  answered : List (String × Entry)
  log : List (Row n)

variable {n : ℕ}

def Board.start : Board n := ⟨fun _ => ⟨.opened, 0, [], none⟩, [], []⟩

/-- `self.records.get(op["item"])`: the items are numbered from 1. -/
def slotOf (n : ℕ) (item : Option ℤ) : Option (Fin n) :=
  item.bind fun k => if h : 1 ≤ k ∧ k ≤ n then some ⟨(k - 1).toNat, by omega⟩ else none

def Board.setRecord (b : Board n) (i : Fin n) (record : Record) : Board n := { b with records := Function.update b.records i record }

/-! ## Expiry -/

/-- The lease has ended at `t`, and leases expire. -/
def lapsed (cfg : Config) (t : ℤ) (claim : Claim) : Bool := claim.leaseUntil ≤ t ∧ .expiry ∉ cfg.bypass

def expiredOf (cfg : Config) (t : ℤ) (record : Record) : List Claim :=
  if record.state = .held then record.claims.filter (lapsed cfg t) else []

/-- The loop body of `expire`. -/
def expireRecord (cfg : Config) (t : ℤ) (record : Record) : Record :=
  if record.state = .held then
    let live := record.claims.filter fun c => !lapsed cfg t c
    { record with
      version := record.version + (expiredOf cfg t record).length
      claims := live
      state := if live = [] then .opened else .held }
  else record

/-- `expire(t)` -/
def expire (cfg : Config) (t : ℤ) (b : Board n) : Board n :=
  { b with
    records := fun i => expireRecord cfg t (b.records i)
    log := b.log ++ (List.finRange n).flatMap fun i => (expiredOf cfg t (b.records i)).map fun c => .expiry t i c }

/-- `held_count()` -/
def heldCount (b : Board n) : ℕ := ∑ i, (b.records i).claims.length

/-- `own_claim(rec, agent)` -/
def ownClaim (record : Record) (agent : String) : Option Claim := record.claims.find? fun c => c.holder = agent

/-! ## Answers -/

/-- `info`, as far as the answer repeats it. -/
structure Info where
  claimOpId : Option String := none
  leaseUntil : Option ℤ := none
  changed : Bool := false

/-- `finish(answer)`: the answer is logged, and recorded for its identifier if that is a new one. -/
def finish (b : Board n) (t : ℤ) (op : Op) (info : Info) (answer : Answer) : Board n × Reply :=
  let version := (slotOf n op.body.item).map fun i => (b.records i).version
  let reply : Reply := ⟨answer, version, info.claimOpId, info.leaseUntil, info.changed⟩
  ({ b with
      log := b.log ++ [.answer t op reply]
      answered := if (b.answered.lookup op.opId).isSome then b.answered else b.answered ++ [(op.opId, ⟨reply, op.body⟩)] }, reply)

/-- `_version_ok(rec, op, bypassed)` -/
def versionOk (cfg : Config) (record : Record) (op : Op) : Bool :=
  op.body.expectedVersion = some (record.version : ℤ) ∨ .version ∈ cfg.bypass

/-- `_claim`, after the holder was found: ACQUIRE by a worker, ASSIGN to one by the coordinator. -/
def claimantOf (cfg : Config) (op : Op) : Option String :=
  match op.body.kind with
  | .acquire => if cfg.mode = .decentralized ∧ op.body.agent ∈ cfg.workers then some op.body.agent else none
  | _ => if cfg.mode = .central ∧ some op.body.agent = cfg.coordinator then op.body.toAgent.filter (· ∈ cfg.workers) else none

/-- `_claim(t, op, rec, …)` -/
def claim (cfg : Config) (b : Board n) (t : ℤ) (op : Op) : Board n × Reply :=
  match claimantOf cfg op, slotOf n op.body.item with
  | some holder, some i =>
    let record := b.records i
    if record.state = .merged then finish b t op {} .merged
    else if record.state = .held ∧ .held ∉ cfg.bypass then finish b t op {} .held
    else if !versionOk cfg record op then finish b t op {} .staleVersion
    else if cfg.concurrency ≤ heldCount b ∧ .concurrency ∉ cfg.bypass then finish b t op {} .concurrencyLimit
    else
      let lease := t + cfg.leaseTicks
      let record := { record with
        claims := record.claims ++ [⟨holder, op.opId, lease, []⟩]
        state := .held
        version := record.version + 1 }
      finish (b.setRecord i record) t op { claimOpId := some op.opId, leaseUntil := some lease, changed := true } .accepted
  | _, _ => finish b t op {} .notPermitted

/-! ## Verdicts -/

/-- `check.partition("/")` -/
def partitionCheck (check : String) : String × String :=
  let (kind, rest) := check.toList.span (· ≠ '/')
  (String.ofList kind, String.ofList rest.tail)

/-- `deterministic_support(checks, rule)`, in the order of the checks. -/
def deterministicSupport (checks : Option (List String)) (rule : EvidenceRule) : List String :=
  (((checks.getD []).map partitionCheck).filter fun p => p.1 ∈ rule.deterministicChecks).map Prod.snd

/-- `consistency_only(checks, rule)` -/
def consistencyOnly (checks : Option (List String)) (rule : EvidenceRule) : Bool :=
  (deterministicSupport checks rule).all (· ∈ rule.consistencyOnly)

def onWork (verdicts : List Verdict) (work : Option String) : List Verdict :=
  verdicts.filter fun v => some v.workDigest = work

/-- `verdict_refusal(verdicts, on_work, first)` -/
def verdictRefusal (verdicts onWork : List Verdict) (first : Bool) : Option Answer :=
  if verdicts = [] then some .noVerdict
  else
    match if first then onWork.head? else onWork.getLast? with
    | none => some .workMismatch
    | some v => if v.status = "PASS" then none else some .verdictNotPass

/-- The part of `_holder_op` that reads the verdicts: the refusal of a MERGE, if it is refused. -/
def mergeRefusal (cfg : Config) (verdicts : List Verdict) (work : Option String) : Option Answer :=
  let found := onWork verdicts work
  let latest := (verdictRefusal verdicts found false, found.getLast?)
  let anyWork :=
    if latest.1 ≠ none ∧ .workVerdict ∈ cfg.bypass ∧ verdictRefusal verdicts verdicts false = none then
      (none, verdicts.getLast?)
    else latest
  let superseded :=
    if anyWork.1 ≠ none ∧ .supersession ∈ cfg.bypass ∧ verdictRefusal verdicts found true = none then (none, found.head?)
    else anyWork
  let refusal :=
    match superseded, cfg.evidenceRule with
    | (none, some resting), some rule =>
      if consistencyOnly resting.checks rule ∧ .evidenceKind ∉ cfg.bypass then some .consistencyOnly else none
    | (refusal, _), _ => refusal
  if .mergeVerdict ∈ cfg.bypass then none else refusal

/-! ## RENEW, RELEASE and MERGE -/

/-- The claim that the operation acts on. -/
def actsOn (cfg : Config) (record : Record) (op : Op) : Option Claim :=
  match ownClaim record op.body.agent, op.body.kind with
  | some c, _ => some c
  | none, .release => if cfg.mode = .central ∧ some op.body.agent = cfg.coordinator then record.claims.head? else none
  | none, .merge =>
    if record.state = .held ∧ .holder ∈ cfg.bypass then record.claims.head?
    else if record.state = .merged ∧ .singleMerge ∈ cfg.bypass then record.mergedClaim.filter fun c => c.holder = op.body.agent
    else none
  | none, _ => none

/-- `_holder_op(t, op, rec, …)` -/
def holderOp (cfg : Config) (b : Board n) (t : ℤ) (op : Op) : Board n × Reply :=
  match slotOf n op.body.item with
  | none => finish b t op {} .notPermitted
  | some i =>
    let record := b.records i
    match actsOn cfg record op with
    | none => finish b t op {} .notHolder
    | some c =>
      let info : Info := { claimOpId := some c.claimOpId }
      if !versionOk cfg record op then finish b t op info .staleVersion
      else
        match op.body.kind with
        | .renew =>
          let lease := t + cfg.leaseTicks
          let record := { record with claims := record.claims.replace c { c with leaseUntil := lease }, version := record.version + 1 }
          finish (b.setRecord i record) t op { info with leaseUntil := some lease, changed := true } .accepted
        | .release =>
          let claims := record.claims.erase c
          let record := { record with claims := claims, state := if claims = [] then .opened else record.state, version := record.version + 1 }
          finish (b.setRecord i record) t op { info with changed := true } .accepted
        | _ =>
          match mergeRefusal cfg c.verdicts op.body.workDigest with
          | some refusal => finish b t op info refusal
          | none =>
            let record := { record with state := .merged, claims := [], mergedClaim := some c, version := record.version + 1 }
            finish (b.setRecord i record) t op { info with changed := true } .accepted

/-! ## VERIFY -/

/-- The verdict fits the history of its claim. -/
def historyOk (verdicts : List Verdict) (verdict : Verdict) : Bool :=
  let latest := (onWork verdicts (some verdict.workDigest)).getLast?
  verdicts.all (fun v => v.verdictId ≠ verdict.verdictId) ∧ verdict.supersedes = latest.map (·.verdictId) ∧
    ∀ v ∈ latest, v.status = "FAIL" → verdict.status = "PASS" → v.evidence < verdict.evidence

/-- `_verify(t, op, rec, …)` -/
def verify (cfg : Config) (b : Board n) (t : ℤ) (op : Op) (verdict : Verdict) : Board n × Reply :=
  match slotOf n op.body.item with
  | none => finish b t op {} .notHeld
  | some i =>
    let record := b.records i
    if record.state ≠ .held then finish b t op {} .notHeld
    else if op.body.agent ∈ record.claims.map (·.holder) ∧ .selfVerification ∉ cfg.bypass then finish b t op {} .selfVerification
    else
      match record.claims.find? fun c => c.claimOpId = verdict.claimOpId with
      | none => finish b t op {} .ledgerMismatch
      | some c =>
        if verdict.verifier ≠ op.body.agent ∨ c.holder ≠ verdict.holder then finish b t op {} .ledgerMismatch
        else
          let info : Info := { claimOpId := some c.claimOpId }
          if !historyOk c.verdicts verdict then finish b t op info .verdictHistory
          else
            let record := { record with claims := record.claims.replace c { c with verdicts := c.verdicts ++ [verdict] } }
            finish (b.setRecord i record) t op { info with changed := true } .accepted

/-! ## MESSAGE -/

def bodyKeys : List String := ["to", "messageType", "requiredAction", "ref"]

/-- `REF_TYPES` -/
def refTypeOk (key : String) (value : Json) : Bool :=
  match key, value with
  | "item", .int _ => true
  | "claimOpId", .str _ | "workDigest", .str _ | "verdictId", .str _ | "status", .str _ | "relayTo", .str _ => true
  | _, _ => false

/-- `shape_ok(op)` -/
def shapeOk (item : Option ℤ) (body : Json.Members) : Bool :=
  decide (item = none ∧ Json.keys body ⊆ bodyKeys ∧ ["to", "messageType", "requiredAction"] ⊆ Json.keys body) &&
    match body.lookup "ref" with
    | none => true
    | some (.obj ref) => ref.all fun m => refTypeOk m.1 m.2
    | some _ => false

/-- `_message(t, op, …)`, without the delivery. -/
def message (cfg : Config) (b : Board n) (t : ℤ) (op : Op) (body : Json.Members) : Board n × Reply :=
  if !shapeOk op.body.item body ∧ .messageShape ∉ cfg.bypass then finish b t op {} .shape
  else if (op.body.agent, (body.lookup "to").getD .null) ∉ cfg.edges ∧ .edge ∉ cfg.bypass then finish b t op {} .offEdge
  else finish b t op {} .accepted

/-! ## All operations -/

/-- The operation itself, after the checks on its arrival and its identifier. -/
def operate (cfg : Config) (b : Board n) (t : ℤ) (op : Op) : Board n × Reply :=
  match op.body.kind with
  | .message body => message cfg b t op body
  | .acquire | .assign => claim cfg b t op
  | .renew | .release | .merge => holderOp cfg b t op
  | .verify verdict => verify cfg b t op verdict
  | .other _ => finish b t op {} .notPermitted

/-- The answer to a retry: the recorded one, for the same body. -/
def retry (b : Board n) (t : ℤ) (op : Op) (original : String) : Board n × Reply :=
  match b.answered.lookup original with
  | none => finish b t op {} .retryMismatch
  | some entry =>
    if entry.body ≠ op.body then finish b t op {} .retryMismatch
    else finish b t op { claimOpId := entry.result.claimOpId, leaseUntil := entry.result.leaseUntil } entry.result.answer

/-- `apply(t, op)` -/
def apply (cfg : Config) (b : Board n) (t : ℤ) (op : Op) : Board n × Reply :=
  let b := expire cfg t b
  if cfg.deadline < t ∧ op.retryOf = none then finish b t op {} .deadline
  else if (b.answered.lookup op.opId).isSome ∧ .dedupe ∉ cfg.bypass then finish b t op {} .duplicateId
  else
    match op.retryOf with
    | some original => if .retry ∈ cfg.bypass then operate cfg b t op else retry b t op original
    | none => operate cfg b t op

/-- The board after a sequence of operations, each at its tick. -/
def run (cfg : Config) (b : Board n) (ops : List (ℤ × Op)) : Board n := ops.foldl (fun b p => (apply cfg b p.1 p.2).1) b

end HarnessConformance.Coordination
