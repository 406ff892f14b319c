import HarnessConformance.Lib.AppendLog
import HarnessConformance.LiveSession

/-! # The replay journal

The reader `parse_journal` and the writer `_Journal._record` of `live_replay_store.py`. The reader
folds one line after another into a table of the latest row of each key, the digest the next row
has to name, and the number of rows. -/

namespace HarnessConformance.ReplayStore
open Lib Lib.Outcome Lib.Lines
set_option autoImplicit false

def maxJournal : ℕ := 4194304
def maxRecord : ℕ := 2048
def maxRecords : ℕ := 4096

def fields : List String :=
  ["sequence", "previousDigest", "replayKey", "bindingDigest", "state", "observedAt", "receiptDigest"]

def require (reason : String) (condition : Prop) [Decidable condition] : Py Unit :=
  conform reason "protected replay operation refused" condition

@[simp] theorem require_eq_ok {reason : String} {p : Prop} [Decidable p] {u : Unit} : require reason p = .ok u ↔ p :=
  conform_eq_ok

/-! ## States -/

inductive State where
  | reserved
  | running
  | completed
  | failed
  | cancelled
  | expired
  deriving DecidableEq

namespace State

def name : State → String
  | reserved => "RESERVED"
  | running => "RUNNING"
  | completed => "COMPLETED"
  | failed => "FAILED"
  | cancelled => "CANCELLED"
  | expired => "EXPIRED"

def all : List State := [reserved, running, completed, failed, cancelled, expired]

/-- `TERMINAL` -/
def terminals : List State := [completed, failed, cancelled, expired]

/-- `EDGES` -/
def edges : State → List State
  | reserved => [running, failed, cancelled, expired]
  | running => terminals
  | _ => []

/-- `type(value) is str and value in EDGES`, as the state named. -/
def ofJson? (value : Json) : Option State := all.find? fun s => value = .str s.name

theorem mem_all (s : State) : s ∈ all := by
  cases s <;> decide

theorem name_injective {s t : State} (h : s.name = t.name) : s = t :=
  List.inj_on_of_nodup_map (by decide : (all.map name).Nodup) (mem_all s) (mem_all t) h

theorem ofJson?_eq_some {value : Json} {s : State} : ofJson? value = some s ↔ value = .str s.name := by
  constructor
  · intro h
    simpa using List.find?_some h
  · rintro rfl
    cases hfind : ofJson? (.str s.name) with
    | none => simpa using List.find?_eq_none.mp hfind s (mem_all s)
    | some t =>
      have ht : Json.str s.name = .str t.name := by simpa using List.find?_some hfind
      rw [name_injective (Json.str.inj ht)]

end State

def requireState (reason : String) (value : Json) : Py State :=
  match State.ofJson? value with
  | some s => .ok s
  | none => .error (.conformance reason "protected replay operation refused")

@[simp] theorem requireState_eq_ok {reason : String} {value : Json} {s : State} :
    requireState reason value = .ok s ↔ value = .str s.name := by
  rw [← State.ofJson?_eq_some, requireState]
  cases State.ofJson? value <;> simp

/-! ## Rows -/

/-- A receipt digest where the state calls for one. -/
abbrev Receipt (state : State) := { r : Option Digest // r.isSome = decide (state ∈ State.terminals) }

/-- One row; the constructor admits a receipt exactly in the terminal states. -/
structure Row where
  sequence : ℕ
  previousDigest : Digest
  replayKey : Digest
  bindingDigest : Digest
  state : State
  observedAt : TimeText
  receiptDigest : Receipt state
  deriving DecidableEq

def receiptJson : Option Digest → Json
  | none => .null
  | some d => .str d.text

theorem receiptJson_injective {r t : Option Digest} (h : (receiptJson r).canon = (receiptJson t).canon) : r = t := by
  cases r with
  | none => cases t with
    | none => rfl
    | some e => cases h
  | some d => cases t with
    | none => cases h
    | some e => exact congrArg some (Text.ext (Json.str.inj h))

namespace Row

def toJson (r : Row) : Json :=
  .obj [("sequence", .int r.sequence), ("previousDigest", .str r.previousDigest.text),
    ("replayKey", .str r.replayKey.text), ("bindingDigest", .str r.bindingDigest.text), ("state", .str r.state.name),
    ("observedAt", .str r.observedAt.text), ("receiptDigest", receiptJson r.receiptDigest)]

def text (r : Row) : Bytes := canonicalText r.toJson

theorem wf_toJson (r : Row) : r.toJson.Wf := by
  refine Json.wf_obj.mpr ⟨(by decide : fields.Nodup), ?_⟩
  rcases r with ⟨_, _, _, _, _, _, ⟨_ | _, _⟩⟩ <;> simp [Json.Wf, receiptJson]

theorem eq_of_canon {r t : Row} (h : r.toJson.canon = t.toJson.canon) : r = t := by
  have field (k : String) (a b : Json) (ha : r.toJson.get? k = some a) (hb : t.toJson.get? k = some b) :
      a.canon = b.canon := Json.canon_get?_eq r.wf_toJson t.wf_toJson h ha hb
  have hsequence : (r.sequence : ℤ) = t.sequence := Json.int.inj (field "sequence" _ _ rfl rfl)
  have hprevious := Text.ext (Json.str.inj (field "previousDigest" _ _ rfl rfl))
  have hkey := Text.ext (Json.str.inj (field "replayKey" _ _ rfl rfl))
  have hbinding := Text.ext (Json.str.inj (field "bindingDigest" _ _ rfl rfl))
  have hstate := State.name_injective (Json.str.inj (field "state" _ _ rfl rfl))
  have htime := Text.ext (Json.str.inj (field "observedAt" _ _ rfl rfl))
  have hreceipt := receiptJson_injective (field "receiptDigest" _ _ rfl rfl)
  cases r
  cases t
  obtain rfl := hstate
  rw [mk.injEq]
  exact ⟨by exact_mod_cast hsequence, hprevious, hkey, hbinding, rfl, htime, heq_of_eq (Subtype.ext hreceipt)⟩

theorem text_injective {r t : Row} (h : r.text = t.text) : r = t :=
  eq_of_canon ((canonicalText_injective r.wf_toJson t.wf_toJson).mp h)

end Row

/-- The check of the receipt member, in the reader and in the writer. -/
def requireReceipt (reason : String) (state : State) (value : Json) : Py (Receipt state) :=
  if h : state ∈ State.terminals then do
    let digest ← requireDigest value "receiptDigest"
    pure ⟨some digest, by simp [h]⟩
  else do
    require reason (value = .null)
    pure ⟨none, by simp [h]⟩

@[simp] theorem requireReceipt_eq_ok {reason : String} {state : State} {value : Json} {r : Receipt state} :
    requireReceipt reason state value = .ok r ↔ value = receiptJson r := by
  unfold requireReceipt
  obtain ⟨r, hr⟩ := r
  split
  · rename_i h
    obtain ⟨d, rfl⟩ : ∃ d, r = some d := Option.isSome_iff_exists.mp (by simpa [h] using hr)
    simp only [bind_eq_ok, pure_eq_ok, requireDigest_eq_ok, Subtype.mk.injEq, Option.some.injEq, exists_eq_right,
      receiptJson]
  · rename_i h
    obtain rfl : r = none := by simpa [h] using hr
    simp only [bind_eq_ok, pure_eq_ok, require_eq_ok, exists_const, and_true, receiptJson]

/-! ## Order of the rows of one key -/

/-- The check of a row against the prior row of its key. -/
def requireFollows (state : State) (bindingDigest : Digest) (observedAt : TimeText) : Option Row → Py Unit
  | none => require "REPLAY_JOURNAL_CORRUPT" (state = .reserved)
  | some prior => require "REPLAY_JOURNAL_CORRUPT" (state ∈ prior.state.edges ∧ bindingDigest = prior.bindingDigest ∧
      prior.observedAt.instant ≤ observedAt.instant)

/-- A row may follow the prior row of its key. -/
def Follows (prior? : Option Row) (row : Row) : Prop :=
  requireFollows row.state row.bindingDigest row.observedAt prior? = .ok ()

theorem follows_none {row : Row} : Follows none row ↔ row.state = .reserved := require_eq_ok

theorem follows_some {prior row : Row} : Follows (some prior) row ↔ row.state ∈ prior.state.edges ∧
    row.bindingDigest = prior.bindingDigest ∧ prior.observedAt.instant ≤ row.observedAt.instant := require_eq_ok

variable [Runtime]

/-! ## The reader -/

/-- The reader between two lines. -/
structure Replay where
  latest : Dict Digest Row
  previous : Digest
  count : ℕ

/-- The body of the loop of `parse_journal`. -/
def replayLine (s : Replay) (line : Bytes) : Py Replay := do
  require "REPLAY_JOURNAL_CORRUPT" (0 < line.length ∧ line.length ≤ maxRecord)
  let row ← requireCanonicalDocument line
  closed row fields
  require "REPLAY_JOURNAL_CORRUPT" ((← item row "sequence") = .int (s.count + 1 : ℕ))
  require "REPLAY_JOURNAL_CORRUPT" ((← item row "previousDigest") = .str s.previous.text)
  let replayKey ← requireDigest (← item row "replayKey") "replayKey"
  let bindingDigest ← requireDigest (← item row "bindingDigest") "bindingDigest"
  let observedAt ← requireTime (← item row "observedAt") "observedAt"
  let state ← requireState "REPLAY_JOURNAL_CORRUPT" (← item row "state")
  requireFollows state bindingDigest observedAt (s.latest.lookup replayKey)
  let receiptDigest ← requireReceipt "REPLAY_JOURNAL_CORRUPT" state (← item row "receiptDigest")
  let entry : Row := ⟨s.count + 1, s.previous, replayKey, bindingDigest, state, observedAt, receiptDigest⟩
  let digest ← canonicalDigest row none
  pure ⟨s.latest.insert replayKey entry, digest, s.count + 1⟩

def Replay.empty : Replay := ⟨∅, zero, 0⟩

/-- `parse_journal(raw)`: the latest rows, the head digest and the number of lines. -/
def parseJournal (raw : Bytes) : Py Replay := do
  require "REPLAY_JOURNAL_FULL" (raw.length ≤ maxJournal)
  require "REPLAY_JOURNAL_CORRUPT" (raw = [] ∨ raw.getLast? = some lineFeed)
  let lines := splitKeep raw
  require "REPLAY_JOURNAL_FULL" (lines.length ≤ maxRecords)
  lines.foldlM replayLine .empty

/-! ## The writer -/

/-- `replay_key(binding)` -/
def replayKey (input : Input) : Py Digest := do
  let value ← SessionBinding.validate input
  canonicalDigest (.obj [("tenantId", .str value.tenantId.text), ("nonce", .str value.nonce.text)])
    (some "planeon.live-replay-key/v1alpha1")

/-- The checks of `_record` on the end of the window, past the reservation. -/
def requireWindow (value : SessionBinding) (state : State) (now : TimeText) : Py Unit :=
  if state = .expired then require "REPLAY_EARLY_EXPIRY" (value.notAfter.instant ≤ now.instant)
  else if state = .running ∨ state = .completed then require "REPLAY_EXPIRED" (now.instant < value.notAfter.instant)
  else pure ()

/-- The checks of `_record` against the prior row of the key. -/
def requireTransition (value : SessionBinding) (bindingDigest : Digest) (state : State) (now : TimeText)
    (prior? : Option Row) : Py Unit :=
  if state = .reserved then do
    require "REPLAY_DETECTED" (prior? = none)
    require "REPLAY_EXPIRED" (value.notBefore.instant ≤ now.instant ∧ now.instant < value.notAfter.instant)
  else
    match prior? with
    | none => require "REPLAY_TRANSITION_INVALID" False
    | some prior => do
      require "REPLAY_TRANSITION_INVALID" (prior.bindingDigest = bindingDigest ∧ state ∈ prior.state.edges)
      require "REPLAY_CLOCK_ROLLBACK" (prior.observedAt.instant ≤ now.instant)
      requireWindow value state now

/-- `_record` up to `io.append`, on the poison flag and the bytes read: the encoded row, and the
digest the call returns. -/
def prepareRecord (poisoned : Bool) (raw : Bytes) (binding : Input) (state now receipt : Json) :
    Py (Bytes × Digest) := do
  let value ← SessionBinding.validate binding
  let now ← requireTime now "now"
  require "REPLAY_STORAGE_AMBIGUOUS" (poisoned = false)
  let state ← requireState "REPLAY_TRANSITION_INVALID" state
  let replay ← parseJournal raw
  let key ← replayKey (.data value.toJson)
  let bindingDigest ← canonicalDigest value.toJson none
  requireTransition value bindingDigest state now (replay.latest.lookup key)
  let receiptDigest ← requireReceipt "REPLAY_RECEIPT_INVALID" state receipt
  let row : Row := ⟨replay.count + 1, replay.previous, key, bindingDigest, state, now, receiptDigest⟩
  let text ← canonicalBytes row.toJson
  let encoded := text ++ [lineFeed]
  require "REPLAY_JOURNAL_FULL"
    (replay.count < maxRecords ∧ encoded.length ≤ maxRecord ∧ raw.length + encoded.length ≤ maxJournal)
  pure (encoded, digestOf row.toJson)

/-- The operations of `_Journal`. -/
inductive Op where
  | reserveNonce (binding : Input) (now : Json)
  | running (binding : Input) (now : Json)
  | terminal (binding : Input) (state now receiptDigest : Json)
  deriving DecidableEq

def Op.binding : Op → Input
  | .reserveNonce binding _ => binding
  | .running binding _ => binding
  | .terminal binding _ _ _ => binding

/-- An operation up to `io.append`. -/
def prepare (poisoned : Bool) (raw : Bytes) : Op → Py (Bytes × Digest)
  | .reserveNonce binding now => prepareRecord poisoned raw binding (.str "RESERVED") now .null
  | .running binding now => prepareRecord poisoned raw binding (.str "RUNNING") now .null
  | .terminal binding state now receiptDigest => do
    require "REPLAY_TRANSITION_INVALID" (isOneOf state (State.terminals.map State.name))
    prepareRecord poisoned raw binding state now receiptDigest

/-- What a call raises once the append has begun. -/
def broken : AppendLog.Fault → PyError
  | .append _ => .conformance "REPLAY_SHORT_WRITE" "protected replay operation refused"
  | .readBack (some _) => .conformance "REPLAY_CUSTODY_CHANGED" "protected replay operation refused"
  | _ => .osError

/-! ## What one line does -/

/-- The row the reader takes next. -/
structure Replay.Admits (s : Replay) (row : Row) : Prop where
  sequence : row.sequence = s.count + 1
  previous : row.previousDigest = s.previous
  follows : Follows (s.latest.lookup row.replayKey) row

def Replay.push (s : Replay) (row : Row) : Replay :=
  ⟨s.latest.insert row.replayKey row, digestOf row.toJson, s.count + 1⟩

/-- One line is the text of one admitted row. -/
theorem replayLine_eq_ok {s t : Replay} {line : Bytes} : replayLine s line = .ok t ↔
    ∃ row : Row, (0 < line.length ∧ line.length ≤ maxRecord) ∧ (line = row.text ∨ line = row.text ++ [lineFeed]) ∧
      Valid row.toJson ∧ s.Admits row ∧ t = s.push row := by
  simp only [replayLine, bind_eq_ok, require_eq_ok, exists_const, item_eq_ok, requireDigest_eq_ok, requireTime_eq_ok,
    requireState_eq_ok, requireReceipt_eq_ok, canonicalDigest_none, pure_eq_ok]
  constructor
  · rintro ⟨hlength, v, hv, u, hclosed, _, hsequence, rfl, _, hprevious, rfl, _, hkey, replayKey, rfl, _, hbinding,
      bindingDigest, rfl, _, htime, observedAt, rfl, _, hstate, state, rfl, ⟨⟩, hfollows, _, hreceipt, receiptDigest, rfl,
      digest, ⟨hvalid, rfl⟩, rfl⟩
    obtain ⟨hcanonical, hspelling, -⟩ := requireCanonicalDocument_eq_ok.mp hv
    have hrow : v = Json.canon
        (Row.toJson ⟨s.count + 1, s.previous, replayKey, bindingDigest, state, observedAt, receiptDigest⟩) := by
      refine eq_canon_of_closed hcanonical.wf hcanonical.canon hclosed (by decide) rfl ?_
      simp only [List.forall_mem_cons, hsequence, hprevious, hkey, hbinding, hstate, htime, hreceipt, true_and]
      exact List.forall_mem_nil _
    subst hrow
    rw [canonicalText_canon] at hspelling
    rw [digestOf_canon]
    exact ⟨_, hlength, hspelling, validAt_canon.mp hvalid, ⟨rfl, rfl, hfollows⟩, rfl⟩
  · rintro ⟨row, hlength, hspelling, hvalid, hadmits, rfl⟩
    have hcanonical := canonical_canon row.wf_toJson hvalid
    have hread : requireCanonicalDocument line = .ok row.toJson.canon := by
      rw [requireCanonicalDocument_eq_ok, canonicalText_canon]
      exact ⟨hcanonical, hspelling, hlength.2.trans (by decide)⟩
    have hclosed : closed row.toJson.canon fields = .ok () := closed_canon.mpr (closed_eq_ok.mpr ⟨_, rfl, fun k => Iff.rfl⟩)
    have hget (k : String) := Json.get?_canon row.wf_toJson k
    refine ⟨hlength, _, hread, (), hclosed, _, hget "sequence", ?_, _, hget "previousDigest", ?_, _, hget "replayKey",
      row.replayKey, rfl, _, hget "bindingDigest", row.bindingDigest, rfl, _, hget "observedAt", row.observedAt, rfl,
      _, hget "state", row.state, rfl, (), hadmits.follows, _, hget "receiptDigest", row.receiptDigest, ?_, _,
      ⟨hcanonical.valid, rfl⟩, ?_⟩
    · exact congrArg (fun n : ℕ => Json.int n) hadmits.sequence
    · exact congrArg (fun d : Digest => Json.str d.text) hadmits.previous
    · cases row.receiptDigest.val <;> rfl
    · rw [digestOf_canon, Replay.push, ← hadmits.sequence, ← hadmits.previous]

end HarnessConformance.ReplayStore
