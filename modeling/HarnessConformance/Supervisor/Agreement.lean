import HarnessConformance.Supervisor.Safety
import HarnessConformance.ReplayStore.Custody

/-! # The supervisor and its journal agree

A run against a real journal, in which others write rows for other nonces between its calls. What
the supervisor records after its reservation is never refused, and every recorded change of state
is one the session's own rules describe. -/

namespace HarnessConformance.ReplayStore
open Lib Lib.Outcome Lib.Lines
set_option autoImplicit false

variable [Runtime]

/-! ## Records that are not refused -/

/-- Every row fits its line: the seven members are short whatever they hold. -/
theorem Row.fits_of_sequence {row : Row} (h : row.sequence ≤ 10000000) : row.Fits := by
  have hstate : Slim 130 0 ("state", .str row.state.name) := by
    cases row.state <;> simp only [State.name] <;> exact .literal (Json.shortKey rfl) rfl (by decide)
  have hreceipt : Slim 130 0 ("receiptDigest", receiptJson row.receiptDigest) := by
    cases row.receiptDigest.val with
    | none => exact ⟨(Json.shortKey rfl).1, (Json.shortKey rfl).2, trivial, (by decide : 4 ≤ 130), le_rfl⟩
    | some d => exact slim_digest (Json.shortKey rfl) d (by decide)
  have hslim : ∀ m ∈ [("sequence", Json.int row.sequence), ("previousDigest", .str row.previousDigest.text),
      ("replayKey", .str row.replayKey.text), ("bindingDigest", .str row.bindingDigest.text), ("state", .str row.state.name),
      ("observedAt", .str row.observedAt.text), ("receiptDigest", receiptJson row.receiptDigest)], Slim 130 0 m := by
    simp only [List.forall_mem_cons]
    exact ⟨(slim_count (Json.shortKey rfl) h).mono (by decide) le_rfl, slim_digest (Json.shortKey rfl) _ (by decide),
      slim_digest (Json.shortKey rfl) _ (by decide), slim_digest (Json.shortKey rfl) _ (by decide), hstate,
      slim_time (Json.shortKey rfl) _, hreceipt, nofun⟩
  refine ⟨validAt_slim hslim (by decide : 7 ≤ _) (by decide) (by decide), ?_⟩
  have hwidth := width_slim hslim
  rw [Row.text, length_canonicalText]
  have hseven : row.toJson.width ≤ 2 + 7 * (130 + 36) := hwidth
  exact (Nat.add_le_add_right hseven 1).trans (by decide)

/-- Room for one more row of any size. -/
def Room (raw : Bytes) : Prop :=
  ∀ s, parseJournal raw = .ok s → s.count < maxRecords ∧ raw.length + maxRecord ≤ maxJournal

omit [Runtime] in
theorem requireTransition_of {b : SessionBinding} {digest : Digest} {state : State} {now : TimeText} {prior : Row}
    (hstate : state ∈ prior.state.edges) (hdigest : prior.bindingDigest = digest)
    (hclock : prior.observedAt.instant ≤ now.instant) (hwindow : InWindow b state now) :
    requireTransition b digest state now (some prior) = .ok () := by
  have hne : state ≠ .reserved := by
    rintro rfl
    exact not_mem_edges_reserved _ hstate
  rw [requireTransition, if_neg hne]
  simp only [bind_eq_ok, require_eq_ok, exists_const]
  exact ⟨⟨hdigest, hstate⟩, hclock, (requireWindow_eq_ok hne).mpr hwindow⟩

/-- With room, a record is refused for its transition only. -/
theorem prepareRecord_of {raw : Bytes} {s : Replay} {b : SessionBinding} {state : State} {now : TimeText}
    {r : Receipt state} (hs : parseJournal raw = .ok s) (hroom : Room raw)
    (htransition : requireTransition b (digestOf b.toJson) state now (s.latest.lookup (pairKey b.tenantId b.nonce)) = .ok ()) :
    ∃ row : Row, row.replayKey = pairKey b.tenantId b.nonce ∧ row.bindingDigest = digestOf b.toJson ∧ row.state = state ∧
      row.observedAt = now ∧ prepareRecord false raw (.data b.toJson) (.str state.name) (.str now.text) (receiptJson r) =
        .ok (row.text ++ [lineFeed], row.digest) ∧ Records raw s b row := by
  obtain ⟨hcount, hlength⟩ := hroom s hs
  have hvalid : Valid b.toJson := by
    obtain ⟨members, hjson, hmembers, -, -, hslim⟩ := b.slim_members
    rw [hjson]
    exact validAt_slim hslim (hmembers.trans_le (by decide)) (by decide) (by decide)
  have hkey : replayKey (.data b.toJson) = .ok (pairKey b.tenantId b.nonce) := by
    have hslim : ∀ m ∈ [("tenantId", Json.str b.tenantId.text), ("nonce", .str b.nonce.text)], Slim 130 0 m := by
      simp only [List.forall_mem_cons]
      exact ⟨slim_id (Json.shortKey rfl) _, slim_id (Json.shortKey rfl) _, nofun⟩
    simp only [replayKey, bind_eq_ok, canonicalDigest_eq_ok]
    exact ⟨b, b.validate_toJson, validAt_slim hslim (by decide : 2 ≤ _) (by decide) (by decide), rfl⟩
  have hfits : Row.Fits ⟨s.count + 1, s.previous, pairKey b.tenantId b.nonce, digestOf b.toJson, state, now, r⟩ :=
    Row.fits_of_sequence (hcount.trans (by decide))
  have hsize := hfits.size
  refine ⟨⟨s.count + 1, s.previous, _, _, state, now, r⟩, rfl, rfl, rfl, rfl, ?_, ?_⟩
  · simp only [prepareRecord, bind_eq_ok, require_eq_ok, exists_const, requireTime_eq_ok, requireState_eq_ok,
      requireReceipt_eq_ok, pure_eq_ok, canonicalDigest_none, canonicalBytes_eq_ok]
    refine ⟨b, b.validate_toJson, now, rfl, trivial, state, rfl, s, hs, _, hkey, _, ⟨hvalid, rfl⟩, (), htransition, r, rfl,
      _, ⟨hfits.valid, rfl⟩, ⟨hcount, ?_, ?_⟩, rfl⟩
    · rw [List.length_append, List.length_singleton]
      exact hsize
    · rw [List.length_append, List.length_singleton]
      exact (Nat.add_le_add_left hsize _).trans hlength
  · obtain ⟨hfollows, hwindow⟩ := requireTransition_eq_ok ⟨s.count + 1, s.previous, _, _, state, now, r⟩ htransition
    refine ⟨rfl, rfl, hwindow, ⟨rfl, rfl, hfollows⟩, hfits, hcount, ?_⟩
    rw [List.append_assoc, List.length_append, List.length_append, List.length_singleton]
    exact (Nat.add_le_add_left hsize _).trans hlength

/-- The journal is readable and ends, for this binding's key, in a row of this state and time. -/
def Holds (raw : Bytes) (b : SessionBinding) (state : State) (t : TimeText) : Prop :=
  ∃ s row, parseJournal raw = .ok s ∧ s.latest.lookup (pairKey b.tenantId b.nonce) = some row ∧ row.state = state ∧
    row.observedAt = t ∧ row.bindingDigest = digestOf b.toJson

theorem parseJournal_push {raw : Bytes} {s : Replay} {b : SessionBinding} {row : Row} (hs : parseJournal raw = .ok s)
    (hrow : Records raw s b row) : parseJournal (raw ++ (row.text ++ [lineFeed])) = .ok (s.push row) := by
  obtain ⟨rows, hspells, hreplays⟩ := parseJournal_eq_ok.mp hs
  exact parseJournal_eq_ok.mpr ⟨_, parseJournal_append hspells hreplays hrow⟩

/-- Rows under other keys change nothing for this one. -/
theorem Holds.other {raw row : Bytes} {b : SessionBinding} {state : State} {t : TimeText} (hholds : Holds raw b state t)
    {poisoned : Bool} {op : Op} {reply : Digest} (hop : prepare poisoned raw op = .ok (row, reply))
    (hkey : ∀ c, SessionBinding.validate op.binding = .ok c → pairKey c.tenantId c.nonce ≠ pairKey b.tenantId b.nonce) :
    Holds (raw ++ row) b state t := by
  obtain ⟨s, last, hs, hlast, hrest⟩ := hholds
  obtain ⟨_, now, receipt, hrecord, -⟩ := prepare_eq_ok hop
  obtain ⟨-, c, s', r, hc, hs', hrecords, -, rfl, -⟩ := prepareRecord_eq_ok hrecord
  rw [hs] at hs'
  obtain rfl := Except.ok.inj hs'
  refine ⟨s.push r, last, parseJournal_push hs hrecords, ?_, hrest⟩
  have hne : pairKey b.tenantId b.nonce ≠ r.replayKey := by
    rw [hrecords.key]
    exact (hkey c hc).symm
  exact (AList.lookup_insert_ne hne).trans hlast

/-- A record goes through from the state the key is in. -/
theorem Holds.record {raw : Bytes} {b : SessionBinding} {prior state : State} {t now : TimeText} {r : Receipt state}
    (hholds : Holds raw b prior t) (hroom : Room raw) (hstate : state ∈ prior.edges) (hclock : t.instant ≤ now.instant)
    (hwindow : InWindow b state now) : ∃ row reply,
      prepareRecord false raw (.data b.toJson) (.str state.name) (.str now.text) (receiptJson r) = .ok (row, reply) ∧
        Holds (raw ++ row) b state now := by
  obtain ⟨s, last, hs, hlast, rfl, rfl, hdigest⟩ := hholds
  have htransition := requireTransition_of hstate hdigest hclock hwindow
  rw [← hlast] at htransition
  obtain ⟨row, hkey, hbinding, hrowState, htime, hprepare, hrecords⟩ := prepareRecord_of (r := r) hs hroom htransition
  refine ⟨_, _, hprepare, s.push row, row, parseJournal_push hs hrecords, ?_, hrowState, htime, hbinding⟩
  rw [← hkey]
  exact AList.lookup_insert _

/-- A reservation that went through holds the key. -/
theorem holds_reserved {raw row : Bytes} {b : SessionBinding} {t : TimeText} {reply : Digest}
    (h : prepare false raw (.reserveNonce (.data b.toJson) (.str t.text)) = .ok (row, reply)) :
    Holds (raw ++ row) b .reserved t := by
  obtain ⟨-, c, s, r, hc, hs, hrecords, hstate, rfl, -, htime⟩ :=
    prepareRecord_eq_ok (show prepareRecord false raw _ (.str State.reserved.name) (.str t.text) .null = _ from h)
  rw [b.validate_toJson] at hc
  obtain rfl := Except.ok.inj hc
  refine ⟨s.push r, r, parseJournal_push hs hrecords, ?_, (State.name_injective (Json.str.inj hstate)).symm,
    (Text.ext (Json.str.inj htime)).symm, hrecords.binding⟩
  rw [← hrecords.key]
  exact AList.lookup_insert _

end HarnessConformance.ReplayStore

namespace HarnessConformance.Supervisor
open Lib Lib.Outcome Lib.Lines
open LiveSession (State)
open ReplayStore (Room Holds pairKey)
set_option autoImplicit false

/-! ## Calls on the journal -/

/-- What the supervisor asks its journal to record. -/
inductive Record where
  | reserved (binding : SessionBinding) (now : TimeText)
  | running (binding : SessionBinding) (now : TimeText)
  | ended (binding : SessionBinding) (ending : Ending) (now : TimeText) (receiptDigest : Digest)

namespace Record

def entry (r : Record) (answer : Py Unit) : Entry :=
  match r with
  | reserved b t => ⟨.reserveNonce b t, answer⟩
  | running b t => ⟨.running b t, answer⟩
  | ended b ending t digest => ⟨.terminal b ending t digest, answer⟩

/-- The journal's operation behind the call. -/
def op : Record → ReplayStore.Op
  | reserved b t => .reserveNonce (.data b.toJson) (.str t.text)
  | running b t => .running (.data b.toJson) (.str t.text)
  | ended b ending t digest => .terminal (.data b.toJson) (.str ending.name) (.str t.text) (.str digest.text)

def binding : Record → SessionBinding
  | reserved b _ => b
  | running b _ => b
  | ended b _ _ _ => b

def now : Record → TimeText
  | reserved _ t => t
  | running _ t => t
  | ended _ _ t _ => t

end Record

def Ending.state : Ending → State
  | completed => .completed
  | failed => .failed
  | cancelled => .cancelled
  | expired => .expired

def Ending.journalState : Ending → ReplayStore.State
  | completed => .completed
  | failed => .failed
  | cancelled => .cancelled
  | expired => .expired

/-- The session state a record moves to. -/
def Record.state : Record → State
  | reserved _ _ => .reserved
  | running _ _ => .running
  | ended _ ending _ _ => ending.state

/-- The session state an entry recorded, if it recorded one. -/
def recorded : Entry → Option State
  | ⟨.reserveNonce _ _, .ok _⟩ => some .reserved
  | ⟨.running _ _, .ok _⟩ => some .running
  | ⟨.terminal _ ending _ _, .ok _⟩ => some ending.state
  | _ => none

/-- The state of the session, as recorded so far. -/
def sessionState (h : Log) : State := (h.filterMap recorded).getLast?.getD .validatedData

theorem sessionState_snoc (h : Log) (e : Entry) : sessionState (h ++ [e]) = (recorded e).getD (sessionState h) := by
  rw [sessionState, List.filterMap_append]
  cases he : recorded e with
  | none =>
    rw [List.filterMap_cons_none he, List.filterMap_nil, List.append_nil]
    rfl
  | some state =>
    rw [List.filterMap_cons_some he, List.filterMap_nil, List.getLast?_concat]
    rfl

theorem sessionState_validated {h : Log} (hh : ¬ Made .reserve h ∧ ¬ Made .running h ∧ ¬ Made .terminal h) :
    sessionState h = .validatedData := by
  have hnone : h.filterMap recorded = [] := by
    refine List.filterMap_eq_nil_iff.mpr fun e he => ?_
    obtain ⟨c, answer⟩ := e
    cases c with
    | reserveNonce b t => exact absurd ⟨_, he, rfl⟩ hh.1
    | running b t => exact absurd ⟨_, he, rfl⟩ hh.2.1
    | terminal b ending t digest => exact absurd ⟨_, he, rfl⟩ hh.2.2
    | _ => rfl
  rw [sessionState, hnone]
  rfl

variable [Runtime]

/-- The answers a journal gave a history of calls, and the bytes it came to hold: every record finds
room, and between the calls others write, but not under a key that was reserved here. -/
inductive Journaled : Log → Bytes → Prop where
  | start (raw : Bytes) : Journaled [] raw
  | quiet {h : Log} {raw : Bytes} {e : Entry} : Journaled h raw → (∀ r answer, e ≠ Record.entry r answer) →
      Journaled (h ++ [e]) raw
  | other {h : Log} {raw row : Bytes} {poisoned : Bool} {op : ReplayStore.Op} {reply : Digest} : Journaled h raw →
      ReplayStore.prepare poisoned raw op = .ok (row, reply) →
      (∀ b, SessionBinding.validate op.binding = .ok b → ∀ c t, (⟨.reserveNonce c t, .ok ()⟩ : Entry) ∈ h →
        pairKey b.tenantId b.nonce ≠ pairKey c.tenantId c.nonce) → Journaled h (raw ++ row)
  | appended {h : Log} {raw row : Bytes} {r : Record} {reply : Digest} : Journaled h raw → Room raw →
      ReplayStore.prepare false raw r.op = .ok (row, reply) → Journaled (h ++ [r.entry (.ok ())]) (raw ++ row)
  | refused {h : Log} {raw : Bytes} {r : Record} {e : PyError} : Journaled h raw → Room raw →
      ReplayStore.prepare false raw r.op = .error e → Journaled (h ++ [r.entry (.error e)]) raw

/-- What an entry owes the history before it: past the reservation no record is refused, and every
record made is a change of state that `transition_candidate` describes at its time. -/
def Agrees (before : Log) (e : Entry) : Prop :=
  ∀ r answer, e = Record.entry r answer → ((∀ b t, r ≠ .reserved b t) → answer = .ok ()) ∧
    (answer = .ok () → ∃ candidate, Session.transitionCandidate (.data (sessionOf r.binding (sessionState before)).toJson)
      (.str r.state.name) (.data r.binding.toJson) (.str r.now.text) = .ok candidate)

theorem transitionCandidate_of {b : SessionBinding} {state next : State} {t : TimeText}
    (hedge : (state, next) ∈ State.transitions) (hstart : b.notBefore.instant ≤ t.instant)
    (hend : next = .expired ↔ b.notAfter.instant ≤ t.instant) :
    ∃ candidate, Session.transitionCandidate (.data (sessionOf b state).toJson) (.str next.name) (.data b.toJson)
      (.str t.text) = .ok candidate := by
  have hvalid : Valid (sessionOf b state).toJson := by
    obtain ⟨members, hjson, hlength, -, -, hslim⟩ := (sessionOf b state).slim_members
    rw [hjson]
    exact validAt_slim hslim (hlength.trans_le (by decide)) (by decide) (by decide)
  simp only [Session.transitionCandidate, bind_eq_ok, LiveSession.require_eq_ok, LiveSession.requireState_eq_ok,
    requireTime_eq_ok, canonicalDigest_none, pure_eq_ok, exists_const]
  exact ⟨_, _, Session.read_toJson (sessionOf b state) b.validate_toJson, next, rfl, hedge, t, rfl, hstart, hend, _,
    ⟨hvalid, rfl⟩, rfl⟩

/-! ## The journal along a run -/

/-- The reservation that a history holds. -/
structure Reserves (h : Log) (b : SessionBinding) (t : TimeText) : Prop where
  mem : (⟨.reserveNonce b t, .ok ()⟩ : Entry) ∈ h
  only : ∀ c u, (⟨.reserveNonce c u, .ok ()⟩ : Entry) ∈ h → c = b ∧ u = t
  starts : b.notBefore.instant ≤ t.instant

/-- Where the reserved key stands in the journal. -/
inductive Stage (h : Log) (raw : Bytes) : Prop where
  | idle : (∀ b t, (⟨.reserveNonce b t, .ok ()⟩ : Entry) ∉ h) → Stage h raw
  | reserved (b : SessionBinding) (t : TimeText) : Reserves h b t → ¬ Made .running h → sessionState h = .reserved →
      Holds raw b .reserved t → Stage h raw
  | running (b : SessionBinding) (t u : TimeText) : Reserves h b t → (⟨.running b u, .ok ()⟩ : Entry) ∈ h →
      t.instant ≤ u.instant → sessionState h = .running → Holds raw b .running u → Stage h raw
  | ended : Made .terminal h → Stage h raw

omit [Runtime] in
/-- An entry that records nothing adds no reservation. -/
theorem Reserves.snoc {h : Log} {b : SessionBinding} {t : TimeText} {e : Entry} (hreserves : Reserves h b t)
    (he : ∀ c u, e ≠ ⟨.reserveNonce c u, .ok ()⟩) : Reserves (h ++ [e]) b t := by
  refine ⟨List.mem_append_left _ hreserves.mem, fun c u hcu => ?_, hreserves.starts⟩
  rcases List.mem_append.mp hcu with hold | hnew
  · exact hreserves.only c u hold
  · exact absurd (List.mem_singleton.mp hnew).symm (he c u)

omit [Runtime] in
theorem Reserves.of_reservedBy {h : Log} {b c : SessionBinding} {t : TimeText} {instant : Instant} (hreserves : Reserves h b t)
    (hby : ReservedBy h c instant) : c = b ∧ t.instant ≤ instant := by
  obtain ⟨u, hu, hle⟩ := hby
  obtain ⟨rfl, rfl⟩ := hreserves.only c u hu
  exact ⟨rfl, hle⟩

/-- An entry that is no record leaves the key where it is. -/
theorem Stage.quiet {h : Log} {raw : Bytes} {e : Entry} (hstage : Stage h raw) (hrecorded : recorded e = none)
    (hkind : e.call.kind ≠ .running) : Stage (h ++ [e]) raw := by
  have hsession : sessionState (h ++ [e]) = sessionState h := by
    rw [sessionState_snoc, hrecorded]
    rfl
  have hnew (c : SessionBinding) (u : TimeText) : e ≠ ⟨.reserveNonce c u, .ok ()⟩ := by
    rintro rfl
    cases hrecorded
  cases hstage with
  | idle hnone =>
    refine .idle fun b t hbt => ?_
    rcases List.mem_append.mp hbt with hold | hlast
    · exact hnone b t hold
    · exact hnew b t (List.mem_singleton.mp hlast).symm
  | reserved b t hreserves hrunning hstate hholds =>
    exact .reserved b t (hreserves.snoc hnew) (not_made_snoc hrunning hkind) (hsession.trans hstate) hholds
  | running b t u hreserves hrunning hle hstate hholds =>
    exact .running b t u (hreserves.snoc hnew) (List.mem_append_left _ hrunning) hle (hsession.trans hstate) hholds
  | ended hmade => exact .ended hmade.append

/-- What others write leaves it there as well. -/
theorem Stage.other {h : Log} {raw row : Bytes} {poisoned : Bool} {op : ReplayStore.Op} {reply : Digest} (hstage : Stage h raw)
    (hop : ReplayStore.prepare poisoned raw op = .ok (row, reply))
    (hkey : ∀ b, SessionBinding.validate op.binding = .ok b → ∀ c t, (⟨.reserveNonce c t, .ok ()⟩ : Entry) ∈ h →
      pairKey b.tenantId b.nonce ≠ pairKey c.tenantId c.nonce) : Stage h (raw ++ row) := by
  cases hstage with
  | idle hnone => exact .idle hnone
  | reserved b t hreserves hrunning hstate hholds =>
    exact .reserved b t hreserves hrunning hstate (hholds.other hop fun c hc => hkey c hc b t hreserves.mem)
  | running b t u hreserves hrunning hle hstate hholds =>
    exact .running b t u hreserves hrunning hle hstate (hholds.other hop fun c hc => hkey c hc b t hreserves.mem)
  | ended hmade => exact .ended hmade

/-- A reservation that went through. -/
theorem Stage.reserve {h : Log} {raw row : Bytes} {b : SessionBinding} {t : TimeText} {reply : Digest}
    (hpermitted : Permitted h (.reserveNonce b t))
    (hop : ReplayStore.prepare false raw (Record.reserved b t).op = .ok (row, reply)) :
    Stage (h ++ [(Record.reserved b t).entry (.ok ())]) (raw ++ row) := by
  obtain ⟨hreserve, hrunning, -, hstart, -⟩ := hpermitted
  refine .reserved b t ⟨?_, fun c u hcu => ?_, hstart⟩ (not_made_snoc hrunning (by simp [Record.entry, Call.kind])) ?_
    (ReplayStore.holds_reserved hop)
  · exact List.mem_append_right _ (List.mem_singleton_self _)
  · rcases List.mem_append.mp hcu with hold | hnew
    · exact absurd ⟨_, hold, rfl⟩ hreserve
    · simpa [Record.entry] using hnew
  · rw [sessionState_snoc]
    rfl

/-- What a record that finds its key does: it is made, and it is a step of the session. -/
structure Recorded (h : Log) (raw : Bytes) (r : Record) : Prop where
  appends : ∃ row reply, ReplayStore.prepare false raw r.op = .ok (row, reply) ∧
    Stage (h ++ [r.entry (.ok ())]) (raw ++ row)
  agrees : ∃ candidate, Session.transitionCandidate (.data (sessionOf r.binding (sessionState h)).toJson)
    (.str r.state.name) (.data r.binding.toJson) (.str r.now.text) = .ok candidate

theorem Stage.run {h : Log} {raw : Bytes} {b : SessionBinding} {t : TimeText} (hstage : Stage h raw) (hroom : Room raw)
    (hpermitted : Permitted h (.running b t)) : Recorded h raw (.running b t) := by
  obtain ⟨hrunning, hterminal, hby, hend⟩ := hpermitted
  cases hstage with
  | idle hnone =>
    obtain ⟨u, hu, -⟩ := hby
    exact absurd hu (hnone b u)
  | reserved c u hreserves _ hstate hholds =>
    obtain ⟨rfl, hle⟩ := hreserves.of_reservedBy hby
    obtain ⟨row, reply, hop, hnext⟩ := hholds.record (r := ⟨none, rfl⟩) hroom
      (by decide : ReplayStore.State.running ∈ ReplayStore.State.reserved.edges) hle hend
    have hsnoc : Reserves (h ++ [(Record.running b t).entry (.ok ())]) b u :=
      hreserves.snoc fun c v hcv => by cases hcv
    refine ⟨⟨row, reply, hop, .running b u t hsnoc ?_ hle ?_ hnext⟩, ?_⟩
    · exact List.mem_append_right _ (List.mem_singleton_self _)
    · rw [sessionState_snoc]
      rfl
    · rw [hstate]
      exact transitionCandidate_of (by decide : (State.reserved, State.running) ∈ State.transitions) (hreserves.starts.trans hle)
        ⟨nofun, fun h => absurd h (not_le.mpr hend)⟩
  | running c u v _ hmem => exact absurd ⟨_, hmem, rfl⟩ hrunning
  | ended hmade => exact absurd hmade hterminal

omit [Runtime] in
theorem Ending.mem_terminals (ending : Ending) : ending.journalState ∈ ReplayStore.State.terminals := by
  cases ending <;> decide

/-- The terminal record on top of the row the key holds. -/
theorem Stage.finish {h : Log} {raw : Bytes} {b : SessionBinding} {ending : Ending} {t u : TimeText} {digest : Digest}
    {prior : ReplayStore.State} {state : State} (hroom : Room raw) (hends : MayEnd h b ending t) (hstate : sessionState h = state)
    (hholds : Holds raw b prior u) (hle : u.instant ≤ t.instant) (hstart : b.notBefore.instant ≤ t.instant)
    (hprior : ending.journalState ∈ prior.edges) (hedge : (state, ending.state) ∈ State.transitions)
    (hcompleted : ending = .completed → t.instant < b.notAfter.instant) : Recorded h raw (.ended b ending t digest) := by
  have hterminal := ending.mem_terminals
  have hwindow : ReplayStore.InWindow b ending.journalState t := by
    cases ending with
    | completed => exact hcompleted rfl
    | expired => exact hends.expired.mp rfl
    | failed => trivial
    | cancelled => trivial
  obtain ⟨row, reply, hop, -⟩ := hholds.record (r := ⟨some digest, (decide_eq_true hterminal).symm⟩) hroom hprior hle hwindow
  have hname : ending.journalState.name = ending.name := by cases ending <;> rfl
  have hexpired : ending.state = .expired ↔ b.notAfter.instant ≤ t.instant := by
    rw [← hends.expired]
    cases ending <;> simp [Ending.state]
  refine ⟨⟨row, reply, ?_, .ended ⟨_, List.mem_append_right _ (List.mem_singleton_self _), rfl⟩⟩, ?_⟩
  · rw [hname] at hop
    simp only [Record.op, ReplayStore.prepare, bind_eq_ok, ReplayStore.require_eq_ok, exists_const]
    refine ⟨?_, hop⟩
    cases ending <;> decide
  · rw [hstate]
    exact transitionCandidate_of hedge hstart hexpired

theorem Stage.terminate {h : Log} {raw : Bytes} {b : SessionBinding} {ending : Ending} {t : TimeText} {digest : Digest}
    (hstage : Stage h raw) (hroom : Room raw) (hends : MayEnd h b ending t) : Recorded h raw (.ended b ending t digest) := by
  have hby := hends.reserved
  have hcompleted (hending : ending = .completed) :
      (∃ u, (⟨.running b u, .ok ()⟩ : Entry) ∈ h) ∧ t.instant < b.notAfter.instant := by
    obtain ⟨earlier, x, m, rfl, -, -, hready⟩ := hends.readings
    obtain ⟨⟨u, hu⟩, plan, deadline, -, -, hwindow, -⟩ := hready hending
    exact ⟨⟨u, by simp [hu]⟩, hwindow⟩
  cases hstage with
  | idle hnone =>
    obtain ⟨u, hu, -⟩ := hby
    exact absurd hu (hnone b u)
  | reserved c u hreserves hrunning hstate hholds =>
    obtain ⟨rfl, hle⟩ := hreserves.of_reservedBy hby
    have hnot : ending ≠ .completed := by
      intro hending
      obtain ⟨⟨v, hv⟩, -⟩ := hcompleted hending
      exact hrunning ⟨_, hv, rfl⟩
    refine Stage.finish hroom hends hstate hholds hle (hreserves.starts.trans hle) ?_ ?_ fun h => (hcompleted h).2
    · cases ending with
      | completed => exact absurd rfl hnot
      | _ => decide
    · cases ending with
      | completed => exact absurd rfl hnot
      | _ => decide
  | running c u v hreserves hmem _ hstate hholds =>
    obtain ⟨rfl, hle⟩ := hreserves.of_reservedBy hby
    refine Stage.finish hroom hends hstate hholds (hends.ran b v hmem) (hreserves.starts.trans hle) ?_ ?_ fun h => (hcompleted h).2
    · cases ending <;> decide
    · cases ending <;> decide
  | ended hmade => exact absurd hmade hends.once

/-! ## Agreement -/

theorem agrees_reserved {h : Log} {b : SessionBinding} {t : TimeText} (hpermitted : Permitted h (.reserveNonce b t)) :
    ∃ candidate, Session.transitionCandidate (.data (sessionOf b (sessionState h)).toJson) (.str State.reserved.name)
      (.data b.toJson) (.str t.text) = .ok candidate := by
  obtain ⟨hreserve, hrunning, hterminal, hstart, hend⟩ := hpermitted
  rw [sessionState_validated ⟨hreserve, hrunning, hterminal⟩]
  exact transitionCandidate_of (by decide) hstart ⟨nofun, fun h => absurd h (not_le.mpr hend)⟩

omit [Runtime] in
theorem Record.entry_inj {r s : Record} {answer answer' : Py Unit} (h : r.entry answer = s.entry answer') :
    r = s ∧ answer = answer' := by
  cases r <;> cases s <;> simp_all [Record.entry]

theorem agrees_of_recorded {h : Log} {raw : Bytes} {r : Record} (hrecorded : Recorded h raw r) :
    Agrees h (r.entry (.ok ())) := by
  intro s answer he
  obtain ⟨rfl, rfl⟩ := Record.entry_inj he
  exact ⟨fun _ => rfl, fun _ => hrecorded.agrees⟩

/-- A record past the reservation, wherever the key stands. -/
theorem Stage.record {h : Log} {raw : Bytes} {r : Record} {answer : Py Unit} (hstage : Stage h raw) (hroom : Room raw)
    (hpermitted : Permitted h (r.entry answer).call) (hr : ∀ b t, r ≠ .reserved b t) : Recorded h raw r := by
  cases r with
  | reserved b t => exact absurd rfl (hr b t)
  | running b t => exact hstage.run hroom hpermitted
  | ended b ending t digest => exact hstage.terminate hroom hpermitted

theorem journaled_agrees {h : Log} {raw : Bytes} (hjournal : Journaled h raw) (hsafe : Safe h) :
    Stage h raw ∧ ∀ before e after, h = before ++ e :: after → Agrees before e := by
  induction hjournal with
  | start raw => exact ⟨.idle fun _ _ => List.not_mem_nil, fun before e after h => by simp at h⟩
  | @quiet h raw e hjournal hquiet ih =>
    obtain ⟨hsafe, -⟩ := safe_snoc.mp hsafe
    obtain ⟨hstage, hagrees⟩ := ih hsafe
    have hkind : recorded e = none ∧ e.call.kind ≠ .running := by
      obtain ⟨c, answer⟩ := e
      cases c with
      | reserveNonce b t => exact absurd rfl (hquiet (.reserved b t) answer)
      | running b t => exact absurd rfl (hquiet (.running b t) answer)
      | terminal b ending t digest => exact absurd rfl (hquiet (.ended b ending t digest) answer)
      | _ => exact ⟨rfl, by simp [Call.kind]⟩
    exact ⟨hstage.quiet hkind.1 hkind.2, forall_split_snoc.mpr ⟨hagrees, fun r answer he => absurd he (hquiet r answer)⟩⟩
  | other hjournal hop hkey ih =>
    obtain ⟨hstage, hagrees⟩ := ih hsafe
    exact ⟨hstage.other hop hkey, hagrees⟩
  | @appended h raw row r reply hjournal hroom hop ih =>
    obtain ⟨hsafe, hpermitted⟩ := safe_snoc.mp hsafe
    obtain ⟨hstage, hagrees⟩ := ih hsafe
    by_cases hr : ∃ b t, r = .reserved b t
    · obtain ⟨b, t, rfl⟩ := hr
      refine ⟨.reserve hpermitted hop, forall_split_snoc.mpr ⟨hagrees, fun s answer he => ?_⟩⟩
      obtain ⟨rfl, rfl⟩ := Record.entry_inj he
      exact ⟨fun _ => rfl, fun _ => agrees_reserved hpermitted⟩
    · have hrecorded := hstage.record hroom hpermitted fun b t h => hr ⟨b, t, h⟩
      obtain ⟨row', reply', hop', hnext⟩ := hrecorded.appends
      rw [hop] at hop'
      cases hop'
      exact ⟨hnext, forall_split_snoc.mpr ⟨hagrees, agrees_of_recorded hrecorded⟩⟩
  | @refused h raw r e hjournal hroom hop ih =>
    obtain ⟨hsafe, hpermitted⟩ := safe_snoc.mp hsafe
    obtain ⟨hstage, hagrees⟩ := ih hsafe
    by_cases hr : ∃ b t, r = .reserved b t
    · obtain ⟨b, t, rfl⟩ := hr
      refine ⟨hstage.quiet rfl (by simp [Record.entry, Call.kind]), forall_split_snoc.mpr ⟨hagrees, fun s answer he => ?_⟩⟩
      obtain ⟨rfl, rfl⟩ := Record.entry_inj he
      exact ⟨fun h => absurd rfl (h b t), fun hok => by cases hok⟩
    · have hrecorded := hstage.record hroom hpermitted fun b t h => hr ⟨b, t, h⟩
      obtain ⟨row, reply, hop', -⟩ := hrecorded.appends
      rw [hop] at hop'
      cases hop'

/-- Supervisor, journal and session model agree: along every run against a journal with room, no
record past the reservation is refused, and every one that is made is a change of state that the
session describes at its time. -/
theorem journal_agrees {steps : List Step} {s : Lifecycle} {raw : Bytes} (hrun : Run steps s)
    (hjournal : Journaled (history steps) raw) :
    ∀ before e after, history steps = before ++ e :: after → Agrees before e :=
  (journaled_agrees hjournal (run_between hrun).phase.safe).2

namespace Sample
open LiveSession.Sample (binding instant)

theorem room_empty : Room [] := by
  intro s hs
  have hempty : ReplayStore.parseJournal [] = .ok .empty := rfl
  obtain rfl := Except.ok.inj (hempty.symm.trans hs)
  exact ⟨by decide, by decide⟩

/-- The reservation on the empty journal, with room behind it. -/
theorem reserve_empty : ∃ row reply, ReplayStore.prepare false [] (Record.reserved binding instant).op = .ok (row, reply) ∧
    Room row := by
  have hs : ReplayStore.parseJournal [] = .ok .empty := rfl
  have htransition : ReplayStore.requireTransition binding (digestOf binding.toJson) .reserved instant
      (ReplayStore.Replay.empty.latest.lookup (pairKey binding.tenantId binding.nonce)) = .ok () := by
    simp only [ReplayStore.requireTransition, bind_eq_ok, ReplayStore.require_eq_ok, exists_const, if_true]
    exact ⟨rfl, by decide⟩
  obtain ⟨row, -, -, -, -, hop, hrecords⟩ := ReplayStore.prepareRecord_of (r := ⟨none, rfl⟩) hs room_empty htransition
  refine ⟨_, _, hop, fun s hs' => ?_⟩
  have hpush := ReplayStore.parseJournal_push hs hrecords
  rw [List.nil_append] at hpush
  obtain rfl := Except.ok.inj (hpush.symm.trans hs')
  have hsize := hrecords.fits.size
  refine ⟨(by decide : 0 + 1 < ReplayStore.maxRecords), ?_⟩
  rw [List.length_append, List.length_singleton]
  exact (Nat.add_le_add_right hsize _).trans (by decide)

omit [Runtime] in
theorem quiet_reading {e : Entry} (he : e.call.kind = .reading ∨ e.call.kind = .cleanup) (r : Record) (answer : Py Unit) :
    e ≠ r.entry answer := by
  rintro rfl
  cases r <;> simp [Record.entry, Call.kind] at he

/-- The readings and the cleanup that surround the run's two records. -/
theorem journaled_failed : ∃ raw, Journaled (history [failed]) raw := by
  obtain ⟨row, reply, hop, hroom⟩ := reserve_empty
  have hquiet {h : Log} {raw : Bytes} (hjournal : Journaled h raw) (e : Entry)
      (he : e.call.kind = .reading ∨ e.call.kind = .cleanup) : Journaled (h ++ [e]) raw :=
    hjournal.quiet (quiet_reading he)
  have hreading : Journaled _ [] := hquiet (hquiet (.start []) ⟨.clock, .ok (.str instant.text)⟩ (.inl rfl))
    ⟨.monotonic, .ok (.float 0)⟩ (.inl rfl)
  have hreserved : Journaled _ row := hreading.appended (r := .reserved binding instant) room_empty hop
  have hfailed : Journaled _ row := hquiet (hquiet hreserved ⟨.clock, .ok (.str instant.text)⟩ (.inl rfl))
    ⟨.monotonic, .error .osError⟩ (.inl rfl)
  have hfinal : Journaled _ row := hquiet (hquiet (hquiet hfailed ⟨.clock, .ok (.str instant.text)⟩ (.inl rfl))
    ⟨.monotonic, .ok (.float 0)⟩ (.inl rfl)) ⟨.cleanup, .ok ()⟩ (.inr rfl)
  have hends : Safe (failed.events.dropLast ++ [(Record.ended binding .failed instant failedDigest).entry (.ok ())]) :=
    (run_between run_failed).phase.safe
  obtain ⟨hsafe, hpermitted⟩ := safe_snoc.mp hends
  obtain ⟨⟨row', reply', hop', -⟩, -⟩ :=
    (journaled_agrees hfinal hsafe).1.record (r := .ended binding .failed instant failedDigest) hroom hpermitted nofun
  exact ⟨_, hfinal.appended hroom hop'⟩

end Sample

omit [Runtime] in
/-- The run that fails behind its reservation, on an empty journal. -/
theorem journal_agrees_failed : ∃ raw, @Journaled .ascii (history [@Sample.failed .ascii]) raw ∧
    ∀ before e after, history [@Sample.failed .ascii] = before ++ e :: after → @Agrees .ascii before e := by
  let _ := Runtime.ascii
  obtain ⟨raw, hjournal⟩ := Sample.journaled_failed
  exact ⟨raw, hjournal, journal_agrees Sample.run_failed hjournal⟩

end HarnessConformance.Supervisor
