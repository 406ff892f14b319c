import HarnessConformance.Admission.Transcript

/-! # Two ends of one transcript

The broker and the server each keep a transcript of one execution. What either accepts from its own side it sends as
canonical bytes, and the other end accepts those bytes and comes to the same state. -/

namespace HarnessConformance.Admission
open Lib Lib.Outcome Lib.Lines
set_option autoImplicit false

/-- The two ends. -/
inductive Party where
  | server
  | broker
  deriving DecidableEq

namespace Party

def name : Party → String
  | server => "SERVER"
  | broker => "BROKER"

def other : Party → Party
  | server => broker
  | broker => server

@[simp] theorem other_other (p : Party) : p.other.other = p := by
  cases p <;> rfl

theorem other_ne (p : Party) : p.other ≠ p := by
  cases p <;> decide

theorem eq_or_other (p q : Party) : q = p ∨ q = p.other := by
  cases p <;> cases q <;> decide

end Party

/-- What one end tries to send: the server a payload of some kind, the broker any frame. -/
inductive Attempt where
  | server (kind : String) (payload : Json)
  | broker (raw : Input)

namespace Attempt

def party : Attempt → Party
  | server _ _ => .server
  | broker _ => .broker

/-- Plain data has no repeated keys. -/
def Wf : Attempt → Prop
  | server _ payload => payload.Wf
  | broker raw => raw.Wf

end Attempt

section
variable [Runtime]

namespace Transcript

/-- The transcript of the sender after an attempt, and the bytes that it sends. -/
def send (t : Transcript) : Attempt → Transcript × Py Bytes
  | .server kind payload => t.serverFrame kind payload
  | .broker raw =>
    match t.accept raw "BROKER" with
    | (after, .ok frame) => (after, canonicalBytes frame)
    | (after, .error e) => (after, .error e)

variable {t next : Transcript} {frame : Json} {party : String}

/-! ## Data and bytes -/

theorem brokerDocument_entries {v : Json} (hv : v.Wf) {raw : Bytes} (hraw : canonicalBytes v = .ok raw) (variant : BrokerVariant) :
    brokerDocument (.data v) variant = .ok frame ↔ brokerDocument (.bytes raw) variant = .ok frame := by
  obtain ⟨hvalid, rfl⟩ := canonicalBytes_eq_ok.mp hraw
  rw [brokerDocument_eq_ok, brokerDocument_eq_ok]
  refine and_congr_left' ?_
  rw [document_data_iff hv, document_bytes_iff]
  constructor
  · rintro ⟨-, hheight, hwidth, rfl⟩
    rw [Json.height_canon, Json.width_canon]
    exact ⟨canonical_canon hv hvalid, (canonicalText_canon v).symm, hheight, hwidth⟩
  · rintro ⟨hcanonical, htext, hheight, hwidth⟩
    have hframe : frame = v.canon := by
      rw [← hcanonical.canon]
      exact ((canonicalText_injective hv hcanonical.wf).mp htext).symm
    rw [hframe, Json.height_canon] at hheight
    rw [hframe, Json.width_canon] at hwidth
    exact ⟨hvalid, hheight, hwidth, hframe⟩

theorem step_entries {v : Json} (hv : v.Wf) {raw : Bytes} (hraw : canonicalBytes v = .ok raw) :
    t.step (.data v) party = .ok (next, frame) ↔ t.step (.bytes raw) party = .ok (next, frame) := by
  rw [step_eq_ok, step_eq_ok, brokerDocument_entries hv hraw]

/-- A frame and its canonical bytes are accepted alike, and leave one transcript. -/
theorem accept_entries {v : Json} (hv : v.Wf) {raw : Bytes} (hraw : canonicalBytes v = .ok raw) :
    (t.accept (.data v) party).1 = (t.accept (.bytes raw) party).1 ∧
      ∀ frame, (t.accept (.data v) party).2 = .ok frame ↔ (t.accept (.bytes raw) party).2 = .ok frame := by
  rw [accept, accept]
  by_cases hclosed : t.poisoned = true ∨ t.terminal ≠ .null
  · rw [if_pos hclosed, if_pos hclosed]
    exact ⟨rfl, fun _ => Iff.rfl⟩
  · rw [if_neg hclosed, if_neg hclosed]
    cases hdata : t.step (.data v) party with
    | ok result =>
      obtain ⟨after, read⟩ := result
      rw [(step_entries hv hraw).mp hdata]
      exact ⟨rfl, fun _ => Iff.rfl⟩
    | error e =>
      cases hbytes : t.step (.bytes raw) party with
      | ok result =>
        obtain ⟨after, read⟩ := result
        rw [(step_entries hv hraw).mpr hbytes] at hdata
        cases hdata
      | error e' => exact ⟨rfl, fun frame => iff_of_false (by rintro ⟨⟩) (by rintro ⟨⟩)⟩

/-- An accepted frame is accepted again from its own bytes. -/
theorem accept_bytes {raw : Input} (hwf : raw.Wf) (h : t.accept raw party = (next, .ok frame)) :
    ∃ data, canonicalBytes frame = .ok data ∧ t.accept (.bytes data) party = (next, .ok frame) := by
  obtain ⟨hopen, hstep⟩ := accept_eq_ok.mp h
  obtain ⟨hread, hrest⟩ := step_eq_ok.mp hstep
  obtain ⟨hdocument, haccepts⟩ := brokerDocument_eq_ok.mp hread
  have hcanonical := document_canonical hdocument
  have hsmall : frame.height ≤ 16 ∧ frame.width ≤ BrokerVariant.frame.maximum ∧ frame.width ≤ maxFileBytes := by
    cases raw with
    | bytes data => exact (document_bytes_iff.mp hdocument).2.2
    | data v =>
      obtain ⟨-, hheight, hwidth, rfl⟩ := (document_data_iff hwf).mp hdocument
      rw [Json.height_canon, Json.width_canon]
      exact ⟨hheight, hwidth⟩
    | foreign => cases hdocument
  refine ⟨_, canonicalBytes_eq_ok.mpr ⟨hcanonical.valid, rfl⟩, accept_eq_ok.mpr ⟨hopen, step_eq_ok.mpr ⟨?_, hrest⟩⟩⟩
  exact brokerDocument_eq_ok.mpr ⟨document_bytes_iff.mpr ⟨hcanonical, rfl, hsmall⟩, haccepts⟩

/-! ## What is sent -/

/-- The frame that the server builds has no repeated keys. -/
theorem wf_nextFrame (ht : t.Reachable) {kind : String} {payload : Json} (hpayload : payload.Wf)
    (h : t.nextFrame kind payload = .ok frame) : frame.Wf := by
  simp only [nextFrame, bind_eq_ok, pure_eq_ok, mapM_eq_ok] at h
  obtain ⟨common, hcommon, rfl⟩ := h
  have hkeys : Json.keys common = commonShapes.map Prod.fst := by
    rw [Json.keys, ← List.forall₂_eq_eq_eq, List.forall₂_map_left_iff]
    refine hcommon.flip.imp fun m k hm => ?_
    obtain ⟨_, -, rfl⟩ := hm
    rfl
  refine Json.wf_obj.mpr ⟨?_, fun m hm => ?_⟩
  · have hall : Json.keys (("schemaVersion", Json.str "planeon.internal.broker-frame/v1") :: common ++
        [("executionId", t.execution), ("sequence", .int (t.sequence + 1)), ("previousDigest", .str t.previous.text),
          ("kind", .str kind), ("payload", payload)]) =
        "schemaVersion" :: commonShapes.map Prod.fst ++ ["executionId", "sequence", "previousDigest", "kind", "payload"] := by
      rw [Json.keys, List.map_append, List.map_cons, ← Json.keys, hkeys]
      rfl
    rw [hall]
    decide
  · rcases List.mem_append.mp hm with hm | hm
    · rcases List.mem_cons.mp hm with rfl | hm
      · trivial
      · obtain ⟨k, -, hk⟩ := forall₂_mem_right hcommon hm
        simp only [item_eq_ok] at hk
        obtain ⟨v, hv, rfl⟩ := hk
        exact ht.opened.dispatch.1.wf.get? hv
    · have hexecution := ht.sound.stored.1.canonical.wf
      simp only [List.mem_cons, List.not_mem_nil, or_false] at hm
      rcases hm with rfl | rfl | rfl | rfl | rfl
      · exact hexecution
      · trivial
      · trivial
      · trivial
      · exact hpayload

/-- Whatever one end sends, the other accepts from the same state, and both come to one state. -/
theorem send_accepted (ht : t.Reachable) {attempt : Attempt} (hwf : attempt.Wf) {raw : Bytes} (h : t.send attempt = (next, .ok raw)) :
    ∃ frame, t.accept (.bytes raw) attempt.party.name = (next, .ok frame) := by
  cases attempt with
  | server kind payload =>
    rw [send, serverFrame] at h
    split at h
    · cases h
    · split at h
      · cases h
      · rename_i built hbuilt
        split at h
        · rename_i after frame haccept
          obtain ⟨rfl, hraw⟩ := Prod.mk.inj h
          have hentries := @accept_entries _ t "SERVER" _ (wf_nextFrame ht hwf hbuilt) _ hraw
          rw [haccept] at hentries
          exact ⟨frame, Prod.ext hentries.1.symm ((hentries.2 frame).mp rfl)⟩
        · cases h
  | broker input =>
    rw [send] at h
    split at h
    · rename_i after frame haccept
      obtain ⟨rfl, hraw⟩ := Prod.mk.inj h
      obtain ⟨data, hdata, hagain⟩ := accept_bytes hwf haccept
      obtain rfl := Except.ok.inj (hdata.symm.trans hraw)
      exact ⟨frame, hagain⟩
    · cases h

end Transcript

/-! ## Runs -/

/-- One end: its transcript, the states after each accepted frame, and whether its run has ended. -/
structure Side where
  transcript : Transcript
  states : List Transcript
  ended : Bool

/-- Both ends of an execution. -/
abbrev Link := Party → Side

namespace Link

/-- Both ends before the first frame. -/
def start (t : Transcript) : Link := fun _ => ⟨t, [], false⟩

/-- An end takes a frame that it has accepted. -/
def took (l : Link) (p : Party) (next : Transcript) : Link :=
  Function.update l p ⟨next, (l p).states ++ [next], (l p).ended⟩

/-- An end stops at a frame that it has refused. -/
def stopped (l : Link) (p : Party) (next : Transcript) : Link := Function.update l p ⟨next, (l p).states, true⟩

/-- Bytes reach an end that still runs, with what its transcript answers. -/
def deliver (l : Link) (p : Party) (raw : Bytes) (party : String) : Link × Option (Py Json) :=
  if (l p).ended then (l, none)
  else
    match (l p).transcript.accept (.bytes raw) party with
    | (next, .ok frame) => (l.took p next, some (.ok frame))
    | (next, .error e) => (l.stopped p next, some (.error e))

/-- One attempt: an end that still runs sends what it accepts to the other, and stops at what it refuses. -/
def step (l : Link) (attempt : Attempt) : Link × Option (Py Json) :=
  if (l attempt.party).ended then (l, none)
  else
    match (l attempt.party).transcript.send attempt with
    | (next, .ok raw) => (l.took attempt.party next).deliver attempt.party.other raw attempt.party.name
    | (next, .error _) => (l.stopped attempt.party next, none)

/-- Both ends after any attempts, and every answer to a delivery. -/
def run (l : Link) : List Attempt → Link × List (Py Json)
  | [] => (l, [])
  | attempt :: attempts => (((l.step attempt).1.run attempts).1, (l.step attempt).2.toList ++ ((l.step attempt).1.run attempts).2)

/-- Both ends run in one state, or one of them has stopped behind the other. -/
inductive Level (l : Link) : Prop
  | together (running : ∀ p, (l p).ended = false) (same : ∀ p, l p.other = l p) (reachable : ∀ p, (l p).transcript.Reachable)
  | behind (p : Party) (ended : (l p).ended = true) (states : (l p).states <+: (l p.other).states)
      (reachable : (l p.other).ended = false → (l p.other).transcript.Reachable)

variable {l : Link} {attempt : Attempt} {p : Party} {next : Transcript}

omit [Runtime] in
@[simp] theorem took_self : (l.took p next) p = ⟨next, (l p).states ++ [next], (l p).ended⟩ := Function.update_self ..

omit [Runtime] in
@[simp] theorem took_other : (l.took p next) p.other = l p.other := Function.update_of_ne p.other_ne ..

omit [Runtime] in
@[simp] theorem stopped_self : (l.stopped p next) p = ⟨next, (l p).states, true⟩ := Function.update_self ..

omit [Runtime] in
@[simp] theorem stopped_other : (l.stopped p next) p.other = l p.other := Function.update_of_ne p.other_ne ..

omit [Runtime] in
/-- Two ends are all there are. -/
theorem forall_party {P : Party → Prop} (p : Party) : (∀ q, P q) ↔ P p ∧ P p.other := by
  refine ⟨fun h => ⟨h p, h p.other⟩, fun h q => ?_⟩
  rcases p.eq_or_other q with rfl | rfl
  · exact h.1
  · exact h.2

/-- From one state a delivery is accepted and both ends move on together. -/
theorem level_delivered (hrunning : ∀ q, (l q).ended = false) (hsame : ∀ q, l q.other = l q) (ht : (l p).transcript.Reachable)
    {raw : Bytes} {frame : Json} (haccept : (l p).transcript.accept (.bytes raw) p.name = (next, .ok frame)) :
    Level ((l.took p next).deliver p.other raw p.name).1 ∧ ((l.took p next).deliver p.other raw p.name).2 = some (.ok frame) := by
  have hother : (l.took p next).deliver p.other raw p.name = ((l.took p next).took p.other next, some (.ok frame)) := by
    rw [deliver, took_other, if_neg (by simp [hrunning]), hsame, haccept]
  have hself : ((l.took p next).took p.other next) p = ⟨next, (l p).states ++ [next], (l p).ended⟩ := by
    have := @took_other (l.took p next) p.other next
    rwa [Party.other_other, took_self] at this
  have hall : ∀ q, ((l.took p next).took p.other next) q = ⟨next, (l p).states ++ [next], (l p).ended⟩ := by
    refine (forall_party p).mpr ⟨hself, ?_⟩
    rw [took_self, took_other, hsame]
  rw [hother]
  dsimp only
  refine ⟨.together (fun q => ?_) (fun q => ?_) fun q => ?_, rfl⟩
  · rw [hall]
    exact hrunning p
  · rw [hall, hall]
  · rw [hall]
    exact .accept ht haccept

/-- One attempt keeps the ends level, and a delivery is never refused. -/
theorem Level.step (h : Level l) (hwf : attempt.Wf) : Level (l.step attempt).1 ∧
    ∀ reply ∈ (l.step attempt).2, ∃ frame, reply = .ok frame := by
  rw [Link.step]
  by_cases hended : (l attempt.party).ended = true
  · rw [if_pos hended]
    exact ⟨h, nofun⟩
  rw [if_neg hended]
  cases h with
  | together hrunning hsame hreachable =>
    split
    · rename_i next raw hsend
      obtain ⟨frame, haccept⟩ := Transcript.send_accepted (hreachable _) hwf hsend
      obtain ⟨hlevel, hreply⟩ := level_delivered hrunning hsame (hreachable _) haccept
      refine ⟨hlevel, fun reply hmem => ⟨frame, ?_⟩⟩
      rw [hreply] at hmem
      exact (Option.some.inj hmem).symm
    · dsimp only
      refine ⟨.behind attempt.party ?_ ?_ fun _ => ?_, nofun⟩
      · rw [stopped_self]
      · rw [stopped_self, stopped_other, hsame]
      · rw [stopped_other]
        exact hreachable _
  | behind p hp hstates hreachable =>
    -- The end that has stopped does not attempt anything.
    have hother : attempt.party = p.other := by
      rcases p.eq_or_other attempt.party with heq | heq
      · exact absurd (heq ▸ hp) hended
      · exact heq
    rw [hother] at hended ⊢
    have hreachable := hreachable (Bool.eq_false_of_not_eq_true hended)
    split
    · rename_i next raw hsend
      obtain ⟨frame, haccept⟩ := Transcript.send_accepted hreachable hwf hsend
      have hself : (l.took p.other next) p = l p := by
        have := @took_other l p.other next
        rwa [Party.other_other] at this
      rw [deliver, Party.other_other, hself, if_pos hp]
      dsimp only
      refine ⟨.behind p ?_ ?_ fun _ => ?_, nofun⟩
      · rw [hself]
        exact hp
      · rw [hself, took_self]
        exact hstates.trans (List.prefix_append _ _)
      · rw [took_self]
        exact .accept hreachable haccept
    · rename_i next e hsend
      have hself : (l.stopped p.other next) p = l p := by
        have := @stopped_other l p.other next
        rwa [Party.other_other] at this
      dsimp only
      refine ⟨.behind p ?_ ?_ fun h => ?_, nofun⟩
      · rw [hself]
        exact hp
      · rw [hself, stopped_self]
        exact hstates
      · rw [stopped_self] at h
        cases h

/-- Any attempts keep the ends level, and no delivery is refused. -/
theorem Level.run (h : Level l) {attempts : List Attempt} (hwf : ∀ attempt ∈ attempts, attempt.Wf) : Level (l.run attempts).1 ∧
    ∀ reply ∈ (l.run attempts).2, ∃ frame, reply = .ok frame := by
  induction attempts generalizing l with
  | nil => exact ⟨h, nofun⟩
  | cons attempt attempts ih =>
    rw [List.forall_mem_cons] at hwf
    obtain ⟨hlevel, hreply⟩ := h.step hwf.1
    obtain ⟨hrest, hreplies⟩ := ih hlevel hwf.2
    refine ⟨hrest, fun reply hmem => ?_⟩
    rcases List.mem_append.mp hmem with hmem | hmem
    · exact hreply reply (Option.mem_toList.mp hmem)
    · exact hreplies reply hmem

/-- What holds of both ends after any attempts, with the answers to all deliveries. -/
structure InStep (l : Link) (replies : List (Py Json)) : Prop where
  delivered : ∀ reply ∈ replies, ∃ frame, reply = .ok frame
  together : (∀ p, (l p).ended = false) → l .server = l .broker
  common : ∀ (n : ℕ) (t u : Transcript), (l .server).states[n]? = some t → (l .broker).states[n]? = some u → t = u

theorem Level.common (h : Level l) (n : ℕ) {t u : Transcript} (ht : (l .server).states[n]? = some t)
    (hu : (l .broker).states[n]? = some u) : t = u := by
  have hprefix : (l .server).states <+: (l .broker).states ∨ (l .broker).states <+: (l .server).states := by
    cases h with
    | together _ hsame _ => exact .inl (hsame .broker ▸ List.prefix_rfl)
    | behind p _ hstates _ =>
      cases p with
      | server => exact .inl hstates
      | broker => exact .inr hstates
  rcases hprefix with ⟨more, hmore⟩ | ⟨more, hmore⟩
  · rw [← hmore, List.getElem?_append_left (List.getElem?_eq_some_iff.mp ht).1, ht] at hu
    exact Option.some.inj hu
  · rw [← hmore, List.getElem?_append_left (List.getElem?_eq_some_iff.mp hu).1, hu] at ht
    exact (Option.some.inj ht).symm

/-- Whatever either end attempts, the other accepts all that it is sent, and after the same number of frames the two transcripts are
one. -/
theorem lockstep {binding dispatch : Input} (hwf : binding.Wf ∧ dispatch.Wf) {t : Transcript} (h : Transcript.new binding dispatch = .ok t)
    {attempts : List Attempt} (hattempts : ∀ attempt ∈ attempts, attempt.Wf) :
    InStep ((start t).run attempts).1 ((start t).run attempts).2 := by
  have ht : t.Reachable := .new hwf h
  have hstart : Level (start t) := .together (fun _ => rfl) (fun _ => rfl) fun _ => ht
  obtain ⟨hlevel, hreplies⟩ := hstart.run hattempts
  refine ⟨hreplies, fun hrunning => ?_, fun n _ _ => hlevel.common n⟩
  cases hlevel with
  | together _ hsame _ => exact hsame .broker
  | behind p hended => exact absurd ((hrunning p).symm.trans hended) (by decide)

end Link

end

/-- The broker starts an execution, and the server follows. -/
theorem lockstep_started : ∃ t attempts, attempts ≠ [] ∧
    Link.InStep (@Link.run .ascii (Link.start t) attempts).1 (@Link.run .ascii (Link.start t) attempts).2 := by
  let _ := Runtime.ascii
  refine ⟨TranscriptSample.opened, [.broker (.data TranscriptSample.started)], List.cons_ne_nil _ _, ?_⟩
  exact Link.lockstep TranscriptSample.wf_inputs TranscriptSample.new_opened
    (List.forall_mem_singleton.mpr TranscriptSample.wf_started)

end HarnessConformance.Admission
