import HarnessConformance.Lib.HashChain
import HarnessConformance.Admission.Transcript

/-! # Conversations

What any sequence of calls makes a transcript accept: one conversation, in order, that answers every action and
completes only when it is clean. -/

namespace HarnessConformance.Admission
open Lib Lib.Outcome Lib.Lines
set_option autoImplicit false

section
variable [Runtime]

/-- The accepted frames of an execution, by their kinds. -/
structure Conversation where
  started : Json
  exchanges : List (Json × Json)
  pending : Option Json
  chunks : List Json
  cleanup : Option Json
  terminal : Option Json

/-- What the payload of a frame holds. -/
def said (frame : Json) (k : String) : Option Json := (frame.get? "payload").bind fun payload => payload.get? k

def OfKind (kind : FrameKind) (frame : Json) : Prop := frame.get? "kind" = some (.str kind.name)

/-- A result that a broker cannot complete after. -/
def Failed (frame : Json) : Prop := ∃ outcome ∈ ["DENIED", "AMBIGUOUS"], said frame "outcome" = some (.str outcome)

/-- An action on a manifest that the dispatched case owns. -/
structure Asks (t : Transcript) (frame : Json) : Prop where
  kind : OfKind .resourceAction frame
  owned : ∃ digest, said frame "manifestDigest" = some digest ∧ t.Owns digest
  named : ∃ id : ℤ, said frame "actionId" = some (.int id)

/-- A result that answers an action. -/
structure Answers (t : Transcript) (exchange : Json × Json) : Prop where
  action : Asks t exchange.1
  kind : OfKind .resourceResult exchange.2
  same : said exchange.2 "actionId" = said exchange.1 "actionId"
  outcome : ∃ verb outcome, said exchange.1 "verb" = some verb ∧ said exchange.2 "outcome" = some (.str outcome) ∧
    outcome ∈ permitted verb ++ ["DENIED", "AMBIGUOUS"]

/-- A cleanup that lists manifests of the dispatched case only. -/
structure Clears (t : Transcript) (frame : Json) : Prop where
  kind : OfKind .cleanupRecorded frame
  owned : ∃ rows, said frame "remainingResources" = some (.arr rows) ∧
    said frame "state" = some (.str (if rows = [] then "CLEAN" else "CLEANUP_PENDING")) ∧
    ∀ row ∈ rows, ∃ digest, row.get? "manifestDigest" = some digest ∧ t.Owns digest

/-- A chunk and the bytes that it carries. -/
def Carries (frame : Json) (chunk : Bytes) : Prop := OfKind .receiptChunk frame ∧
  ∃ text, said frame "dataBase64" = some (.str text) ∧ Base64.decodePadded text = some chunk

namespace Conversation

def frames (c : Conversation) : List Json :=
  c.started :: (c.exchanges.flatMap fun e => [e.1, e.2]) ++ c.pending.toList ++ c.chunks ++ c.cleanup.toList ++ c.terminal.toList

/-- The ids of the actions. -/
def ids (c : Conversation) : List (Option Json) := (c.exchanges.map Prod.fst ++ c.pending.toList).map (said · "actionId")

/-- The rules of a conversation under the binding and dispatch of a transcript, with the bytes that its chunks carry. -/
structure Orderly (t : Transcript) (c : Conversation) (data : List Bytes) : Prop where
  started : OfKind .started c.started
  exchanges : ∀ e ∈ c.exchanges, Answers t e
  pending : ∀ f ∈ c.pending, Asks t f
  chunks : List.Forall₂ Carries c.chunks data
  cleanup : ∀ f ∈ c.cleanup, Clears t f
  indexed : ∀ (i : ℕ) (f : Json), c.chunks[i]? = some f → said f "index" = some (.int i)
  terminal : ∀ f ∈ c.terminal, OfKind .terminal f ∧ said f "receiptSize" = some (.int data.flatten.length) ∧
    said f "receiptDigest" = some (.str (byteDigest data.flatten).text) ∧
    ∃ digest, said f "cleanupDigest" = some digest ∧ ∀ g ∈ c.cleanup, said g "cleanupDigest" = some digest
  answered : c.chunks ≠ [] → c.pending = none
  received : c.cleanup ≠ none → c.chunks ≠ []
  cleared : c.terminal ≠ none → c.cleanup ≠ none
  fresh : c.ids.Nodup
  size : data.flatten.length ≤ 4194304
  honest : ∀ f ∈ c.terminal, said f "status" = some (.str "COMPLETED") →
    (∀ g ∈ c.cleanup, said g "state" = some (.str "CLEAN")) ∧ ∀ e ∈ c.exchanges, ¬ Failed e.2

end Conversation

/-- The place of accepted frames: numbered from one, linked from zero, of one execution and of the dispatch. -/
structure Placed (t : Transcript) (frames : List Json) : Prop where
  numbered : ∀ (i : ℕ) (frame : Json), frames[i]? = some frame → frame.get? "sequence" = some (.int (i + 1))
  linked : HashChain.Linked (fun frame => some (Json.str (digestOf frame).text)) (fun frame => frame.get? "previousDigest")
    (some (.str zero.text)) frames
  execution : ∃ id, ∀ frame ∈ frames, frame.get? "executionId" = some id
  common : ∀ frame ∈ frames, ∀ k ∈ commonShapes.map Prod.fst, ∃ v, frame.get? k = some v ∧ t.dispatch.get? k = some v

namespace Transcript

/-- A transcript after any calls of `accept`, and the frames that were accepted. -/
def calls (t : Transcript) : List (Input × String) → Transcript × List Json
  | [] => (t, [])
  | (raw, party) :: rest =>
    match t.accept raw party with
    | (next, .ok frame) => ((next.calls rest).1, frame :: (next.calls rest).2)
    | (next, .error _) => next.calls rest

/-- A transcript after accepted frames only. -/
inductive Told (t : Transcript) : List Json → Transcript → Prop
  | nil : Told t [] t
  | snoc {frames : List Json} {u next : Transcript} {raw : Input} {party : String} {frame : Json} (h : Told t frames u)
      (haccept : u.accept raw party = (next, .ok frame)) : Told t (frames ++ [frame]) next

/-- The conversation that a live transcript has had. -/
structure Has (t u : Transcript) (c : Conversation) : Prop where
  orderly : c.Orderly t u.chunks
  begun : u.execution ≠ .null
  pending : (c.pending = none ∧ u.pending = .null) ∨ u.pending ≠ .null ∧ ∃ f, c.pending = some f ∧ f.get? "payload" = some u.pending
  cleanup : (c.cleanup = none ∧ u.cleanup = .null) ∨ u.cleanup ≠ .null ∧ ∃ f, c.cleanup = some f ∧ f.get? "payload" = some u.cleanup
  terminal : c.terminal = none ↔ u.terminal = .null
  actions : ∀ a : ℤ, some (Json.int a) ∈ c.ids → a ∈ u.actions
  failed : u.failedAction = false → ∀ e ∈ c.exchanges, ¬ Failed e.2

end Transcript

/-! ## One frame -/

omit [Runtime] in
theorem said_of_payload {frame payload : Json} (h : frame.get? "payload" = some payload) (k : String) :
    said frame k = payload.get? k := by
  rw [said, h, Option.bind_some]

omit [Runtime] in
theorem OfKind.unique {k l : FrameKind} {frame : Json} (hk : OfKind k frame) (hl : OfKind l frame) : k = l :=
  FrameKind.name_injective (Json.str.inj (Option.some.inj (hk.symm.trans hl)))

omit [Runtime] in
theorem carries_of_base64Bytes {frame payload data : Json} {chunk : Bytes} {maximum : ℕ} (hkind : OfKind .receiptChunk frame)
    (hpayload : frame.get? "payload" = some payload) (hdata : payload.get? "dataBase64" = some data)
    (h : base64Bytes data maximum = .ok chunk) : Carries frame chunk := by
  cases data with
  | str text =>
    cases hdecoded : Base64.decodePadded text with
    | none =>
      rw [base64Bytes, hdecoded] at h
      cases h
    | some raw =>
      simp only [base64Bytes, hdecoded, bind_eq_ok, pure_eq_ok] at h
      obtain ⟨-, -, rfl⟩ := h
      exact ⟨hkind, text, (said_of_payload hpayload _).trans hdata, hdecoded⟩
  | _ => cases h

namespace Conversation

variable {c : Conversation} {frame : Json}

omit [Runtime] in
theorem frames_action (hpending : c.pending = none) (hchunks : c.chunks = []) (hcleanup : c.cleanup = none)
    (hterminal : c.terminal = none) : { c with pending := some frame }.frames = c.frames ++ [frame] := by
  simp [frames, hpending, hchunks, hcleanup, hterminal]

omit [Runtime] in
theorem frames_result {action : Json} (hpending : c.pending = some action) (hchunks : c.chunks = []) (hcleanup : c.cleanup = none)
    (hterminal : c.terminal = none) :
    { c with exchanges := c.exchanges ++ [(action, frame)], pending := none }.frames = c.frames ++ [frame] := by
  simp [frames, hpending, hchunks, hcleanup, hterminal]

omit [Runtime] in
theorem frames_chunk (hcleanup : c.cleanup = none) (hterminal : c.terminal = none) :
    { c with chunks := c.chunks ++ [frame] }.frames = c.frames ++ [frame] := by
  simp [frames, hcleanup, hterminal]

omit [Runtime] in
theorem frames_cleanup (hcleanup : c.cleanup = none) (hterminal : c.terminal = none) :
    { c with cleanup := some frame }.frames = c.frames ++ [frame] := by
  simp [frames, hcleanup, hterminal]

omit [Runtime] in
theorem frames_terminal (hterminal : c.terminal = none) : { c with terminal := some frame }.frames = c.frames ++ [frame] := by
  simp [frames, hterminal]

omit [Runtime] in
theorem ids_action (hpending : c.pending = none) : { c with pending := some frame }.ids = c.ids ++ [said frame "actionId"] := by
  simp [ids, hpending]

omit [Runtime] in
theorem ids_result {action : Json} (hpending : c.pending = some action) :
    { c with exchanges := c.exchanges ++ [(action, frame)], pending := none }.ids = c.ids := by
  simp [ids, hpending]

end Conversation

namespace Transcript

variable {t u after next : Transcript} {c : Conversation} {frame payload : Json} {kind : FrameKind}

omit [Runtime] in
theorem owns_congr (hbinding : u.binding = t.binding) (hdispatch : u.dispatch = t.dispatch) {digest : Json} :
    u.Owns digest ↔ t.Owns digest := by
  rw [Owns, Owns, assigned, assigned, hbinding, hdispatch]

theorem Advance.kept (h : u.Advance frame payload kind after) : after.binding = u.binding ∧ after.dispatch = u.dispatch := by
  cases h <;> exact ⟨rfl, rfl⟩

omit [Runtime] in
theorem onRemaining_mem {rows : List Json} {seen : List (Json × Json × Json)} (h : rows.foldlM u.onRemaining [] = .ok seen) :
    ∀ row ∈ rows, ∃ digest, row.get? "manifestDigest" = some digest ∧ u.Owns digest := by
  intro row hrow
  obtain ⟨before, after, hrow⟩ := foldlM_mem h hrow
  simp only [onRemaining, bind_eq_ok, item_eq_ok, require_eq_ok, exists_const] at hrow
  obtain ⟨_, -, _, -, _, -, digest, hdigest, digests, hdigests, _, -, _, -, ⟨-, hmem, -⟩, -⟩ := hrow
  exact ⟨digest, hdigest, digests, hdigests, hmem⟩

/-- The first frame starts a conversation. -/
theorem has_started (ht : t.chunks = [] ∧ t.pending = .null ∧ t.cleanup = .null ∧ t.terminal = .null) (hkind : OfKind .started frame)
    {id : String} : Has t { t with execution := .str id } ⟨frame, [], none, [], none, none⟩ := by
  obtain ⟨hchunks, hpending, hcleanup, hterminal⟩ := ht
  refine ⟨⟨hkind, nofun, nofun, ?_, nofun, nofun, nofun, fun h => absurd rfl h, fun h => absurd rfl h, fun h => absurd rfl h,
    List.nodup_nil, ?_, nofun⟩, nofun, .inl ⟨rfl, hpending⟩, .inl ⟨rfl, hcleanup⟩, iff_of_true rfl hterminal, fun a ha => absurd ha List.not_mem_nil,
    fun _ => nofun⟩
  · dsimp only
    rw [hchunks]
    exact .nil
  · dsimp only
    rw [hchunks]
    exact Nat.zero_le _

namespace Has

variable (h : Has t u c)
include h

theorem pending_none (hpending : u.pending = .null) : c.pending = none := by
  rcases h.pending with ⟨hnone, -⟩ | ⟨hne, -⟩
  · exact hnone
  · exact absurd hpending hne

theorem pending_some (hpending : u.pending ≠ .null) : ∃ f, c.pending = some f ∧ f.get? "payload" = some u.pending := by
  rcases h.pending with ⟨-, hnull⟩ | ⟨-, hsome⟩
  · exact absurd hnull hpending
  · exact hsome

theorem cleanup_none (hcleanup : u.cleanup = .null) : c.cleanup = none := by
  rcases h.cleanup with ⟨hnone, -⟩ | ⟨hne, -⟩
  · exact hnone
  · exact absurd hcleanup hne

theorem cleanup_some (hcleanup : u.cleanup ≠ .null) : ∃ f, c.cleanup = some f ∧ f.get? "payload" = some u.cleanup := by
  rcases h.cleanup with ⟨-, hnull⟩ | ⟨-, hsome⟩
  · exact absurd hnull hcleanup
  · exact hsome

theorem chunks_nil : u.chunks = [] ↔ c.chunks = [] := by
  rw [← List.length_eq_zero_iff, ← List.length_eq_zero_iff, h.orderly.chunks.length_eq]

end Has

/-- An action waits for its result. -/
theorem Has.action (h : Has t u c) (hasks : Asks t frame)
    (hpayload : frame.get? "payload" = some payload) (hne : payload ≠ .null) (hidle : u.pending = .null ∧ u.chunks = [] ∧ u.cleanup = .null)
    {id : ℤ} (hid : payload.get? "actionId" = some (.int id)) (hfresh : id ∉ u.actions) :
    Has t { u with pending := payload, actions := insert id u.actions } { c with pending := some frame } := by
  have hpending := h.pending_none hidle.1
  have hchunks := h.chunks_nil.mp hidle.2.1
  have hcleanup := h.cleanup_none hidle.2.2
  have hsaid : said frame "actionId" = some (.int id) := (said_of_payload hpayload _).trans hid
  refine ⟨{ h.orderly with pending := ?_, answered := fun hne => absurd hchunks hne, fresh := ?_ }, h.begun, .inr ⟨hne, frame, rfl, hpayload⟩,
    h.cleanup, h.terminal, ?_, h.failed⟩
  · intro f hf
    obtain rfl := Option.some.inj hf
    exact hasks
  · rw [Conversation.ids_action hpending, hsaid]
    exact h.orderly.fresh.append (List.nodup_singleton _) (List.disjoint_singleton.mpr fun hmem => hfresh (h.actions id hmem))
  · intro a ha
    rw [Conversation.ids_action hpending, hsaid, List.mem_append, List.mem_singleton] at ha
    rcases ha with ha | ha
    · exact Finset.mem_insert_of_mem (h.actions a ha)
    · obtain rfl := Json.int.inj (Option.some.inj ha)
      exact Finset.mem_insert_self a _

/-- A result ends the exchange that waits for it. -/
theorem Has.result (h : Has t u c) (hs : u.Sound) (hopen : u.terminal = .null) (hkind : OfKind .resourceResult frame)
    (hpayload : frame.get? "payload" = some payload) {actionId verb : Json} {outcome : String}
    (hid : payload.get? "actionId" = some actionId ∧ u.pending.get? "actionId" = some actionId)
    (hverb : u.pending.get? "verb" = some verb) (houtcome : payload.get? "outcome" = some (.str outcome))
    (hpermitted : outcome ∈ permitted verb ++ ["DENIED", "AMBIGUOUS"]) :
    ∃ c' : Conversation, c'.frames = c.frames ++ [frame] ∧
      Has t { u with failedAction := u.failedAction || decide (outcome ∈ ["DENIED", "AMBIGUOUS"]), pending := .null } c' := by
  have hne : u.pending ≠ .null := fun hnull => by
    rw [hnull] at hverb
    cases hverb
  obtain ⟨action, haction, hwaiting⟩ := h.pending_some hne
  have hchunks := h.chunks_nil.mp (hs.pending hne).1
  have hcleanup := h.cleanup_none (hs.pending hne).2
  have hterminal := h.terminal.mpr hopen
  have hsaid : said frame "outcome" = some (.str outcome) := (said_of_payload hpayload _).trans houtcome
  refine ⟨{ c with exchanges := c.exchanges ++ [(action, frame)], pending := none },
    Conversation.frames_result haction hchunks hcleanup hterminal,
    { h.orderly with exchanges := ?_, pending := nofun, answered := fun _ => rfl, fresh := ?_, honest := ?_ }, h.begun, .inl ⟨rfl, rfl⟩,
    h.cleanup, h.terminal, ?_, ?_⟩
  · intro e he
    rcases List.mem_append.mp he with he | he
    · exact h.orderly.exchanges e he
    · obtain rfl := List.mem_singleton.mp he
      exact ⟨h.orderly.pending action haction, hkind,
        (said_of_payload hpayload _).trans (hid.1.trans (hid.2.symm.trans (said_of_payload hwaiting _).symm)),
        verb, outcome, (said_of_payload hwaiting _).trans hverb, hsaid, hpermitted⟩
  · rw [Conversation.ids_result haction]
    exact h.orderly.fresh
  · intro f hf
    rw [hterminal] at hf
    cases hf
  · rw [Conversation.ids_result haction]
    exact h.actions
  · intro hfalse e he
    obtain ⟨hbefore, hnow⟩ := Bool.or_eq_false_iff.mp hfalse
    rcases List.mem_append.mp he with he | he
    · exact h.failed hbefore e he
    · obtain rfl := List.mem_singleton.mp he
      rintro ⟨other, hmem, hother⟩
      obtain rfl := Json.str.inj (Option.some.inj (hsaid.symm.trans hother))
      exact absurd hmem (of_decide_eq_false hnow)

/-- A chunk adds its bytes to the receipt. -/
theorem Has.chunk (h : Has t u c) (hs : u.Sound) (hopen : u.terminal = .null) {chunk : Bytes}
    (hcarries : Carries frame chunk) (hidle : u.pending = .null ∧ u.cleanup = .null)
    (hindex : said frame "index" = some (.int u.chunks.length)) (hsize : u.receiptSize + chunk.length ≤ 4194304) :
    ∃ c' : Conversation, c'.frames = c.frames ++ [frame] ∧
      Has t { u with chunks := u.chunks ++ [chunk], receiptSize := u.receiptSize + chunk.length } c' := by
  have hcleanup := h.cleanup_none hidle.2
  have hterminal := h.terminal.mpr hopen
  have hlength := h.orderly.chunks.length_eq
  refine ⟨{ c with chunks := c.chunks ++ [frame] }, Conversation.frames_chunk hcleanup hterminal,
    { h.orderly with chunks := ?_, indexed := ?_, terminal := ?_, answered := fun _ => h.pending_none hidle.1, received := ?_, size := ?_,
                     honest := ?_ }, h.begun, h.pending, h.cleanup, h.terminal, h.actions, h.failed⟩
  · exact List.rel_append h.orderly.chunks (.cons hcarries .nil)
  · intro i f hf
    rcases Nat.lt_trichotomy i c.chunks.length with hi | rfl | hi
    · rw [List.getElem?_append_left hi] at hf
      exact h.orderly.indexed i f hf
    · rw [List.getElem?_concat_length] at hf
      obtain rfl := Option.some.inj hf
      rw [hindex, hlength]
    · rw [List.getElem?_eq_none (by simp; omega)] at hf
      cases hf
  · intro f hf
    rw [hterminal] at hf
    cases hf
  · intro _
    exact List.append_ne_nil_of_right_ne_nil _ (List.cons_ne_nil _ _)
  · rw [hs.size.1] at hsize
    simpa using hsize
  · intro f hf
    rw [hterminal] at hf
    cases hf

/-- A cleanup closes the receipt. -/
theorem Has.cleared (h : Has t u c) (hopen : u.terminal = .null) (hclears : Clears t frame)
    (hpayload : frame.get? "payload" = some payload) (hne : payload ≠ .null)
    (hready : u.pending = .null ∧ u.chunks ≠ [] ∧ u.cleanup = .null) :
    ∃ c' : Conversation, c'.frames = c.frames ++ [frame] ∧ Has t { u with cleanup := payload } c' := by
  have hcleanup := h.cleanup_none hready.2.2
  have hterminal := h.terminal.mpr hopen
  refine ⟨{ c with cleanup := some frame }, Conversation.frames_cleanup hcleanup hterminal,
    { h.orderly with cleanup := ?_, terminal := ?_, received := fun _ => mt h.chunks_nil.mpr hready.2.1,
                     cleared := fun _ => Option.some_ne_none frame, honest := ?_ },
    h.begun, h.pending, .inr ⟨hne, frame, rfl, hpayload⟩, h.terminal, h.actions, h.failed⟩
  · intro f hf
    obtain rfl := Option.some.inj hf
    exact hclears
  all_goals
    intro f hf
    rw [hterminal] at hf
    cases hf

/-- A completion agrees with the chunks, the cleanup and the exchanges before it. -/
theorem Has.ended (h : Has t u c) (hs : u.Sound) (hopen : u.terminal = .null) (hkind : OfKind .terminal frame)
    (hpayload : frame.get? "payload" = some payload) (hne : payload ≠ .null) (hready : u.pending = .null ∧ u.cleanup ≠ .null)
    (hsize : payload.get? "receiptSize" = some (.int u.receiptSize))
    (hreceipt : payload.get? "receiptDigest" = some (.str (byteDigest u.chunks.flatten).text)) {digest status state : Json}
    (hdigest : payload.get? "cleanupDigest" = some digest ∧ u.cleanup.get? "cleanupDigest" = some digest)
    (hstatus : payload.get? "status" = some status) (hstate : u.cleanup.get? "state" = some state)
    (htrue : status = .str "COMPLETED" → state = .str "CLEAN" ∧ u.failedAction = false) :
    ∃ c' : Conversation, c'.frames = c.frames ++ [frame] ∧ Has t { u with terminal := payload } c' := by
  obtain ⟨cleanup, hcleanup, hcleared⟩ := h.cleanup_some hready.2
  have hterminal := h.terminal.mpr hopen
  have hsaid (k : String) : said frame k = payload.get? k := said_of_payload hpayload k
  refine ⟨{ c with terminal := some frame }, Conversation.frames_terminal hterminal,
    { h.orderly with terminal := ?_, cleared := ?_, honest := ?_ }, h.begun, h.pending, h.cleanup, ?_, h.actions, h.failed⟩
  · intro f hf
    obtain rfl := Option.some.inj hf
    refine ⟨hkind, ?_, (hsaid _).trans hreceipt, digest, (hsaid _).trans hdigest.1, fun g hg => ?_⟩
    · rw [hsaid, hsize, hs.size.1]
    · obtain rfl := Option.some.inj (hcleanup.symm.trans hg)
      exact (said_of_payload hcleared _).trans hdigest.2
  · intro _
    rw [hcleanup]
    exact Option.some_ne_none cleanup
  · intro f hf hcompleted
    obtain rfl := Option.some.inj hf
    rw [hsaid, hstatus, Option.some.injEq] at hcompleted
    obtain ⟨hclean, hfailed⟩ := htrue hcompleted
    refine ⟨fun g hg => ?_, h.failed hfailed⟩
    obtain rfl := Option.some.inj (hcleanup.symm.trans hg)
    rw [said_of_payload hcleared, hstate, hclean]
  · exact iff_of_false (Option.some_ne_none frame) hne

theorem Has.renumbered (h : Has t u c) (n : ℕ) (d : Digest) : Has t { u with sequence := n, previous := d } c :=
  ⟨h.orderly, h.begun, h.pending, h.cleanup, h.terminal, h.actions, h.failed⟩

/-- Whatever follows the first frame extends the conversation. -/
theorem Has.advance (h : Has t u c) (hs : u.Sound) (hopen : u.terminal = .null)
    (hkept : u.binding = t.binding ∧ u.dispatch = t.dispatch) (hframed : Framed frame kind payload)
    (hadvance : u.Advance frame payload kind after) : ∃ c' : Conversation, c'.frames = c.frames ++ [frame] ∧ Has t after c' := by
  have howner {digest : Json} : u.Owns digest ↔ t.Owns digest := owns_congr hkept.1 hkept.2
  have hpayload := hframed.payload_eq
  have hne := payload_ne_null hframed
  have hsaid (k : String) : said frame k = payload.get? k := said_of_payload hpayload k
  cases hadvance with
  | started hnew => exact absurd hnew h.begun
  | action hsame hidle hid hrange hfresh hdigest howns hdocument =>
    have hasks : Asks t frame :=
      ⟨hframed.kind_eq, ⟨_, (hsaid _).trans hdigest, howner.mp howns⟩, _, (hsaid _).trans hid⟩
    exact ⟨_, Conversation.frames_action (h.pending_none hidle.1) (h.chunks_nil.mp hidle.2.1) (h.cleanup_none hidle.2.2)
      (h.terminal.mpr hopen), h.action hasks hpayload hne hidle hid hfresh⟩
  | result hsame hid hverb houtcome hpermitted hobject hpresent hread =>
    exact h.result hs hopen hframed.kind_eq hpayload hid hverb houtcome hpermitted
  | chunk hsame hidle hindex hshort hdata hchunk hsize =>
    exact h.chunk hs hopen (carries_of_base64Bytes hframed.kind_eq hpayload hdata hchunk) hidle ((hsaid _).trans hindex) hsize
  | cleanup hsame hready hrows hstate hscope hdocument =>
    refine h.cleared hopen ⟨hframed.kind_eq, _, (hsaid _).trans hrows, (hsaid _).trans hstate, fun row hrow => ?_⟩ hpayload hne hready
    obtain ⟨digest, hdigest, howns⟩ := onRemaining_mem hscope row hrow
    exact ⟨digest, hdigest, howner.mp howns⟩
  | terminal hsame hready hsize hreceipt hcleanup hstatus hstate htrue hdocument =>
    exact h.ended hs hopen hframed.kind_eq hpayload hne hready hsize hreceipt hcleanup hstatus hstate htrue

/-! ## Accepted frames -/

namespace Told

variable {frames : List Json} (h : Told t frames u)
include h

theorem reachable (ht : t.Reachable) : u.Reachable := by
  induction h with
  | nil => exact ht
  | snoc _ haccept ih => exact .accept ih haccept

theorem kept : u.binding = t.binding ∧ u.dispatch = t.dispatch := by
  induction h with
  | nil => exact ⟨rfl, rfl⟩
  | snoc _ haccept ih =>
    obtain ⟨-, hstep⟩ := accept_eq_ok.mp haccept
    obtain ⟨-, _, _, _, -, -, -, hadvance, rfl⟩ := step_eq_ok.mp hstep
    exact ⟨hadvance.kept.1.trans ih.1, hadvance.kept.2.trans ih.2⟩

end Told

/-- A transcript as `new` returns it. -/
structure Fresh (t : Transcript) : Prop where
  chain : t.sequence = 0 ∧ t.previous = zero ∧ t.execution = .null
  rest : t.chunks = [] ∧ t.pending = .null ∧ t.cleanup = .null ∧ t.terminal = .null

/-- A transcript is where its accepted frames are: their number, their last digest and their execution. -/
structure At (t u : Transcript) (frames : List Json) : Prop where
  placed : Placed t frames
  count : u.sequence = frames.length
  last : HashChain.head (fun frame => some (Json.str (digestOf frame).text)) (some (.str zero.text)) frames = some (.str u.previous.text)
  execution : (frames = [] ∧ u.execution = .null) ∨ u.execution ≠ .null ∧ ∀ frame ∈ frames, frame.get? "executionId" = some u.execution

theorem Advance.execution (h : u.Advance frame payload kind after) : after.execution ≠ .null ∧
    frame.get? "executionId" = some after.execution ∧ (u.execution ≠ .null → after.execution = u.execution) := by
  cases h with
  | started hnew hid _ => exact ⟨nofun, hid, fun hne => absurd hnew hne⟩
  | action hsame => exact ⟨hsame.1, hsame.2, fun _ => rfl⟩
  | result hsame => exact ⟨hsame.1, hsame.2, fun _ => rfl⟩
  | chunk hsame => exact ⟨hsame.1, hsame.2, fun _ => rfl⟩
  | cleanup hsame => exact ⟨hsame.1, hsame.2, fun _ => rfl⟩
  | terminal hsame => exact ⟨hsame.1, hsame.2, fun _ => rfl⟩

theorem Advance.sequence (h : u.Advance frame payload kind after) : after.sequence = u.sequence := by
  cases h <;> rfl

/-- One more accepted frame takes the next place. -/
theorem At.snoc {frames : List Json} (h : At t u frames) (hdispatch : u.dispatch = t.dispatch) (hchained : u.Chained frame)
    (hadvance : u.Advance frame payload kind after) :
    At t { after with sequence := after.sequence + 1, previous := digestOf frame } (frames ++ [frame]) := by
  obtain ⟨hbegun, hid, hsame⟩ := hadvance.execution
  have hall : ∀ f ∈ frames ++ [frame], f.get? "executionId" = some after.execution := by
    intro f hf
    rcases List.mem_append.mp hf with hf | hf
    · rcases h.execution with ⟨rfl, -⟩ | ⟨hne, hbefore⟩
      · cases hf
      · rw [hsame hne]
        exact hbefore f hf
    · obtain rfl := List.mem_singleton.mp hf
      exact hid
  refine ⟨⟨fun i f hf => ?_, ?_, ⟨_, hall⟩, fun f hf => ?_⟩, ?_, HashChain.head_snoc, .inr ⟨hbegun, hall⟩⟩
  · rcases Nat.lt_trichotomy i frames.length with hi | rfl | hi
    · rw [List.getElem?_append_left hi] at hf
      exact h.placed.numbered i f hf
    · rw [List.getElem?_concat_length] at hf
      obtain rfl := Option.some.inj hf
      rw [hchained.sequence, h.count]
    · rw [List.getElem?_eq_none (by simp; omega)] at hf
      cases hf
  · exact HashChain.linked_snoc.mpr ⟨h.placed.linked, hchained.previous.trans h.last.symm⟩
  · rcases List.mem_append.mp hf with hf | hf
    · exact h.placed.common f hf
    · obtain rfl := List.mem_singleton.mp hf
      rw [← hdispatch]
      exact hchained.common
  · rw [hadvance.sequence, h.count, List.length_append, List.length_singleton]

theorem Told.at {frames : List Json} (hfresh : t.Fresh) (h : Told t frames u) : At t u frames := by
  induction h with
  | nil =>
    obtain ⟨hsequence, hprevious, hexecution⟩ := hfresh.chain
    refine ⟨⟨nofun, trivial, ⟨.null, nofun⟩, nofun⟩, hsequence, ?_, .inl ⟨rfl, hexecution⟩⟩
    rw [hprevious, HashChain.head_nil]
  | snoc hpast haccept ih =>
    obtain ⟨-, hstep⟩ := accept_eq_ok.mp haccept
    obtain ⟨-, _, _, _, -, -, hchained, hadvance, rfl⟩ := step_eq_ok.mp hstep
    exact ih.snoc hpast.kept.2 hchained hadvance

/-- Accepted frames are a conversation that the transcript has had. -/
theorem Told.has {frames : List Json} (hfresh : t.Fresh) (ht : t.Reachable) (h : Told t frames u) :
    (frames = [] ∧ u = t) ∨ ∃ c : Conversation, c.frames = frames ∧ Has t u c := by
  induction h with
  | nil => exact .inl ⟨rfl, rfl⟩
  | snoc hpast haccept ih =>
    obtain ⟨⟨-, hopen⟩, hstep⟩ := accept_eq_ok.mp haccept
    obtain ⟨-, kind, payload, after, hframed, -, -, hadvance, rfl⟩ := step_eq_ok.mp hstep
    rcases ih with ⟨rfl, rfl⟩ | ⟨c, rfl, hhas⟩
    · cases hadvance with
      | started hnew hid hhex => exact .inr ⟨_, rfl, (has_started hfresh.rest hframed.kind_eq).renumbered _ _⟩
      | action hsame => exact absurd hfresh.chain.2.2 hsame.1
      | result hsame => exact absurd hfresh.chain.2.2 hsame.1
      | chunk hsame => exact absurd hfresh.chain.2.2 hsame.1
      | cleanup hsame => exact absurd hfresh.chain.2.2 hsame.1
      | terminal hsame => exact absurd hfresh.chain.2.2 hsame.1
    · obtain ⟨c', hframes, hhas'⟩ := hhas.advance (hpast.reachable ht).sound hopen hpast.kept hframed hadvance
      exact .inr ⟨c', hframes, hhas'.renumbered _ _⟩

/-! ## Any calls -/

/-- A closed transcript accepts nothing and stays as it is. -/
theorem calls_closed (hclosed : u.poisoned = true ∨ u.terminal ≠ .null) (requests : List (Input × String)) : u.calls requests = (u, []) := by
  induction requests with
  | nil => rfl
  | cons request requests ih =>
    obtain ⟨raw, party⟩ := request
    rw [calls, accept, if_pos hclosed]
    exact ih

/-- Calls accept the frames that the transcript was told; it may have been poisoned after them. -/
theorem calls_told {past : List Json} (h : Told t past u) (hlive : u.poisoned = false) (requests : List (Input × String)) :
    ∃ v : Transcript, Told t (past ++ (u.calls requests).2) v ∧ v.poisoned = false ∧
      ((u.calls requests).1 = v ∨ v.terminal = .null ∧ (u.calls requests).1 = { v with poisoned := true }) := by
  induction requests generalizing past u with
  | nil =>
    rw [calls, List.append_nil]
    exact ⟨u, h, hlive, .inl rfl⟩
  | cons request requests ih =>
    obtain ⟨raw, party⟩ := request
    by_cases hopen : u.terminal = .null
    · cases hstep : u.step raw party with
      | ok result =>
        obtain ⟨next, frame⟩ := result
        have haccept : u.accept raw party = (next, .ok frame) := accept_eq_ok.mpr ⟨⟨hlive, hopen⟩, hstep⟩
        have hnext : next.poisoned = false := by
          obtain ⟨-, _, _, _, -, -, -, hadvance, rfl⟩ := step_eq_ok.mp hstep
          cases hadvance <;> exact hlive
        obtain ⟨v, htold, hv, hend⟩ := ih (h.snoc haccept) hnext
        rw [List.append_assoc, List.singleton_append] at htold
        rw [calls, haccept]
        exact ⟨v, htold, hv, hend⟩
      | error e =>
        have hopened : ¬ (u.poisoned = true ∨ u.terminal ≠ .null) := by simp [hlive, hopen]
        rw [calls, accept, if_neg hopened, hstep]
        dsimp only
        rw [calls_closed (.inl rfl), List.append_nil]
        exact ⟨u, h, hlive, .inr ⟨hopen, rfl⟩⟩
    · rw [calls_closed (.inr hopen), List.append_nil]
      exact ⟨u, h, hlive, .inl rfl⟩

omit [Runtime] in
theorem receipt_eq_ok {data : Bytes} : u.receipt = .ok data ↔ (u.poisoned = false ∧ u.terminal ≠ .null) ∧ data = u.chunks.flatten := by
  simp only [receipt, bind_eq_ok, require_eq_ok, exists_const, pure_eq_ok]
  exact and_congr_right fun _ => eq_comm

/-- What a transcript holds and the frames that it accepted: no frame and no receipt, or an orderly conversation, and the receipt is
what its chunks carry once it has ended. -/
def Settled (t u : Transcript) (frames : List Json) : Prop :=
  (frames = [] ∧ ∀ data, u.receipt ≠ .ok data) ∨ ∃ (c : Conversation) (chunks : List Bytes), frames = c.frames ∧ c.Orderly t chunks ∧
    ∀ data, u.receipt = .ok data ↔ c.terminal ≠ none ∧ data = chunks.flatten

/-- Whatever calls are made, the accepted frames are numbered, linked and of one execution, and they are an orderly conversation. -/
theorem conversations {binding dispatch : Input} (hwf : binding.Wf ∧ dispatch.Wf) (h : Transcript.new binding dispatch = .ok t)
    (requests : List (Input × String)) :
    Placed t (t.calls requests).2 ∧ Settled t (t.calls requests).1 (t.calls requests).2 := by
  have ht : t.Reachable := .new hwf h
  obtain ⟨b, d, -, -, -, hnew⟩ := new_eq_ok.mp h
  have hfresh : t.Fresh := hnew ▸ ⟨⟨rfl, rfl, rfl⟩, rfl, rfl, rfl, rfl⟩
  obtain ⟨v, htold, hlive, hend⟩ := calls_told (.nil : Told t [] t) (hnew ▸ rfl) requests
  rw [List.nil_append] at htold
  refine ⟨(htold.at hfresh).placed, ?_⟩
  rcases htold.has hfresh ht with ⟨hframes, rfl⟩ | ⟨c, hframes, hhas⟩
  · refine .inl ⟨hframes, fun data hdata => (receipt_eq_ok.mp hdata).1.2 ?_⟩
    rcases hend with hend | ⟨-, hend⟩
    all_goals
      rw [hend]
      exact hfresh.rest.2.2.2
  · refine .inr ⟨c, v.chunks, hframes.symm, hhas.orderly, fun data => ?_⟩
    rw [receipt_eq_ok, ne_eq c.terminal, hhas.terminal]
    rcases hend with hend | ⟨hopen, hend⟩
    all_goals rw [hend]
    · exact and_congr_left' ⟨fun h => h.2, fun h => ⟨hlive, h⟩⟩
    · exact iff_of_false (fun h => by cases h.1.1) fun h => h.1 hopen

end Transcript

end

/-- A broker starts an execution. -/
theorem conversations_started : ∃ t requests frame, (@Transcript.calls .ascii t requests).2 = [frame] ∧ @Placed .ascii t [frame] := by
  let _ := Runtime.ascii
  obtain ⟨next, haccept⟩ := TranscriptSample.accept_started
  have hframes : (TranscriptSample.opened.calls [(.data TranscriptSample.started, "BROKER")]).2 = [TranscriptSample.started.canon] := by
    rw [Transcript.calls, haccept]
    rfl
  have hplaced := (Transcript.conversations TranscriptSample.wf_inputs TranscriptSample.new_opened
    [(.data TranscriptSample.started, "BROKER")]).1
  rw [hframes] at hplaced
  exact ⟨_, _, _, hframes, hplaced⟩

end HarnessConformance.Admission
