import HarnessConformance.Admission.Broker

/-! # Transcripts of an execution

What one accepted frame does to a broker transcript, and what holds of every transcript that frames reach. -/

namespace HarnessConformance.Admission
open Lib Lib.Outcome Lib.Lines
set_option autoImplicit false

section
variable [Runtime]

/-! ## Documents -/

theorem pinned_variant (variant : BrokerVariant) : Pinned variant.shape := by
  cases variant with
  | binding => exact pinned_of_flat (by decide)
  | dispatch => exact pinned_of_flat (by decide +kernel)
  | frame => exact pinned_of_flat (by decide +kernel)

theorem brokerDocument_eq_ok {input : Input} {variant : BrokerVariant} {v : Json} :
    brokerDocument input variant = .ok v ↔ document input variant.maximum = .ok v ∧ variant.shape.Accepts v := by
  simp only [brokerDocument, bind_eq_ok, pure_eq_ok]
  constructor
  · rintro ⟨w, hw, _, hshape, rfl⟩
    have hcanonical := document_canonical hw
    exact ⟨hw, (shape_eq_ok (pinned_variant variant) ⟨hcanonical.wf, hcanonical.valid⟩).mp hshape⟩
  · rintro ⟨hv, haccepts⟩
    have hcanonical := document_canonical hv
    exact ⟨v, hv, (), (shape_eq_ok (pinned_variant variant) ⟨hcanonical.wf, hcanonical.valid⟩).mpr haccepts, rfl⟩

/-- A frame of some kind, with its payload. -/
structure Framed (frame : Json) (kind : FrameKind) (payload : Json) : Prop where
  canonical : Canonical frame
  accepts : (Shape.obj (frameShapes kind)).Accepts frame
  kind_eq : frame.get? "kind" = some (.str kind.name)
  payload_eq : frame.get? "payload" = some payload
  content : (Shape.obj (payloadShapes kind)).Accepts payload

theorem framed_of_brokerDocument {input : Input} {frame : Json} (h : brokerDocument input .frame = .ok frame) :
    ∃ kind payload, Framed frame kind payload := by
  obtain ⟨hdocument, haccepts⟩ := brokerDocument_eq_ok.mp h
  obtain ⟨s, hs, haccepts⟩ := haccepts.exists
  obtain ⟨kind, -, rfl⟩ := List.mem_map.mp hs
  obtain ⟨w, hkind, hw⟩ := haccepts.get? (k := "kind") (s := .const (.str kind.name)) rfl
  obtain ⟨payload, hpayload, hcontent⟩ := haccepts.get? (k := "payload") (s := .obj (payloadShapes kind)) rfl
  exact ⟨kind, payload, document_canonical hdocument, haccepts, Shape.accepts_str.mp hw ▸ hkind, hpayload, hcontent⟩

namespace Framed

variable {frame payload : Json} {kind : FrameKind} (h : Framed frame kind payload)
include h

/-- A payload lies one level down in a frame that is valid. -/
theorem valid_payload : ValidAt 1 payload := by
  obtain ⟨members, rfl, -⟩ := h.accepts
  exact (validAt_obj.mp h.canonical.valid).2.2 _ (Json.lookup_mem h.payload_eq) |>.2.2

theorem canonical_payload : Canonical payload :=
  ⟨h.canonical.wf.get? h.payload_eq, Json.canon_get? h.canonical.wf h.canonical.canon h.payload_eq, h.valid_payload.mono (Nat.zero_le _)⟩

/-- A payload that is stored is stored as it is. -/
theorem document_payload {v : Json} (hv : document (.data payload) 16384 = .ok v) : v = payload :=
  (document_data_wf h.canonical_payload.wf hv).trans h.canonical_payload.canon

theorem executionId : ∃ id, frame.get? "executionId" = some (.str id) ∧ hexPattern.fullmatch id = true := by
  obtain ⟨w, hw, id, rfl, -, -, hid⟩ := h.accepts.get? (k := "executionId") (s := hexShape) rfl
  exact ⟨id, hw, hid _ rfl⟩

end Framed

/-! ## One frame -/

namespace Transcript

/-- The digests of the manifests that the dispatched case owns. -/
def Owns (t : Transcript) (digest : Json) : Prop := ∃ digests, t.assigned = .ok digests ∧ digest ∈ digests

/-- What an accepted frame of each kind finds and does, the chain apart. -/
inductive Advance (t : Transcript) (frame payload : Json) : FrameKind → Transcript → Prop
  | started {id : String} (hnew : t.execution = .null) (hid : frame.get? "executionId" = some (.str id))
      (hhex : hexPattern.fullmatch id = true) : Advance t frame payload .started { t with execution := .str id }
  | action {actionId : ℤ} {digest : Json} (hsame : t.execution ≠ .null ∧ frame.get? "executionId" = some t.execution)
      (hidle : t.pending = .null ∧ t.chunks = [] ∧ t.cleanup = .null) (hid : payload.get? "actionId" = some (.int actionId))
      (hrange : 1 ≤ actionId ∧ actionId ≤ 256) (hfresh : actionId ∉ t.actions)
      (hdigest : payload.get? "manifestDigest" = some digest) (howns : t.Owns digest)
      (hdocument : document (.data payload) 16384 = .ok payload) :
      Advance t frame payload .resourceAction { t with pending := payload, actions := insert actionId t.actions }
  | result {actionId verb object : Json} {outcome : String} (hsame : t.execution ≠ .null ∧ frame.get? "executionId" = some t.execution)
      (hid : payload.get? "actionId" = some actionId ∧ t.pending.get? "actionId" = some actionId)
      (hverb : t.pending.get? "verb" = some verb) (houtcome : payload.get? "outcome" = some (.str outcome))
      (hpermitted : outcome ∈ permitted verb ++ ["DENIED", "AMBIGUOUS"]) (hobject : payload.get? "objectBase64" = some object)
      (hpresent : outcome ∈ ["CREATED", "PRESENT"] ↔ object ≠ .null)
      (hread : object ≠ .null → ∃ raw members, base64Bytes object 16384 = .ok raw ∧
        document (.bytes raw) 16384 = .ok (.obj members)) :
      Advance t frame payload .resourceResult
        { t with failedAction := t.failedAction || decide (outcome ∈ ["DENIED", "AMBIGUOUS"]), pending := .null }
  | chunk {chunk : Bytes} {data : Json} (hsame : t.execution ≠ .null ∧ frame.get? "executionId" = some t.execution)
      (hidle : t.pending = .null ∧ t.cleanup = .null) (hindex : payload.get? "index" = some (.int t.chunks.length))
      (hshort : t.chunks.length ≤ 170) (hdata : payload.get? "dataBase64" = some data) (hchunk : base64Bytes data 24576 = .ok chunk)
      (hsize : t.receiptSize + chunk.length ≤ 4194304) : Advance t frame payload .receiptChunk
        { t with chunks := t.chunks ++ [chunk], receiptSize := t.receiptSize + chunk.length }
  | cleanup {rows : List Json} {seen : List (Json × Json × Json)}
      (hsame : t.execution ≠ .null ∧ frame.get? "executionId" = some t.execution)
      (hready : t.pending = .null ∧ t.chunks ≠ [] ∧ t.cleanup = .null) (hrows : payload.get? "remainingResources" = some (.arr rows))
      (hstate : payload.get? "state" = some (.str (if rows = [] then "CLEAN" else "CLEANUP_PENDING")))
      (hscope : rows.foldlM t.onRemaining [] = .ok seen) (hdocument : document (.data payload) 16384 = .ok payload) :
      Advance t frame payload .cleanupRecorded { t with cleanup := payload }
  | terminal {status state digest : Json} (hsame : t.execution ≠ .null ∧ frame.get? "executionId" = some t.execution)
      (hready : t.pending = .null ∧ t.cleanup ≠ .null) (hsize : payload.get? "receiptSize" = some (.int t.receiptSize))
      (hreceipt : payload.get? "receiptDigest" = some (.str (byteDigest t.chunks.flatten).text))
      (hcleanup : payload.get? "cleanupDigest" = some digest ∧ t.cleanup.get? "cleanupDigest" = some digest)
      (hstatus : payload.get? "status" = some status) (hstate : t.cleanup.get? "state" = some state)
      (htrue : status = .str "COMPLETED" → state = .str "CLEAN" ∧ t.failedAction = false)
      (hdocument : document (.data payload) 16384 = .ok payload) :
      Advance t frame payload .terminal { t with terminal := payload }

/-- The place of a frame in the chain of a transcript. -/
structure Chained (t : Transcript) (frame : Json) : Prop where
  common : ∀ k ∈ commonShapes.map Prod.fst, ∃ v, frame.get? k = some v ∧ t.dispatch.get? k = some v
  sequence : frame.get? "sequence" = some (.int (t.sequence + 1))
  previous : frame.get? "previousDigest" = some (.str t.previous.text)

section
variable {t after : Transcript} {frame payload : Json} {kind : FrameKind}

omit [Runtime] in
theorem checkChain_eq_ok {u : Unit} : t.checkChain frame = .ok u ↔ t.Chained frame := by
  simp only [checkChain, bind_eq_ok, item_eq_ok, require_eq_ok]
  constructor
  · rintro ⟨_, hcommon, _, hsequence, _, hprevious, rfl, rfl⟩
    refine ⟨fun k hk => ?_, hsequence, hprevious⟩
    have hk := forM_eq_ok.mp hcommon k hk
    simp only [bind_eq_ok, item_eq_ok, require_eq_ok] at hk
    obtain ⟨v, hv, w, hw, rfl⟩ := hk
    exact ⟨v, hv, hw⟩
  · rintro ⟨hcommon, hsequence, hprevious⟩
    refine ⟨(), forM_eq_ok.mpr fun k hk => ?_, _, hsequence, _, hprevious, rfl, rfl⟩
    obtain ⟨v, hv, hw⟩ := hcommon k hk
    simp only [bind_eq_ok, item_eq_ok, require_eq_ok]
    exact ⟨v, hv, v, hw, rfl⟩

omit [Runtime] in
theorem checkExecution_eq_ok : t.checkExecution frame (.str kind.name) = .ok after ↔
    (t.execution = .null ∧ kind = .started ∧ ∃ id, frame.get? "executionId" = some id ∧ after = { t with execution := id }) ∨
      (t.execution ≠ .null ∧ kind ≠ .started ∧ frame.get? "executionId" = some t.execution ∧ after = t) := by
  have hname : Json.str kind.name = .str "STARTED" ↔ kind = .started :=
    ⟨fun h => FrameKind.name_injective (Json.str.inj h), fun h => h ▸ rfl⟩
  rw [checkExecution]
  by_cases hexecution : t.execution = .null
  · rw [if_pos hexecution]
    simp only [bind_eq_ok, require_eq_ok, exists_const, item_eq_ok, pure_eq_ok, hname]
    constructor
    · rintro ⟨hkind, id, hid, rfl⟩
      exact .inl ⟨hexecution, hkind, id, hid, rfl⟩
    · rintro (⟨-, hkind, id, hid, rfl⟩ | ⟨hne, -⟩)
      · exact ⟨hkind, id, hid, rfl⟩
      · exact absurd hexecution hne
  · rw [if_neg hexecution]
    simp only [bind_eq_ok, require_eq_ok, exists_const, item_eq_ok, pure_eq_ok, ne_eq, hname]
    constructor
    · rintro ⟨_, hid, ⟨rfl, hkind⟩, rfl⟩
      exact .inr ⟨hexecution, hkind, hid, rfl⟩
    · rintro (⟨hnull, -⟩ | ⟨-, hkind, hid, rfl⟩)
      · exact absurd hnull hexecution
      · exact ⟨_, hid, ⟨rfl, hkind⟩, rfl⟩

theorem onAction_eq_ok : t.onAction payload = .ok after ↔ ∃ actionId digest,
    payload.get? "actionId" = some (.int actionId) ∧ payload.get? "manifestDigest" = some digest ∧
    (t.pending = .null ∧ t.chunks = [] ∧ t.cleanup = .null) ∧ actionId ∉ t.actions ∧ t.Owns digest ∧
    ∃ pending, document (.data payload) 16384 = .ok pending ∧
      after = { t with pending := pending, actions := insert actionId t.actions } := by
  simp only [onAction, bind_eq_ok, intItem_eq_ok, item_eq_ok, require_eq_ok, exists_const, pure_eq_ok, Owns]
  constructor
  · rintro ⟨actionId, hid, digest, hdigest, digests, hdigests, ⟨hpending, hchunks, hcleanup, hfresh, hmem⟩, pending, hdocument, rfl⟩
    exact ⟨actionId, digest, hid, hdigest, ⟨hpending, hchunks, hcleanup⟩, hfresh, ⟨digests, hdigests, hmem⟩, pending, hdocument, rfl⟩
  · rintro ⟨actionId, digest, hid, hdigest, ⟨hpending, hchunks, hcleanup⟩, hfresh, ⟨digests, hdigests, hmem⟩, pending, hdocument, rfl⟩
    exact ⟨actionId, hid, digest, hdigest, digests, hdigests, ⟨hpending, hchunks, hcleanup, hfresh, hmem⟩, pending, hdocument, rfl⟩

theorem checkObject_eq_ok {object : Json} {u : Unit} : checkObject object = .ok u ↔
    ∃ raw members, base64Bytes object 16384 = .ok raw ∧ document (.bytes raw) 16384 = .ok (.obj members) := by
  have hobject (value : Json) : isObject value = true ↔ ∃ members, value = .obj members := by
    cases value <;> simp [isObject]
  simp only [checkObject, bind_eq_ok, require_eq_ok, hobject]
  constructor
  · rintro ⟨raw, hraw, value, hvalue, members, rfl⟩
    exact ⟨raw, members, hraw, hvalue⟩
  · rintro ⟨raw, members, hraw, hvalue⟩
    exact ⟨raw, hraw, _, hvalue, members, rfl⟩

theorem onResult_eq_ok : t.onResult payload = .ok after ↔ ∃ actionId verb object outcome,
    (payload.get? "actionId" = some actionId ∧ t.pending.get? "actionId" = some actionId) ∧ t.pending.get? "verb" = some verb ∧
    payload.get? "outcome" = some (.str outcome) ∧ outcome ∈ permitted verb ++ ["DENIED", "AMBIGUOUS"] ∧
    payload.get? "objectBase64" = some object ∧ (outcome ∈ ["CREATED", "PRESENT"] ↔ object ≠ .null) ∧
    (object ≠ .null → ∃ raw members, base64Bytes object 16384 = .ok raw ∧ document (.bytes raw) 16384 = .ok (.obj members)) ∧
    after = { t with failedAction := t.failedAction || decide (outcome ∈ ["DENIED", "AMBIGUOUS"]), pending := .null } := by
  have hone (outcome : String) (names : List String) : isOneOf (.str outcome) names = decide (outcome ∈ names) := by
    rw [Bool.eq_iff_iff, isOneOf_iff, decide_eq_true_eq]
    exact ⟨fun ⟨s, hs, heq⟩ => Json.str.inj heq ▸ hs, fun h => ⟨outcome, h, rfl⟩⟩
  simp only [onResult, bind_eq_ok, item_eq_ok, require_eq_ok, exists_const]
  constructor
  · rintro ⟨hpending, actionId, hid, _, hid', rfl, outcome, houtcome, verb, hverb, hpermitted, object, hobject, hpresent, h⟩
    obtain ⟨outcome, hmem, rfl⟩ := isOneOf_iff.mp hpermitted
    rw [hone, decide_eq_decide] at hpresent
    refine ⟨actionId, verb, object, outcome, ⟨hid, hid'⟩, hverb, houtcome, hmem, hobject, hpresent, ?_, ?_⟩
    all_goals rw [hone] at h
    · intro hne
      rw [if_pos (decide_eq_true (hpresent.mpr hne))] at h
      obtain ⟨_, hchecked, -⟩ := bind_eq_ok.mp h
      exact checkObject_eq_ok.mp hchecked
    · rw [← hone]
      by_cases hne : object ≠ .null
      · rw [if_pos (decide_eq_true (hpresent.mpr hne))] at h
        obtain ⟨_, -, h⟩ := bind_eq_ok.mp h
        exact (pure_eq_ok.mp h).symm
      · rw [if_neg (mt of_decide_eq_true (hne ∘ hpresent.mp))] at h
        exact (pure_eq_ok.mp h).symm
  · rintro ⟨actionId, verb, object, outcome, ⟨hid, hid'⟩, hverb, houtcome, hmem, hobject, hpresent, hread, rfl⟩
    have hpending : t.pending ≠ .null := fun hnull => by
      rw [hnull] at hid'
      cases hid'
    refine ⟨hpending, actionId, hid, _, hid', rfl, _, houtcome, verb, hverb, isOneOf_iff.mpr ⟨_, hmem, rfl⟩, object, hobject, ?_, ?_⟩
    all_goals rw [hone]
    · exact decide_eq_decide.mpr hpresent
    · by_cases hne : object ≠ .null
      · rw [if_pos (decide_eq_true (hpresent.mpr hne)), (checkObject_eq_ok (u := ())).mpr (hread hne), hone]
        rfl
      · rw [if_neg (mt of_decide_eq_true (hne ∘ hpresent.mp)), hone]
        rfl

omit [Runtime] in
theorem onChunk_eq_ok : t.onChunk payload = .ok after ↔ ∃ data chunk, (t.pending = .null ∧ t.cleanup = .null) ∧
    payload.get? "index" = some (.int t.chunks.length) ∧ payload.get? "dataBase64" = some data ∧ base64Bytes data 24576 = .ok chunk ∧
    t.receiptSize + chunk.length ≤ 4194304 ∧
    after = { t with chunks := t.chunks ++ [chunk], receiptSize := t.receiptSize + chunk.length } := by
  simp only [onChunk, bind_eq_ok, item_eq_ok, require_eq_ok, exists_const, pure_eq_ok]
  constructor
  · rintro ⟨_, hindex, ⟨hpending, hcleanup, rfl⟩, data, hdata, chunk, hchunk, hsize, rfl⟩
    exact ⟨data, chunk, ⟨hpending, hcleanup⟩, hindex, hdata, hchunk, hsize, rfl⟩
  · rintro ⟨data, chunk, ⟨hpending, hcleanup⟩, hindex, hdata, hchunk, hsize, rfl⟩
    exact ⟨_, hindex, ⟨hpending, hcleanup, rfl⟩, data, hdata, chunk, hchunk, hsize, rfl⟩

theorem onCleanup_eq_ok : t.onCleanup payload = .ok after ↔ ∃ remaining rows state seen cleanup,
    payload.get? "remainingResources" = some remaining ∧ iterate remaining = .ok rows ∧ payload.get? "state" = some state ∧
    (t.pending = .null ∧ t.chunks ≠ [] ∧ t.cleanup = .null) ∧ (state = .str "CLEAN" ↔ rows = []) ∧
    rows.foldlM t.onRemaining [] = .ok seen ∧ document (.data payload) 16384 = .ok cleanup ∧
    after = { t with cleanup := cleanup } := by
  simp only [onCleanup, bind_eq_ok, item_eq_ok, require_eq_ok, exists_const, pure_eq_ok]
  constructor
  · rintro ⟨remaining, hremaining, rows, hrows, state, hstate, ⟨hpending, hchunks, hcleanup, hclean⟩, seen, hseen, cleanup, hdocument, rfl⟩
    exact ⟨remaining, rows, state, seen, cleanup, hremaining, hrows, hstate, ⟨hpending, hchunks, hcleanup⟩, hclean, hseen, hdocument, rfl⟩
  · rintro ⟨remaining, rows, state, seen, cleanup, hremaining, hrows, hstate, ⟨hpending, hchunks, hcleanup⟩, hclean, hseen, hdocument, rfl⟩
    exact ⟨remaining, hremaining, rows, hrows, state, hstate, ⟨hpending, hchunks, hcleanup, hclean⟩, seen, hseen, cleanup, hdocument, rfl⟩

theorem onTerminal_eq_ok : t.onTerminal payload = .ok after ↔ ∃ digest status state terminal, (t.pending = .null ∧ t.cleanup ≠ .null) ∧
    payload.get? "receiptSize" = some (.int t.receiptSize) ∧
    payload.get? "receiptDigest" = some (.str (byteDigest t.chunks.flatten).text) ∧
    (payload.get? "cleanupDigest" = some digest ∧ t.cleanup.get? "cleanupDigest" = some digest) ∧
    payload.get? "status" = some status ∧ t.cleanup.get? "state" = some state ∧
    (status = .str "COMPLETED" → state = .str "CLEAN" ∧ t.failedAction = false) ∧
    document (.data payload) 16384 = .ok terminal ∧ after = { t with terminal := terminal } := by
  simp only [onTerminal, bind_eq_ok, item_eq_ok, require_eq_ok, exists_const, pure_eq_ok]
  constructor
  · rintro ⟨hready, _, hsize, _, hdigest, _, hcleanup, _, hcleanup', ⟨rfl, rfl, rfl⟩, status, hstatus, state, hstate, htrue, terminal,
      hdocument, rfl⟩
    exact ⟨_, status, state, terminal, hready, hsize, hdigest, ⟨hcleanup, hcleanup'⟩, hstatus, hstate,
      fun h => htrue.resolve_left (not_not_intro h), hdocument, rfl⟩
  · rintro ⟨digest, status, state, terminal, hready, hsize, hdigest, ⟨hcleanup, hcleanup'⟩, hstatus, hstate, htrue, hdocument, rfl⟩
    exact ⟨hready, _, hsize, _, hdigest, digest, hcleanup, digest, hcleanup', ⟨rfl, rfl, rfl⟩, status, hstatus, state, hstate,
      not_or_of_imp htrue, terminal, hdocument, rfl⟩

/-- The checks that follow the chain, by the kind of the frame. -/
theorem onPayload_name (kind : FrameKind) : t.onPayload (.str kind.name) payload = match kind with
    | .started => .ok t
    | .resourceAction => t.onAction payload
    | .resourceResult => t.onResult payload
    | .receiptChunk => t.onChunk payload
    | .cleanupRecorded => t.onCleanup payload
    | .terminal => t.onTerminal payload
    | .abort | .refused => .error (.conformance "BROKER_ABORTED" "execution refused; no success receipt") := by
  cases kind <;> rfl

theorem advance_iff (hframed : Framed frame kind payload) :
    (∃ opened, t.checkExecution frame (.str kind.name) = .ok opened ∧ opened.onPayload (.str kind.name) payload = .ok after) ↔
      t.Advance frame payload kind after := by
  have hcontent := hframed.content
  simp only [checkExecution_eq_ok, onPayload_name]
  constructor
  · rintro ⟨opened, ⟨hnew, rfl, id, hid, rfl⟩ | ⟨hold, hkind, hid, rfl⟩, hafter⟩
    · obtain rfl := Except.ok.inj hafter
      obtain ⟨text, hid', hhex⟩ := hframed.executionId
      obtain rfl := Option.some.inj (hid.symm.trans hid')
      exact .started hnew hid hhex
    · cases kind with
      | started => exact absurd rfl hkind
      | resourceAction =>
        obtain ⟨actionId, digest, haction, hdigest, hidle, hfresh, howns, pending, hdocument, rfl⟩ := onAction_eq_ok.mp hafter
        obtain ⟨w, hw, n, rfl, hlow, hhigh⟩ := hcontent.get? (k := "actionId") (s := .int 1 256) rfl
        obtain rfl := Json.int.inj (Option.some.inj (haction.symm.trans hw))
        obtain rfl := hframed.document_payload hdocument
        exact .action ⟨hold, hid⟩ hidle haction ⟨hlow, hhigh⟩ hfresh hdigest howns hdocument
      | resourceResult =>
        obtain ⟨actionId, verb, object, outcome, hsame, hverb, houtcome, hmem, hobject, hpresent, hread, rfl⟩ := onResult_eq_ok.mp hafter
        exact .result ⟨hold, hid⟩ hsame hverb houtcome hmem hobject hpresent hread
      | receiptChunk =>
        obtain ⟨data, chunk, hidle, hindex, hdata, hchunk, hsize, rfl⟩ := onChunk_eq_ok.mp hafter
        obtain ⟨w, hw, n, rfl, -, hhigh⟩ := hcontent.get? (k := "index") (s := .int 0 170) rfl
        have hshort := Json.int.inj (Option.some.inj (hindex.symm.trans hw))
        exact .chunk ⟨hold, hid⟩ hidle hindex (by omega) hdata hchunk hsize
      | cleanupRecorded =>
        obtain ⟨remaining, rows, state, seen, cleanup, hremaining, hrows, hstate, hready, hclean, hseen, hdocument, rfl⟩ :=
          onCleanup_eq_ok.mp hafter
        obtain ⟨w, hw, items, rfl, -⟩ := hcontent.get? (k := "remainingResources") (s := .arr 0 32 true remainingShape) rfl
        obtain rfl := Option.some.inj (hremaining.symm.trans hw)
        obtain rfl := Except.ok.inj hrows
        obtain ⟨w, hw, hname⟩ := hcontent.get? (k := "state") (s := namesShape ["CLEAN", "CLEANUP_PENDING"]) rfl
        obtain ⟨name, hmem, rfl⟩ := Shape.accepts_enum.mp hname
        obtain rfl := Option.some.inj (hstate.symm.trans hw)
        obtain rfl := hframed.document_payload hdocument
        refine .cleanup ⟨hold, hid⟩ hready hremaining ?_ hseen hdocument
        by_cases hnil : items = []
        · rw [if_pos hnil, hstate, hclean.mpr hnil]
        · rw [if_neg hnil, hstate]
          rcases List.mem_pair.mp hmem with rfl | rfl
          · exact absurd (hclean.mp rfl) hnil
          · rfl
      | terminal =>
        obtain ⟨digest, status, state, terminal, hready, hsize, hdigest, hcleanup, hstatus, hstate, htrue, hdocument, rfl⟩ :=
          onTerminal_eq_ok.mp hafter
        obtain rfl := hframed.document_payload hdocument
        exact .terminal ⟨hold, hid⟩ hready hsize hdigest hcleanup hstatus hstate htrue hdocument
      | abort => cases hafter
      | refused => cases hafter
  · intro h
    cases h with
    | started hnew hid hhex => exact ⟨_, .inl ⟨hnew, rfl, _, hid, rfl⟩, rfl⟩
    | action hsame hidle hid hrange hfresh hdigest howns hdocument =>
      exact ⟨t, .inr ⟨hsame.1, nofun, hsame.2, rfl⟩,
        onAction_eq_ok.mpr ⟨_, _, hid, hdigest, hidle, hfresh, howns, _, hdocument, rfl⟩⟩
    | result hsame hid hverb houtcome hpermitted hobject hpresent hread =>
      exact ⟨t, .inr ⟨hsame.1, nofun, hsame.2, rfl⟩,
        onResult_eq_ok.mpr ⟨_, _, _, _, hid, hverb, houtcome, hpermitted, hobject, hpresent, hread, rfl⟩⟩
    | chunk hsame hidle hindex hshort hdata hchunk hsize =>
      exact ⟨t, .inr ⟨hsame.1, nofun, hsame.2, rfl⟩, onChunk_eq_ok.mpr ⟨_, _, hidle, hindex, hdata, hchunk, hsize, rfl⟩⟩
    | @cleanup rows seen hsame hready hrows hstate hscope hdocument =>
      refine ⟨t, .inr ⟨hsame.1, nofun, hsame.2, rfl⟩,
        onCleanup_eq_ok.mpr ⟨_, rows, _, _, _, hrows, rfl, hstate, hready, ?_, hscope, hdocument, rfl⟩⟩
      by_cases hnil : rows = []
      · rw [if_pos hnil]
        exact iff_of_true rfl hnil
      · rw [if_neg hnil]
        exact iff_of_false (by decide) hnil
    | terminal hsame hready hsize hreceipt hcleanup hstatus hstate htrue hdocument =>
      exact ⟨t, .inr ⟨hsame.1, nofun, hsame.2, rfl⟩,
        onTerminal_eq_ok.mpr ⟨_, _, _, _, hready, hsize, hreceipt, hcleanup, hstatus, hstate, htrue, hdocument, rfl⟩⟩

/-- Who sends the frames of a kind. -/
def sender (kind : FrameKind) : String := if kind.fromServer then "SERVER" else "BROKER"

omit [Runtime] in
theorem sender_iff {party : String} : party ∈ ["BROKER", "SERVER"] ∧ (party = "SERVER" ↔
    isOneOf (.str kind.name) ["RESOURCE_RESULT", "CLEANUP_RECORDED", "ABORT"] = true) ↔ party = sender kind := by
  have hserver : isOneOf (.str kind.name) ["RESOURCE_RESULT", "CLEANUP_RECORDED", "ABORT"] = kind.fromServer := by
    cases kind <;> rfl
  rw [hserver, sender, List.mem_pair]
  cases kind.fromServer with
  | true =>
    rw [if_pos rfl]
    exact ⟨fun h => h.2.mpr rfl, fun h => ⟨.inr h, iff_of_true h rfl⟩⟩
  | false =>
    rw [if_neg (by decide)]
    exact ⟨fun h => h.1.resolve_right fun hs => absurd (h.2.mp hs) (by decide), fun h => ⟨.inl h, iff_of_false (by rw [h]; decide) (by decide)⟩⟩

/-- An accepted frame is a document of one kind, sent by the party of its kind, next in the chain, and advances the transcript. -/
theorem step_eq_ok {raw : Input} {party : String} {next : Transcript} : t.step raw party = .ok (next, frame) ↔
    brokerDocument raw .frame = .ok frame ∧ ∃ kind payload after, Framed frame kind payload ∧ party = sender kind ∧
      t.Chained frame ∧ t.Advance frame payload kind after ∧
      next = { after with sequence := after.sequence + 1, previous := digestOf frame } := by
  constructor
  · intro h
    simp only [step, bind_eq_ok, require_eq_ok, exists_const, item_eq_ok, pure_eq_ok, canonicalDigest_none] at h
    obtain ⟨read, hread, hmem, kindJson, hkind, payload, hpayload, hsender, _, hchain, opened, hopened, after, hafter, digest,
      ⟨-, rfl⟩, hnext⟩ := h
    obtain ⟨rfl, rfl⟩ := Prod.mk.inj hnext
    obtain ⟨kind, content, hframed⟩ := framed_of_brokerDocument hread
    obtain rfl := Option.some.inj (hframed.kind_eq.symm.trans hkind)
    obtain rfl := Option.some.inj (hframed.payload_eq.symm.trans hpayload)
    exact ⟨hread, kind, content, after, hframed, sender_iff.mp ⟨hmem, hsender⟩, checkChain_eq_ok.mp hchain,
      (advance_iff hframed).mp ⟨opened, hopened, hafter⟩, rfl⟩
  · rintro ⟨hread, kind, payload, after, hframed, hfrom, hchain, hadvance, rfl⟩
    obtain ⟨hmem, hsender⟩ := sender_iff.mpr hfrom
    obtain ⟨opened, hopened, hafter⟩ := (advance_iff hframed).mpr hadvance
    simp only [step, bind_eq_ok, require_eq_ok, exists_const, item_eq_ok, pure_eq_ok, canonicalDigest_none]
    exact ⟨frame, hread, hmem, _, hframed.kind_eq, payload, hframed.payload_eq, hsender, (), checkChain_eq_ok.mpr hchain, opened,
      hopened, after, hafter, _, ⟨hframed.canonical.valid, rfl⟩, rfl⟩

theorem accept_eq_ok {raw : Input} {party : String} {next : Transcript} : t.accept raw party = (next, .ok frame) ↔
    (t.poisoned = false ∧ t.terminal = .null) ∧ t.step raw party = .ok (next, frame) := by
  rw [accept]
  by_cases hclosed : t.poisoned = true ∨ t.terminal ≠ .null
  · rw [if_pos hclosed, Prod.mk.injEq]
    refine iff_of_false (fun h => by cases h.2) fun h => ?_
    rcases hclosed with hpoisoned | hterminal
    · rw [h.1.1] at hpoisoned
      cases hpoisoned
    · exact hterminal h.1.2
  · rw [if_neg hclosed]
    rw [not_or, Bool.not_eq_true, not_not] at hclosed
    cases t.step raw party with
    | ok after => simp [hclosed, Prod.ext_iff]
    | error e => simp

end

/-! ## Reachable transcripts -/

/-- The transcripts that accepted frames reach. -/
inductive Reachable : Transcript → Prop
  | new {binding dispatch : Input} {t : Transcript} (hwf : binding.Wf ∧ dispatch.Wf) (h : Transcript.new binding dispatch = .ok t) :
      Reachable t
  | accept {t next : Transcript} {raw : Input} {party : String} {frame : Json} (ht : Reachable t)
      (h : t.accept raw party = (next, .ok frame)) : Reachable next

/-- The documents that an execution starts from. -/
structure Opened (t : Transcript) : Prop where
  binding : Canonical t.binding ∧ ValidAt 1 t.binding ∧ brokerBindingShape.Accepts t.binding
  dispatch : Canonical t.dispatch ∧ ValidAt 1 t.dispatch ∧ dispatchShape.Accepts t.dispatch
  bound : t.dispatch.get? "bindingDigest" = some (.str (digestOf t.binding).text)

theorem new_eq_ok {binding dispatch : Input} {t : Transcript} : Transcript.new binding dispatch = .ok t ↔ ∃ b d,
    brokerDocument binding .binding = .ok b ∧ brokerDocument dispatch .dispatch = .ok d ∧
    d.get? "bindingDigest" = some (.str (digestOf b).text) ∧
    t = ⟨b, d, 0, zero, .null, .null, .null, .null, ∅, [], 0, false, false⟩ := by
  simp only [new, bind_eq_ok, item_eq_ok, require_eq_ok, exists_const, pure_eq_ok, canonicalDigest_none]
  constructor
  · rintro ⟨b, hb, d, hd, digest, ⟨-, rfl⟩, _, hdigest, rfl, rfl⟩
    exact ⟨b, d, hb, hd, hdigest, rfl⟩
  · rintro ⟨b, d, hb, hd, hdigest, rfl⟩
    have hvalid := (document_canonical (brokerDocument_eq_ok.mp hb).1).valid
    exact ⟨b, hb, d, hd, _, ⟨hvalid, rfl⟩, _, hdigest, rfl, rfl⟩

theorem Reachable.opened {t : Transcript} (h : t.Reachable) : t.Opened := by
  induction h with
  | new hwf h =>
    obtain ⟨b, d, hb, hd, hdigest, rfl⟩ := new_eq_ok.mp h
    obtain ⟨hb, hbinding⟩ := brokerDocument_eq_ok.mp hb
    obtain ⟨hd, hdispatch⟩ := brokerDocument_eq_ok.mp hd
    exact ⟨⟨document_canonical hb, validAt_one_of_document (by decide) hwf.1 hb, hbinding⟩,
      ⟨document_canonical hd, validAt_one_of_document (by decide) hwf.2 hd, hdispatch⟩, hdigest⟩
  | accept ht h ih =>
    obtain ⟨-, hstep⟩ := accept_eq_ok.mp h
    obtain ⟨-, kind, payload, after, -, -, -, hadvance, rfl⟩ := step_eq_ok.mp hstep
    cases hadvance <;> exact ⟨ih.binding, ih.dispatch, ih.bound⟩

/-- What the transcript stores of a frame: a document that may lie one level down. -/
structure Stored (v : Json) : Prop where
  canonical : Canonical v
  valid : ValidAt 1 v

omit [Runtime] in
/-- One for what is there, zero for null. -/
def present (v : Json) : ℕ := if v = .null then 0 else 1

omit [Runtime] in
theorem present_of_ne {v : Json} (h : v ≠ .null) : present v = 1 := if_neg h

omit [Runtime] in
theorem present_le (v : Json) : present v ≤ 1 := by
  unfold present
  split <;> decide

/-- What holds of every transcript that accepted frames reach. -/
structure Sound (t : Transcript) : Prop where
  live : t.poisoned = false
  fresh : t.execution = .null → t.sequence = 0 ∧ t.previous = zero ∧ t.pending = .null ∧ t.cleanup = .null ∧ t.terminal = .null ∧
    t.actions = ∅ ∧ t.chunks = []
  execution : t.execution = .null ∨ ∃ id, t.execution = .str id ∧ hexPattern.fullmatch id = true
  stored : Stored t.execution ∧ Stored t.pending ∧ Stored t.cleanup ∧ Stored t.terminal
  pending : t.pending ≠ .null → t.chunks = [] ∧ t.cleanup = .null
  cleanup : t.cleanup ≠ .null → t.chunks ≠ []
  terminal : t.terminal ≠ .null → t.cleanup ≠ .null
  actions : ∀ a ∈ t.actions, 1 ≤ a ∧ a ≤ 256
  chunks : t.chunks.length ≤ 171
  size : t.receiptSize = t.chunks.flatten.length ∧ t.receiptSize ≤ 4194304
  count : t.sequence + present t.pending = present t.execution + 2 * t.actions.card + t.chunks.length + present t.cleanup + present t.terminal

theorem stored_null : Stored .null := ⟨⟨trivial, rfl, checkDepth_eq_ok.mpr (by decide)⟩, checkDepth_eq_ok.mpr (by decide)⟩

/-- A field of a frame lies one level down. -/
theorem stored_field {frame v : Json} {k : String} (h : Canonical frame) (hk : frame.get? k = some v) : Stored v := by
  have hvalid : ValidAt 1 v := by
    cases frame with
    | obj members => exact ((validAt_obj.mp h.valid).2.2 _ (Json.lookup_mem hk)).2.2
    | _ => cases hk
  exact ⟨⟨h.wf.get? hk, Json.canon_get? h.wf h.canon hk, hvalid.mono (Nat.zero_le _)⟩, hvalid⟩

theorem payload_ne_null {frame payload : Json} {kind : FrameKind} (h : Framed frame kind payload) : payload ≠ .null := by
  obtain ⟨members, rfl, -⟩ := h.content
  exact nofun

theorem Reachable.sound {t : Transcript} (h : t.Reachable) : t.Sound := by
  induction h with
  | new hwf h =>
    obtain ⟨b, d, -, -, -, rfl⟩ := new_eq_ok.mp h
    exact ⟨rfl, fun _ => ⟨rfl, rfl, rfl, rfl, rfl, rfl, rfl⟩, .inl rfl, ⟨stored_null, stored_null, stored_null, stored_null⟩,
      fun h => absurd rfl h, fun h => absurd rfl h, fun h => absurd rfl h, fun a ha => absurd ha (Finset.notMem_empty a), Nat.zero_le _,
      ⟨rfl, Nat.zero_le _⟩, rfl⟩
  | @accept t next raw party frame ht h ih =>
    obtain ⟨⟨hlive, hopen⟩, hstep⟩ := accept_eq_ok.mp h
    obtain ⟨-, kind, payload, after, hframed, -, -, hadvance, rfl⟩ := step_eq_ok.mp hstep
    have hpayload := stored_field hframed.canonical hframed.payload_eq
    have hne := payload_ne_null hframed
    obtain ⟨hexecution, hpending, hcleanup, hterminal⟩ := ih.stored
    have hcount := ih.count
    cases hadvance with
    | started hnew hid hhex =>
      obtain ⟨hsequence, -, hpending', hcleanup', hterminal', hactions, hchunks⟩ := ih.fresh hnew
      refine ⟨hlive, nofun, .inr ⟨_, rfl, hhex⟩, ⟨stored_field hframed.canonical hid, hpending, hcleanup, hterminal⟩,
        ih.pending, ih.cleanup, ih.terminal, ih.actions, ih.chunks, ih.size, ?_⟩
      dsimp only at hcount ⊢
      rw [hsequence, hpending', hcleanup', hterminal', hactions, hchunks]
      rfl
    | @action actionId digest hsame hidle hid hrange hfresh hdigest howns hdocument =>
      refine ⟨hlive, fun h => absurd h hsame.1, ih.execution, ⟨hexecution, hpayload, hcleanup, hterminal⟩, fun _ => hidle.2, ih.cleanup,
        ih.terminal, ?_, ih.chunks, ih.size, ?_⟩
      · intro a ha
        rcases Finset.mem_insert.mp ha with rfl | ha
        · exact hrange
        · exact ih.actions a ha
      · dsimp only
        rw [hidle.1] at hcount
        rw [Finset.card_insert_of_notMem hfresh, present_of_ne hne]
        have hnull : present .null = 0 := rfl
        omega
    | result hsame hid hverb houtcome hpermitted hobject hpresent hread =>
      have hpending' : t.pending ≠ .null := fun hnull => by
        rw [hnull] at hverb
        cases hverb
      refine ⟨hlive, fun h => absurd h hsame.1, ih.execution, ⟨hexecution, stored_null, hcleanup, hterminal⟩, fun h => absurd rfl h,
        ih.cleanup, ih.terminal, ih.actions, ih.chunks, ih.size, ?_⟩
      dsimp only
      rw [present_of_ne hpending'] at hcount
      have hnull : present .null = 0 := rfl
      omega
    | @chunk chunk data hsame hidle hindex hshort hdata hchunk hsize =>
      refine ⟨hlive, fun h => absurd h hsame.1, ih.execution, ⟨hexecution, hpending, hcleanup, hterminal⟩,
        fun h => absurd hidle.1 h, fun _ => List.append_ne_nil_of_right_ne_nil _ (List.cons_ne_nil _ _), ih.terminal, ih.actions, ?_, ?_, ?_⟩
      · dsimp only
        rw [List.length_append, List.length_singleton]
        omega
      · dsimp only
        rw [List.flatten_append, List.length_append, ← ih.size.1]
        exact ⟨by simp, hsize⟩
      · dsimp only
        rw [List.length_append, List.length_singleton]
        omega
    | cleanup hsame hready hrows hstate hscope hdocument =>
      refine ⟨hlive, fun h => absurd h hsame.1, ih.execution, ⟨hexecution, hpending, hpayload, hterminal⟩, fun h => absurd hready.1 h,
        fun _ => hready.2.1, fun h => absurd hopen h, ih.actions, ih.chunks, ih.size, ?_⟩
      dsimp only
      rw [hready.2.2] at hcount
      rw [present_of_ne hne]
      have hnull : present .null = 0 := rfl
      omega
    | terminal hsame hready hsize hreceipt hcleanup' hstatus hstate htrue hdocument =>
      refine ⟨hlive, fun h => absurd h hsame.1, ih.execution, ⟨hexecution, hpending, hcleanup, hpayload⟩, ih.pending, ih.cleanup,
        fun _ => hready.2, ih.actions, ih.chunks, ih.size, ?_⟩
      dsimp only
      rw [hopen] at hcount
      rw [present_of_ne hne]
      have hnull : present .null = 0 := rfl
      omega

theorem Sound.card_actions {t : Transcript} (h : t.Sound) : t.actions.card ≤ 256 := by
  have hsub : t.actions ⊆ Finset.Icc 1 256 := fun a ha => Finset.mem_Icc.mpr (h.actions a ha)
  exact (Finset.card_le_card hsub).trans (Int.card_Icc 1 256).le

/-- A transcript without a cleanup has not used up the sequence numbers. -/
theorem Sound.sequence_le {t : Transcript} (h : t.Sound) : t.sequence ≤ 686 := by
  have hcount := h.count
  have hactions := h.card_actions
  have hchunks := h.chunks
  have hexecution := present_le t.execution
  have hcleanup := present_le t.cleanup
  have hterminal := present_le t.terminal
  omega

end Transcript

end

/-! ## A transcript that a dispatch opens -/

namespace TranscriptSample

def hex : String := String.ofList (List.replicate 64 '0')

def bindingMembers : Json.Members :=
  [("schemaVersion", .str "planeon.internal.broker-binding/v1"), ("profileDigest", .str zero.text),
    ("observationBindingDigest", .str zero.text), ("brokerManifestDigest", .str zero.text), ("brokerExecutableDigest", .str zero.text),
    ("workerManifestDigest", .str zero.text), ("workerArtifactDigest", .str zero.text),
    ("caseResourceDigests", .obj (Case.all.map fun c => (c.name, .arr [])))]

/-- The fields that a dispatch shares with its frames, but for the digest of the binding. -/
def commonRest : Json.Members :=
  [("reservationDigest", .str zero.text), ("runNonce", .str "run-1"), ("caseId", .str (Case.all.head (by decide)).name),
    ("requestDigest", .str zero.text), ("observationDigest", .str zero.text), ("generation", .str hex), ("challenge", .str hex)]

def dispatchRest : Json.Members :=
  commonRest ++ [("schemaVersion", .str "planeon.internal.broker-dispatch/v1"), ("operation", .str "EXECUTE_FIXED_PROBE")]

def startedRest : Json.Members :=
  commonRest ++ [("schemaVersion", .str "planeon.internal.broker-frame/v1"), ("executionId", .str hex), ("sequence", .int 1),
    ("previousDigest", .str zero.text), ("kind", .str "STARTED"),
    ("payload", .obj [("workerPid", .int 2), ("workerStartTicks", .int 1)])]

def dispatchOf (d : Digest) : Json := .obj ([("bindingDigest", .str d.text)] ++ dispatchRest)

def startedOf (d : Digest) : Json := .obj ([("bindingDigest", .str d.text)] ++ startedRest)

theorem wf_named {rest : Json.Members} (h : (Json.obj ([("bindingDigest", .str zero.text)] ++ rest)).Wf) (d : Digest) :
    (Json.obj ([("bindingDigest", .str d.text)] ++ rest)).Wf :=
  Json.wf_obj.mpr ⟨(Json.wf_obj.mp h).1, List.forall_mem_cons.mpr ⟨trivial, (List.forall_mem_cons.mp (Json.wf_obj.mp h).2).2⟩⟩

theorem slim_named {rest : Json.Members} (h : rest.all (isSlim 1000 3) = true) (d : Digest) :
    ∀ m ∈ [("bindingDigest", Json.str d.text)] ++ rest, Slim 1000 3 m :=
  List.forall_mem_cons.mpr ⟨(slim_digest (Json.shortKey rfl) d le_rfl).mono (by decide) (by decide), slim_of_isSlim h⟩

/-- What is computed about the texts, all at once. -/
theorem checks : ((dispatchOf zero).Wf ∧ (startedOf zero).Wf ∧ (Json.obj bindingMembers).Wf) ∧
    (dispatchRest.all (isSlim 1000 3) = true ∧ startedRest.all (isSlim 1000 3) = true ∧ bindingMembers.all (isSlim 1000 3) = true) ∧
    (@shape .ascii dispatchShape (dispatchOf zero) = .ok () ∧ @shape .ascii frameShape (startedOf zero) = .ok () ∧
      @shape .ascii brokerBindingShape (.obj bindingMembers) = .ok ()) ∧ hexPattern.fullmatch hex = true := by
  decide +kernel

theorem wf_dispatchOf (d : Digest) : (dispatchOf d).Wf := wf_named checks.1.1 d

theorem wf_startedOf (d : Digest) : (startedOf d).Wf := wf_named checks.1.2.1 d

theorem slim_dispatch (d : Digest) : ∀ m ∈ [("bindingDigest", Json.str d.text)] ++ dispatchRest, Slim 1000 3 m := slim_named checks.2.1.1 d

theorem slim_started (d : Digest) : ∀ m ∈ [("bindingDigest", Json.str d.text)] ++ startedRest, Slim 1000 3 m := slim_named checks.2.1.2.1 d

theorem slim_bindingMembers : ∀ m ∈ bindingMembers, Slim 1000 3 m := slim_of_isSlim checks.2.1.2.2

theorem accepts_dispatch (d : Digest) : dispatchShape.Accepts (dispatchOf d) := by
  have hzero : dispatchShape.Accepts (dispatchOf zero) := accepts_of_slim (@pinned_variant .ascii .dispatch) (wf_dispatchOf zero)
    (fun m hm => (slim_dispatch zero m hm).mono (by decide) le_rfl) (by decide) checks.2.2.1.1
  exact hzero.replace rfl (by simpa using ⟨_, rfl, accepts_digest d⟩)

theorem accepts_started (d : Digest) : frameShape.Accepts (startedOf d) := by
  have hzero : frameShape.Accepts (startedOf zero) := accepts_of_slim (@pinned_variant .ascii .frame) (wf_startedOf zero)
    (fun m hm => (slim_started zero m hm).mono (by decide) le_rfl) (by decide) checks.2.2.1.2.1
  refine (Shape.acceptsOne_congr fun s hs => ?_).mp hzero
  obtain ⟨kind, -, rfl⟩ := List.mem_map.mp hs
  have hreplace (e e' : Digest) (h : (Shape.obj (frameShapes kind)).Accepts (startedOf e)) :
      (Shape.obj (frameShapes kind)).Accepts (startedOf e') := h.replace rfl (by simpa using ⟨_, rfl, accepts_digest e'⟩)
  exact ⟨hreplace zero d, hreplace d zero⟩

theorem accepts_binding : brokerBindingShape.Accepts (.obj bindingMembers) :=
  accepts_of_slim (@pinned_variant .ascii .binding) checks.1.2.2
    (fun m hm => (slim_bindingMembers m hm).mono (by decide) le_rfl) (by decide) checks.2.2.1.2.2

variable [Runtime]

def binding : Json := .obj bindingMembers

def named : Digest := digestOf binding.canon

def dispatch : Json := dispatchOf named

def started : Json := startedOf named

def opened : Transcript := ⟨binding.canon, dispatch.canon, 0, zero, .null, .null, .null, .null, ∅, [], 0, false, false⟩

omit [Runtime] in
theorem wf_binding : binding.Wf := checks.1.2.2

theorem wf_dispatch : dispatch.Wf := wf_dispatchOf named

theorem wf_started : started.Wf := wf_startedOf named

theorem document_named {rest : Json.Members} {maximum : ℕ} (hwf : (Json.obj ([("bindingDigest", .str named.text)] ++ rest)).Wf)
    (hslim : ∀ m ∈ [("bindingDigest", Json.str named.text)] ++ rest, Slim 1000 3 m) (hcount : rest.length ≤ 14)
    (hmaximum : 16384 ≤ maximum ∧ maximum ≤ maxFileBytes) : document (.data (.obj ([("bindingDigest", .str named.text)] ++ rest))) maximum =
      .ok (Json.obj ([("bindingDigest", .str named.text)] ++ rest)).canon := by
  refine document_slim hmaximum.2 hwf hslim ⟨by decide, ?_, by decide, ?_⟩
  all_goals rw [List.length_append, List.length_singleton]
  · exact (Nat.add_le_add_left hcount 1).trans (by decide)
  · omega

theorem wf_inputs : (Input.data binding).Wf ∧ (Input.data dispatch).Wf := ⟨wf_binding, wf_dispatch⟩

theorem new_opened : Transcript.new (.data binding) (.data dispatch) = .ok opened := by
  refine Transcript.new_eq_ok.mpr ⟨_, _, brokerDocument_eq_ok.mpr ⟨?_, Shape.accepts_canon.mpr accepts_binding⟩,
    brokerDocument_eq_ok.mpr ⟨document_named wf_dispatch (slim_dispatch named) (by decide) (by decide),
      Shape.accepts_canon.mpr (accepts_dispatch named)⟩, ?_, rfl⟩
  · exact document_slim (by decide) wf_binding slim_bindingMembers (by decide)
  · exact (Json.get?_canon wf_dispatch _).trans rfl

theorem accept_started : ∃ next, opened.accept (.data started) "BROKER" = (next, .ok started.canon) := by
  have hread : brokerDocument (.data started) .frame = .ok started.canon := brokerDocument_eq_ok.mpr
    ⟨document_named wf_started (slim_started named) (by decide) (by decide), Shape.accepts_canon.mpr (accepts_started named)⟩
  obtain ⟨kind, payload, hframed⟩ := framed_of_brokerDocument hread
  have hfield (k : String) : started.canon.get? k = (started.get? k).map Json.canon := Json.get?_canon wf_started k
  have hkind : kind = .started := by
    have hname := hframed.kind_eq.symm.trans (hfield "kind")
    exact FrameKind.name_injective (Json.str.inj (Option.some.inj hname))
  subst hkind
  have hcommon : ∀ k ∈ commonShapes.map Prod.fst, ∃ v, started.get? k = some v ∧ dispatch.get? k = some v := by
    simp only [commonShapes, List.map_cons, List.map_nil, List.forall_mem_cons]
    exact ⟨⟨_, rfl, rfl⟩, ⟨_, rfl, rfl⟩, ⟨_, rfl, rfl⟩, ⟨_, rfl, rfl⟩, ⟨_, rfl, rfl⟩, ⟨_, rfl, rfl⟩, ⟨_, rfl, rfl⟩, ⟨_, rfl, rfl⟩, List.forall_mem_nil _⟩
  have hchained : opened.Chained started.canon := by
    refine ⟨fun k hk => ?_, hfield "sequence", hfield "previousDigest"⟩
    obtain ⟨v, hv, hw⟩ := hcommon k hk
    exact ⟨v.canon, by rw [hfield, hv]; rfl, by rw [opened, Json.get?_canon wf_dispatch, hw]; rfl⟩
  exact ⟨_, Transcript.accept_eq_ok.mpr ⟨⟨rfl, rfl⟩, Transcript.step_eq_ok.mpr ⟨hread, .started, payload, _, hframed, rfl, hchained,
    .started rfl (hfield "executionId") checks.2.2.2, rfl⟩⟩⟩

end TranscriptSample

end HarnessConformance.Admission
