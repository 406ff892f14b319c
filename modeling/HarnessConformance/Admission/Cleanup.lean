import HarnessConformance.Admission.Fields

/-! # Cleanup receipts

`cleanup_receipt` of `live_mutation_admission.py`. A receipt is text through and through, so the
equality the ledger asks of a recorded one is equality of documents. -/

namespace HarnessConformance.Admission
open Lib Lib.Outcome Lib.Lines
set_option autoImplicit false

def cleanupFields : List String := ["apiVersion", "kind", "namespace", "name", "uid", "manifestDigest", "reasonCode"]

def cleanupReasons : List String :=
  ["DELETE_DENIED", "UID_CHANGED", "DEADLINE", "IO_AMBIGUOUS", "OBSERVATION_UNAVAILABLE"]

/-- `(kind, namespace, name)`, for the one API version in use. -/
structure Identity where
  kind : Kind
  nameSpace : Name
  name : Name
  deriving DecidableEq

/-- A missing UID is admitted for ambiguous I/O alone. -/
def requireRemainingUid (uid reason : Json) : Py Unit :=
  if uid = .null ∧ reason = .str "IO_AMBIGUOUS" then pure () else do
    let _ ← requireText (refusal "CLEANUP_UID") uidPattern.fullmatch uid
    pure ()

/-- One row of the remaining resources, after the identities already seen. -/
def cleanupRow (identities : List Identity) (row : Json) : Py (List Identity) := do
  closed row cleanupFields
  require "CLEANUP_SCOPE" ((← item row "apiVersion") = .str "v1")
  let kind ← requireKind "CLEANUP_SCOPE" (← item row "kind")
  require "CLEANUP_SCOPE" (isOneOf (← item row "reasonCode") cleanupReasons)
  let nameSpace ← requireName "CLEANUP_SCOPE" (← item row "namespace")
  let name ← requireName "CLEANUP_SCOPE" (← item row "name")
  requireRemainingUid (← item row "uid") (← item row "reasonCode")
  let _ ← requireDigest (← item row "manifestDigest") "manifestDigest"
  require "CLEANUP_DUPLICATE" (⟨kind, nameSpace, name⟩ ∉ identities)
  pure (⟨kind, nameSpace, name⟩ :: identities)

/-- `type(value) is list and len(value) <= bound` -/
def requireList (reason : String) (bound : ℕ) (value : Json) : Py (List Json) :=
  match value with
  | .arr items => do
    require reason (items.length ≤ bound)
    pure items
  | _ => .error (refusal reason)

/-- The receipt, before it becomes a document. -/
def receiptJson (bindingDigest operation now : Json) (remaining : List Json) (previous : Json) : Json :=
  .obj [("schemaVersion", .str "planeon.internal.proxy-cleanup/v1"), ("bindingDigest", bindingDigest),
    ("operation", operation), ("observedAt", now),
    ("state", .str (if remaining = [] then "CLEAN" else "CLEANUP_PENDING")), ("remainingResources", .arr remaining),
    ("previousReceiptDigest", previous)]

variable [Runtime]

/-- `cleanup_receipt(binding_digest, operation, now, remaining, previous)` -/
def cleanupReceipt (bindingDigest operation now remaining previous : Json) : Py Json := do
  let _ ← requireDigest bindingDigest "bindingDigest"
  let _ ← requireDigest previous "previousReceiptDigest"
  let _ ← requireCase "CLEANUP_SCOPE" operation
  let rows ← requireList "CLEANUP_SCOPE" 32 remaining
  let _ ← requireTime now "observedAt"
  let _ ← rows.foldlM cleanupRow []
  document (.data (receiptJson bindingDigest operation now rows previous)) 16384

/-! ## Receipts are text -/

omit [Runtime] in
theorem requireList_eq_ok {reason : String} {bound : ℕ} {v : Json} {items : List Json} :
    requireList reason bound v = .ok items ↔ v = .arr items ∧ items.length ≤ bound := by
  cases v with
  | arr xs =>
    simp only [requireList, bind_eq_ok, require_eq_ok, exists_const, pure_eq_ok, Json.arr.injEq]
    exact ⟨fun ⟨hlength, heq⟩ => ⟨heq, heq ▸ hlength⟩, fun ⟨heq, hlength⟩ => ⟨heq ▸ hlength, heq⟩⟩
  | _ => simp [requireList]

omit [Runtime] in
theorem requireRemainingUid_textual {uid reason : Json} {u : Unit} (h : requireRemainingUid uid reason = .ok u) :
    isTextual uid = true := by
  unfold requireRemainingUid at h
  split at h
  · rename_i hnull
    rw [hnull.1]
    rfl
  · simp only [bind_eq_ok, requireText_eq_ok] at h
    obtain ⟨t, rfl, -⟩ := h
    rfl

omit [Runtime] in
/-- The members of an accepted row hold strings, or no UID. -/
theorem cleanupRow_textual {seen after : List Identity} {row : Json} (hwf : row.Wf) (h : cleanupRow seen row = .ok after) :
    isTextual row = true := by
  simp only [cleanupRow, bind_eq_ok, item_eq_ok, require_eq_ok, exists_const, requireKind_eq_ok, requireName_eq_ok,
    requireDigest_eq_ok] at h
  obtain ⟨_, hclosed, _, happ, rfl, _, hkind, kind, rfl, reason, hreason, hreasons, _, hns, nameSpace, rfl, h⟩ := h
  obtain ⟨_, hname, name, rfl, uid, huid, _, hreason', _, hremaining, _, hdigest, digest, rfl, -⟩ := h
  obtain ⟨text, -, rfl⟩ := isOneOf_iff.mp hreasons
  obtain ⟨members, rfl, hkeys⟩ := closed_eq_ok.mp hclosed
  rw [isTextual, areTextualMembers_iff]
  intro m hm
  have hget := Json.lookup_of_mem (Json.wf_obj.mp hwf).1 hm
  have hkey := (hkeys m.1).mp (List.mem_map_of_mem hm)
  simp only [cleanupFields, List.mem_cons, List.not_mem_nil, or_false] at hkey
  have hvalue (w : Json) (hw : (Json.obj members).get? m.1 = some w) (htext : isTextual w = true) :
      isTextual m.2 = true := by
    rw [← Option.some.inj (hw.symm.trans hget)]
    exact htext
  rcases hkey with hk | hk | hk | hk | hk | hk | hk
  · exact hvalue _ (hk ▸ happ) rfl
  · exact hvalue _ (hk ▸ hkind) rfl
  · exact hvalue _ (hk ▸ hns) rfl
  · exact hvalue _ (hk ▸ hname) rfl
  · exact hvalue _ (hk ▸ huid) (requireRemainingUid_textual hremaining)
  · exact hvalue _ (hk ▸ hdigest) rfl
  · exact hvalue _ (hk ▸ hreason) rfl

/-- A receipt is the document of its parts. -/
theorem cleanupReceipt_eq_ok {bindingDigest operation now remaining previous expected : Json} (hwf : remaining.Wf)
    (h : cleanupReceipt bindingDigest operation now remaining previous = .ok expected) : ∃ rows, remaining = .arr rows ∧
      (receiptJson bindingDigest operation now rows previous).Wf ∧
      expected = (receiptJson bindingDigest operation now rows previous).canon ∧ isTextual expected = true := by
  simp only [cleanupReceipt, bind_eq_ok, requireDigest_eq_ok, requireCase_eq_ok, requireTime_eq_ok, requireList_eq_ok] at h
  obtain ⟨binding, rfl, digest, rfl, case, rfl, rows, ⟨rfl, -⟩, time, rfl, seen, hrows, hdocument⟩ := h
  have hrowsWf := Json.wf_arr.mp hwf
  have htext : ∀ row ∈ rows, isTextual row = true := by
    intro row hrow
    obtain ⟨s, t, hstep⟩ := foldlM_mem hrows hrow
    exact cleanupRow_textual (hrowsWf row hrow) hstep
  have hjson : (receiptJson (.str binding.text) (.str case.name) (.str time.text) rows (.str digest.text)).Wf := by
    refine Json.wf_obj.mpr ⟨?_, ?_⟩
    · exact (by decide : ["schemaVersion", "bindingDigest", "operation", "observedAt", "state", "remainingResources",
        "previousReceiptDigest"].Nodup)
    · simp only [List.forall_mem_cons, Json.wf_str, Json.wf_arr, true_and]
      exact ⟨hrowsWf, List.forall_mem_nil _⟩
  refine ⟨rows, rfl, hjson, document_data_wf hjson hdocument, ?_⟩
  rw [document_data_wf hjson hdocument, isTextual_canon]
  simp only [receiptJson, isTextual, areTextualMembers, areTextual_iff.mpr htext, Bool.and_self]

end HarnessConformance.Admission
