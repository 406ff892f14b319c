import HarnessConformance.Admission.Rows

/-! # The reader of the ledger is the machine

The loop of `parse_reservations` takes a line exactly when it is the text of an admitted row within
the bounds of a document, and goes where the machine goes. -/

namespace HarnessConformance.Admission
open Lib Lib.Outcome Lib.Lines
set_option autoImplicit false

variable [Runtime]

/-! ## A line that is taken -/

/-- The members of a row that its event fixes. -/
structure Spells (v : Json) (e : Event) : Prop where
  state : v.get? "state" = some (.str e.state)
  operation : v.get? "operation" = some (caseJson e.operation?)
  cleanup : v.get? "cleanup" = some e.cleanup
  resource : ∀ m ∈ e.resource, v.get? m.1 = some m.2.canon

omit [Runtime] in
/-- What a resource row says, of an intent with the given UID and version. -/
theorem intent_toJson {v uid version : Json} (hwf : v.Wf) (hcanon : v.canon = v) {u : Unit}
    (hclosed : closed v resourceFields = .ok u) {i : Intent} (hid : v.get? "actionId" = some (.int i.actionId.val))
    (happ : v.get? "apiVersion" = some (.str "v1")) (hkind : v.get? "kind" = some (.str i.identity.kind.name))
    (hns : v.get? "namespace" = some (.str i.identity.nameSpace.text)) (hname : v.get? "name" = some (.str i.identity.name.text))
    (hdigest : v.get? "manifestDigest" = some (.str i.manifestDigest.text)) (huid : v.get? "uid" = some uid)
    (hversion : v.get? "resourceVersion" = some version) : v = (i.toJson uid version).canon := by
  refine eq_canon_of_closed hwf hcanon hclosed (by decide) rfl ?_
  simp only [List.forall_mem_cons, hid, happ, hkind, hns, hname, hdigest, huid, hversion, true_and]
  nofun

/-- A receipt that names no remaining resources is refused, so `receipt.get` found them. -/
theorem getItem_arr {members : Json.Members} {bindingDigest operation now remaining previous expected : Json}
    (hremaining : (members.lookup "remainingResources").getD .null = remaining)
    (h : cleanupReceipt bindingDigest operation now remaining previous = .ok expected) :
    (Json.obj members).get? "remainingResources" = some remaining := by
  change members.lookup "remainingResources" = some remaining
  cases hlookup : members.lookup "remainingResources" with
  | none =>
    rw [hlookup] at hremaining
    simp [← hremaining, cleanupReceipt, bind_eq_ok, requireList_eq_ok] at h
  | some w =>
    rw [hlookup] at hremaining
    exact congrArg some hremaining

theorem resourceTransition_eq_ok {prior r : Reservation} {operation : Case} {v : Json} (hwf : v.Wf) (hcanon : v.canon = v)
    (hoperation : v.get? "operation" = some (.str operation.name)) {state : Json} (hstate : v.get? "state" = some state)
    (hresource : isOneOf state ["CREATE_INTENT", "CREATED"] = true) (h : resourceTransition prior operation v = .ok r) :
    ∃ e, Spells v e ∧ r = prior.after e ∧ e.operation? = some operation ∧ (∀ c receipt, e ≠ .recorded c receipt) ∧
      ∀ observedAt, prior.Allows false observedAt e := by
  simp only [resourceTransition, bind_eq_ok, item_eq_ok, require_eq_ok, exists_const, requireActionId_eq_ok,
    requireKind_eq_ok, requireName_eq_ok, requireDigest_eq_ok] at h
  obtain ⟨resource, hget, u, hclosed, _, hcleanup, ⟨rfl, hcurrent⟩, _, hid, actionId, rfl, _, happ, rfl, _, hkind, kind,
    rfl, _, hns, nameSpace, rfl, _, hname, name, rfl, _, hdigest, manifestDigest, rfl, uid, huid, version, hversion, h⟩ := h
  have hrebuild := intent_toJson (i := ⟨actionId, ⟨kind, nameSpace, name⟩, manifestDigest⟩) (hwf.get? hget)
    (Json.canon_get? hwf hcanon hget) hclosed hid happ hkind hns hname hdigest huid hversion
  obtain ⟨_, hstate', h⟩ := h
  rw [hstate] at hstate'
  obtain rfl := Option.some.inj hstate'
  split at h
  · rename_i hintent
    subst hintent
    simp only [acceptIntent, bind_eq_ok, require_eq_ok, exists_const, pure_eq_ok] at h
    obtain ⟨⟨rfl, rfl⟩, hfresh, rfl⟩ := h
    refine ⟨.createIntent operation _, ⟨hstate, hoperation, hcleanup, ?_⟩, rfl, rfl, fun _ _ h => Event.noConfusion h, ?_⟩
    · simpa [Event.resource] using hrebuild ▸ hget
    · exact fun _ => ⟨rfl, hcurrent, hfresh⟩
  · rename_i hintent
    obtain ⟨name', hmem, rfl⟩ := isOneOf_iff.mp hresource
    simp only [acceptCreated, bind_eq_ok, require_eq_ok, exists_const, pure_eq_ok, requireText_eq_ok] at h
    obtain ⟨hintended, uid, rfl, version, rfl, hnew, rfl⟩ := h
    have hname' : name' = "CREATED" := by
      simp only [List.mem_cons, List.not_mem_nil, or_false] at hmem
      rcases hmem with rfl | rfl
      · exact absurd rfl hintent
      · rfl
    subst hname'
    refine ⟨.created operation _ uid version, ⟨hstate, hoperation, hcleanup, ?_⟩, rfl, rfl, fun _ _ h => Event.noConfusion h, ?_⟩
    · simpa [Event.resource] using hrebuild ▸ hget
    · exact fun _ => ⟨rfl, hcurrent, hintended, hnew⟩

theorem recordCleanup_eq_ok {prior r : Reservation} {operation : Case} {observedAt : TimeText} {v : Json}
    (hwf : v.Wf) (hcanon : v.canon = v) (hoperation : v.get? "operation" = some (.str operation.name))
    (hstate : v.get? "state" = some (.str "RECORDED")) (h : recordCleanup prior operation observedAt v = .ok r) :
    ∃ receipt, Spells v (.recorded operation receipt) ∧ r = prior.after (.recorded operation receipt) ∧
      ∀ recorded, prior.Allows recorded observedAt (.recorded operation receipt) := by
  simp only [recordCleanup, bind_eq_ok, item_eq_ok, require_eq_ok, exists_const, canonicalDigest_none, pure_eq_ok,
    getItem_eq_ok] at h
  obtain ⟨receipt, hreceipt, ⟨hcurrent, -⟩, remaining, ⟨members, rfl, hremaining⟩, _, ⟨-, rfl⟩, expected, hexpected, heq,
    ⟨⟩, haccounted, _, ⟨-, rfl⟩, _, -, rfl⟩ := h
  refine ⟨⟨.obj members, hwf.get? hreceipt, Json.canon_get? hwf hcanon hreceipt⟩,
    ⟨hstate, hoperation, hreceipt, nofun⟩, rfl, fun recorded => ?_⟩
  have hget := getItem_arr hremaining hexpected
  obtain ⟨rows, rfl, hjson, hreads, htextual⟩ := cleanupReceipt_eq_ok ((hwf.get? hreceipt).get? hget) hexpected
  have hsame : Json.obj members = expected := by
    rw [← Json.canon_get? hwf hcanon hreceipt, canon_eq_of_pyEq htextual (hwf.get? hreceipt) (hreads ▸ hjson.canon) heq,
      hreads, Json.canon_canon]
  exact ⟨hcurrent, rows, hget, hsame ▸ hexpected, haccounted⟩

theorem advanceReservation_eq_ok {s : Ledger} {prior r : Reservation} {binding : AdmissionBinding} {observedAt : TimeText}
    {v : Json} {recorded : List ((Name × Name) × Case)} (hwf : v.Wf) (hcanon : v.canon = v)
    (h : advanceReservation s prior binding observedAt v = .ok (r, recorded)) :
    (binding = prior.binding ∧ prior.last ≤ observedAt.instant ∧ prior.held = true) ∧ ∃ e, Spells v e ∧
      r = prior.after e ∧ prior.Allows (s.hasRecorded binding.key e) observedAt e ∧ recorded = s.recordedAfter binding.key e := by
  simp only [advanceReservation, bind_eq_ok, item_eq_ok, require_eq_ok, exists_const, requireCase_eq_ok] at h
  obtain ⟨hprior, _, hoperation, operation, rfl, state, hstate, h⟩ := h
  refine ⟨hprior, ?_⟩
  split at h
  · rename_i hresource
    simp only [bind_eq_ok, require_eq_ok, exists_const, pure_eq_ok, Prod.mk.injEq] at h
    obtain ⟨hnew, r', htransition, rfl, rfl⟩ := h
    obtain ⟨e, hspells, rfl, heop, hne, hallows⟩ :=
      resourceTransition_eq_ok hwf hcanon hoperation hstate hresource htransition
    have hrecorded : s.hasRecorded binding.key e = false := by
      rw [Ledger.hasRecorded, heop]
      exact decide_eq_false hnew
    refine ⟨e, hspells, rfl, hrecorded ▸ hallows observedAt, ?_⟩
    cases e with
    | recorded c receipt => exact absurd rfl (hne c receipt)
    | _ => rfl
  · split at h
    · rename_i hrunning
      simp only [bind_eq_ok, item_eq_ok, require_eq_ok, exists_const, pure_eq_ok, Prod.mk.injEq] at h
      obtain ⟨_, hcleanup, ⟨hcurrent, hdone, rfl⟩, rfl, rfl⟩ := h
      exact ⟨.running operation, ⟨hrunning ▸ hstate, hoperation, hcleanup, List.forall_mem_nil _⟩, rfl, ⟨hcurrent, hdone⟩, rfl⟩
    · split at h
      · rename_i hrecorded
        simp only [bind_eq_ok, pure_eq_ok, Prod.mk.injEq] at h
        obtain ⟨r', hcleanup, rfl, rfl⟩ := h
        obtain ⟨receipt, hspells, rfl, hallows⟩ := recordCleanup_eq_ok hwf hcanon hoperation (hrecorded ▸ hstate) hcleanup
        exact ⟨_, hspells, rfl, hallows _, rfl⟩
      · cases h

/-- What the branch on the prior state says of the row at hand. -/
theorem reserve_eq_ok {s : Ledger} {binding : AdmissionBinding} {observedAt : TimeText} {v : Json} {r : Reservation}
    {recorded : List ((Name × Name) × Case)} (hwf : v.Wf) (hcanon : v.canon = v)
    (h : reserve s binding observedAt v = .ok (r, recorded)) : ∃ row : Row, row.binding = binding ∧
      row.observedAt = observedAt ∧ Spells v row.event ∧ s.Admits row ∧ { r with last := observedAt.instant } = s.next row ∧
      recorded = s.recordedAfter binding.key row.event := by
  unfold reserve at h
  split at h
  · rename_i hlookup
    simp only [openReservation, bind_eq_ok, item_eq_ok, require_eq_ok, exists_const, pure_eq_ok, Prod.mk.injEq] at h
    obtain ⟨_, ⟨_, hstate, _, hoperation, _, hcleanup, ⟨rfl, rfl, rfl⟩, hheld, rfl⟩, rfl, rfl⟩ := h
    refine ⟨⟨s.count + 1, s.previous, binding, observedAt, .reserved⟩, rfl, rfl,
      ⟨hstate, hoperation, hcleanup, nofun⟩, ⟨rfl, rfl, ?_⟩, ?_, rfl⟩
    · rw [Row.key, hlookup]
      exact ⟨rfl, hheld⟩
    · rw [Ledger.next, Row.key, hlookup]
      rfl
  · rename_i prior hlookup
    obtain ⟨hprior, e, hspells, rfl, hallows, rfl⟩ := advanceReservation_eq_ok hwf hcanon h
    refine ⟨⟨s.count + 1, s.previous, binding, observedAt, e⟩, rfl, rfl, hspells, ⟨rfl, rfl, ?_⟩, ?_, rfl⟩
    · rw [Row.key, hlookup]
      exact ⟨hprior, hallows⟩
    · rw [Ledger.next, Row.key, hlookup]

omit [Runtime] in
/-- The row of a canonical line, from its members. -/
theorem row_toJson {v : Json} (hwf : v.Wf) (hcanon : v.canon = v) {u : Unit} {row : Row}
    (hclosed : closed v (Row.fields row.event) = .ok u) (hsequence : v.get? "sequence" = some (.int row.sequence))
    (hprevious : v.get? "previousDigest" = some (.str row.previousDigest.text))
    (hbinding : v.get? "binding" = some row.binding.toJson.canon)
    (htime : v.get? "observedAt" = some (.str row.observedAt.text)) (hspells : Spells v row.event) :
    v = row.toJson.canon := by
  refine eq_canon_of_closed_canon hwf hcanon hclosed (Row.nodup_fields _) (row.keys_toJson _ rfl) ?_
  rw [List.forall_mem_append]
  refine ⟨?_, hspells.resource⟩
  simp only [List.forall_mem_cons, hsequence, hprevious, hbinding, htime, hspells.state, hspells.operation,
    hspells.cleanup, caseJson_canon, (Event.cleanup_wf _).2, true_and]
  exact ⟨rfl, rfl, rfl, rfl, nofun⟩

/-! ## A row that is taken -/

omit [Runtime] in
/-- A resource row is read up to the branch on its state. -/
theorem resourceTransition_reads {prior : Reservation} {operation : Case} {v uid version state : Json} {i : Intent}
    (huid : uid.Wf ∧ uid.canon = uid) (hversion : version.Wf ∧ version.canon = version)
    (hresource : v.get? "resource" = some (i.toJson uid version).canon) (hcleanup : v.get? "cleanup" = some .null)
    (hstate : v.get? "state" = some state) (hcurrent : prior.current = some operation) {r : Reservation}
    (h : (if state = .str "CREATE_INTENT" then acceptIntent prior operation i uid version
      else acceptCreated prior operation i uid version) = .ok r) : resourceTransition prior operation v = .ok r := by
  have hclosed : closed (i.toJson uid version).canon resourceFields = .ok () :=
    closed_canon.mpr (closed_eq_ok.mpr ⟨_, rfl, fun _ => Iff.rfl⟩)
  have hget (k : String) := Json.get?_canon (i.wf_toJson huid.1 hversion.1) k
  have hgetUid : (i.toJson uid version).canon.get? "uid" = some uid := (hget "uid").trans (congrArg some huid.2)
  have hgetVersion : (i.toJson uid version).canon.get? "resourceVersion" = some version :=
    (hget "resourceVersion").trans (congrArg some hversion.2)
  simp only [resourceTransition, bind_eq_ok, item_eq_ok, require_eq_ok, exists_const, requireActionId_eq_ok,
    requireKind_eq_ok, requireName_eq_ok, requireDigest_eq_ok]
  exact ⟨_, hresource, (), hclosed, _, hcleanup, ⟨rfl, hcurrent⟩, _, hget "actionId", i.actionId, rfl, _, hget "apiVersion",
    rfl, _, hget "kind", i.identity.kind, rfl, _, hget "namespace", i.identity.nameSpace, rfl, _, hget "name",
    i.identity.name, rfl, _, hget "manifestDigest", i.manifestDigest, rfl, _, hgetUid, _, hgetVersion, _, hstate, h⟩

theorem recordCleanup_reads {prior : Reservation} {operation : Case} {receipt : Receipt} {observedAt : TimeText} {v : Json}
    {recorded : Bool} (hspells : Spells v (.recorded operation receipt))
    (hallows : prior.Allows recorded observedAt (.recorded operation receipt)) (hbinding : Valid prior.binding.toJson)
    (hreceipt : Valid receipt.val) :
    recordCleanup prior operation observedAt v = .ok (prior.after (.recorded operation receipt)) := by
  obtain ⟨hcurrent, remaining, hget, hexpected, haccounted⟩ := hallows
  obtain ⟨rows, -, hjson, hreads, -⟩ := cleanupReceipt_eq_ok (receipt.property.1.get? hget) hexpected
  obtain ⟨members, hmembers⟩ : ∃ members, receipt.val = .obj members := ⟨_, hreads⟩
  have hstate : receipt.val.get? "state" = some (.str (if rows = [] then "CLEAN" else "CLEANUP_PENDING")) := by
    rw [hreads, Json.get?_canon hjson]
    rfl
  have hremaining : (members.lookup "remainingResources").getD .null = .arr remaining := by
    rw [hmembers] at hget
    rw [show members.lookup "remainingResources" = _ from hget]
    rfl
  simp only [recordCleanup, bind_eq_ok, item_eq_ok, require_eq_ok, exists_const, canonicalDigest_none, pure_eq_ok,
    getItem_eq_ok]
  exact ⟨_, hspells.cleanup, ⟨hcurrent, congrArg isObject hmembers⟩, _, ⟨members, hmembers, hremaining⟩, _,
    ⟨hbinding, rfl⟩, _, hexpected, pyEq_refl receipt.property.1, (), haccounted, _, ⟨hreceipt, rfl⟩, _, hstate, rfl⟩

theorem advanceReservation_reads {s : Ledger} {prior : Reservation} {binding : AdmissionBinding} {observedAt : TimeText}
    {e : Event} {v : Json} (hspells : Spells v e) (hvalid : Valid binding.toJson ∧ Valid e.cleanup)
    (hprior : binding = prior.binding ∧ prior.last ≤ observedAt.instant ∧ prior.held = true)
    (hallows : prior.Allows (s.hasRecorded binding.key e) observedAt e) :
    advanceReservation s prior binding observedAt v = .ok (prior.after e, s.recordedAfter binding.key e) := by
  simp only [advanceReservation, bind_eq_ok, item_eq_ok, require_eq_ok, exists_const, requireCase_eq_ok]
  refine ⟨hprior, ?_⟩
  cases e with
  | reserved => exact hallows.elim
  | running operation =>
    refine ⟨_, hspells.operation, operation, rfl, .str "RUNNING", hspells.state, ?_⟩
    rw [if_neg (by decide), if_pos rfl]
    simp only [bind_eq_ok, item_eq_ok, require_eq_ok, exists_const, pure_eq_ok]
    exact ⟨_, hspells.cleanup, ⟨hallows.1, hallows.2, rfl⟩, rfl⟩
  | recorded operation receipt =>
    refine ⟨_, hspells.operation, operation, rfl, .str "RECORDED", hspells.state, ?_⟩
    rw [if_neg (by decide), if_neg (by decide), if_pos rfl,
      recordCleanup_reads hspells hallows (hprior.1 ▸ hvalid.1) hvalid.2]
    rfl
  | createIntent operation i =>
    obtain ⟨hrecorded, hcurrent, hfresh⟩ := hallows
    have hbranch : acceptIntent prior operation i .null .null = .ok (prior.own operation i none) := by
      simp only [acceptIntent, bind_eq_ok, require_eq_ok, exists_const, pure_eq_ok, and_self, and_true, true_and]
      exact hfresh
    have hreads := resourceTransition_reads ⟨Json.wf_null, rfl⟩ ⟨Json.wf_null, rfl⟩
      (hspells.resource _ (List.mem_singleton_self _)) hspells.cleanup hspells.state hcurrent hbranch
    refine ⟨_, hspells.operation, operation, rfl, .str "CREATE_INTENT", hspells.state, ?_⟩
    rw [if_pos (by decide), hreads]
    simp only [bind_eq_ok, require_eq_ok, exists_const, pure_eq_ok]
    exact ⟨of_decide_eq_false hrecorded, _, rfl, rfl⟩
  | created operation i uid version =>
    obtain ⟨hrecorded, hcurrent, hintended, hnew⟩ := hallows
    have hbranch : acceptCreated prior operation i (.str uid.text) (.str version.text) =
        .ok (prior.own operation i (some (uid, version))) := by
      simp only [acceptCreated, bind_eq_ok, require_eq_ok, exists_const, pure_eq_ok, requireText_eq_ok]
      exact ⟨hintended, uid, rfl, version, rfl, hnew, rfl⟩
    have hreads := resourceTransition_reads ⟨Json.wf_str _, rfl⟩ ⟨Json.wf_str _, rfl⟩
      (hspells.resource _ (List.mem_singleton_self _)) hspells.cleanup hspells.state hcurrent hbranch
    refine ⟨_, hspells.operation, operation, rfl, .str "CREATED", hspells.state, ?_⟩
    rw [if_pos (by decide), hreads]
    simp only [bind_eq_ok, require_eq_ok, exists_const, pure_eq_ok]
    exact ⟨of_decide_eq_false hrecorded, _, rfl, rfl⟩

theorem reserve_reads {s : Ledger} {row : Row} {v : Json} (hspells : Spells v row.event)
    (hvalid : Valid row.binding.toJson ∧ Valid row.event.cleanup) (hadmits : s.Admits row) :
    ∃ r, reserve s row.binding row.observedAt v = .ok (r, s.recordedAfter row.key row.event) ∧
      { r with last := row.observedAt.instant } = s.next row := by
  have hevent := hadmits.event
  unfold reserve Ledger.next
  rw [Row.key] at hevent ⊢
  cases hlookup : s.reservations.lookup row.binding.key with
  | none =>
    rw [hlookup] at hevent
    obtain ⟨hreserved, hheld⟩ := hevent
    rw [hreserved] at hspells ⊢
    refine ⟨.first row, ?_, rfl⟩
    simp only [openReservation, bind_eq_ok, item_eq_ok, require_eq_ok, exists_const, pure_eq_ok]
    exact ⟨_, ⟨_, hspells.state, _, hspells.operation, _, hspells.cleanup, ⟨rfl, rfl, rfl⟩, hheld, rfl⟩, rfl⟩
  | some prior =>
    rw [hlookup] at hevent
    exact ⟨_, advanceReservation_reads hspells hvalid hevent.1 hevent.2, rfl⟩

/-- A row within the bounds of a ledger line. -/
structure Row.Fits (row : Row) : Prop where
  valid : Valid row.toJson
  size : 0 < row.text.length ∧ row.text.length ≤ 32768
  bounded : ∃ left, bounded 0 32768 row.toJson.canon = .ok left

theorem Row.Fits.document {row : Row} (h : row.Fits) : document (.bytes row.text) 32768 = .ok row.toJson.canon := by
  obtain ⟨left, hleft⟩ := h.bounded
  have hcanonical := canonical_canon row.wf_toJson h.valid
  have hread : requireCanonicalDocument row.text = .ok row.toJson.canon := by
    rw [requireCanonicalDocument_eq_ok, canonicalText_canon]
    exact ⟨hcanonical, .inl rfl, h.size.2.trans (by decide)⟩
  simp only [Admission.document, bind_eq_ok, require_eq_ok, exists_const, canonicalBytes_eq_ok, pure_eq_ok]
  exact ⟨h.size, _, hread, row.text, ⟨hcanonical.valid, canonicalText_canon _⟩, rfl, left, hleft, h.size.2, rfl⟩

omit [Runtime] in
theorem Row.spells (row : Row) : Spells row.toJson.canon row.event := by
  have hget (k : String) := Json.get?_canon row.wf_toJson k
  refine ⟨hget "state", (hget "operation").trans (congrArg some (caseJson_canon _)),
    (hget "cleanup").trans (congrArg some row.event.cleanup_wf.2), fun m hm => ?_⟩
  have hkey : row.toJson.get? m.1 = some m.2 := Json.lookup_of_mem (Json.wf_obj.mp row.wf_toJson).1 (List.mem_append_right _ hm)
  rw [hget, hkey]
  rfl

omit [Runtime] in
theorem fields_eq (e : Event) : Row.fields e =
    if isOneOf (.str e.state) ["CREATE_INTENT", "CREATED"] then ledgerFields ++ ["resource"] else ledgerFields := by
  rw [Row.fields, Event.keys_resource]
  split
  · rfl
  · exact List.append_nil _

/-- One line is the text of one admitted row. -/
theorem replayLine_eq_ok {s t : Ledger} {line : Bytes} : replayLine s line = .ok t ↔
    ∃ row : Row, (line = row.text ∧ row.Fits) ∧ s.Admits row ∧ t = s.push row := by
  constructor
  · intro h
    simp only [replayLine, bind_eq_ok, item_eq_ok, require_eq_ok, exists_const, requireTime_eq_ok, canonicalDigest_none,
      pure_eq_ok, getItem_eq_ok] at h
    obtain ⟨v, hdocument, -, state, ⟨members, rfl, hstate⟩, u, hclosed, _, hbinding, binding, hread, h⟩ := h
    obtain ⟨_, hsequence, _, hprevious, ⟨rfl, rfl⟩, _, htime, observedAt, rfl, ⟨r, recorded⟩, hreserve, digest, hdigest, h⟩ := h
    obtain ⟨⟨hwf, hcanon, -⟩, hline, hlength, hleft⟩ := document_bytes hdocument
    obtain ⟨row, rfl, rfl, hspells, hadmits, hnext, hrecorded⟩ := reserve_eq_ok hwf hcanon hreserve
    have hstate' : state = .str row.event.state := by
      rw [← hstate, show members.lookup "state" = some _ from hspells.state]
      rfl
    rw [hstate', ← fields_eq] at hclosed
    rw [AdmissionBinding.read_eq_ok (hwf.get? hbinding) (Json.canon_get? hwf hcanon hbinding) hread] at hbinding
    rw [← hadmits.sequence] at hsequence
    rw [← hadmits.previous] at hprevious
    have hrow := row_toJson hwf hcanon hclosed hsequence hprevious hbinding htime hspells
    have htext : line = row.text := by rw [hline, hrow, canonicalText_canon, Row.text]
    rw [hrow, digestOf_canon] at hdigest
    rw [hrow] at hleft
    refine ⟨row, ⟨htext, validAt_canon.mp hdigest.1, htext ▸ hlength, hleft⟩, hadmits, ?_⟩
    rw [← h, ← hdigest.2, hnext, hrecorded]
    rfl
  · rintro ⟨row, ⟨rfl, hfits⟩, hadmits, rfl⟩
    have hget (k : String) := Json.get?_canon row.wf_toJson k
    have hbinding : Valid row.binding.toJson := hfits.valid.get? (show row.toJson.get? "binding" = _ from rfl)
    have hcleanup : Valid row.event.cleanup := hfits.valid.get? (show row.toJson.get? "cleanup" = _ from rfl)
    obtain ⟨r, hreserve, hnext⟩ := reserve_reads row.spells ⟨hbinding, hcleanup⟩ hadmits
    have hclosed : closed row.toJson.canon (if isOneOf (.str row.event.state) ["CREATE_INTENT", "CREATED"] then
        ledgerFields ++ ["resource"] else ledgerFields) = .ok () := by
      rw [← fields_eq, closed_canon, closed_eq_ok]
      exact ⟨_, rfl, fun k => by rw [row.keys_toJson _ rfl]⟩
    have hsequence : row.toJson.canon.get? "sequence" = some (.int (s.count + 1 : ℕ)) := by
      rw [hget, ← hadmits.sequence]
      rfl
    have hprevious : row.toJson.canon.get? "previousDigest" = some (.str s.previous.text) := by
      rw [hget, ← hadmits.previous]
      rfl
    simp only [replayLine, bind_eq_ok, item_eq_ok, require_eq_ok, exists_const, requireTime_eq_ok, canonicalDigest_none,
      pure_eq_ok]
    refine ⟨_, hfits.document, rfl, _, getItem_of_get? row.spells.state, (), hclosed, _, hget "binding", row.binding,
      row.binding.read_toJson, _, hsequence, _, hprevious, ⟨rfl, rfl⟩, _, hget "observedAt", row.observedAt, rfl,
      _, hreserve, _, ⟨validAt_canon.mpr hfits.valid, rfl⟩, ?_⟩
    rw [digestOf_canon]
    dsimp only
    rw [hnext]
    rfl

/-! ## Whole byte strings -/

/-- The rows a byte string spells. -/
structure History (raw : Bytes) (rows : List Row) : Prop where
  lines : splitLines raw = rows.map Row.text
  fits : ∀ row ∈ rows, row.Fits
  ended : Ended raw
  length : raw.length ≤ maxHistory
  count : rows.length ≤ maxRows

theorem spells_lines {lines : List Bytes} {rows : List Row} :
    List.Forall₂ (fun line row => line = row.text ∧ row.Fits) lines rows ↔
      lines = rows.map Row.text ∧ ∀ row ∈ rows, row.Fits := by
  constructor
  · intro h
    induction h with
    | nil => exact ⟨rfl, List.forall_mem_nil _⟩
    | cons hrow _ ih =>
      obtain ⟨hline, hfits⟩ := hrow
      rw [List.map_cons, ← hline, ← ih.1, List.forall_mem_cons]
      exact ⟨rfl, hfits, ih.2⟩
  · rintro ⟨rfl, hfits⟩
    rw [List.forall₂_map_left_iff, List.forall₂_same]
    intro row hrow
    exact ⟨rfl, hfits row hrow⟩

/-- The loop over the texts of fitting rows is the machine over the rows. -/
theorem foldlM_texts {rows : List Row} (hfits : ∀ row ∈ rows, row.Fits) {s t : Ledger} (h : machine.Replays s rows t) :
    (rows.map Row.text).foldlM replayLine s = .ok t := by
  have hline (s t : Ledger) (line : Bytes) : replayLine s line = .ok t ↔
      ∃ row : Row, (line = row.text ∧ row.Fits) ∧ machine.admits s row ∧ t = machine.push s row := replayLine_eq_ok
  rw [Machine.foldlM_eq_ok hline]
  exact ⟨rows, spells_lines.mpr ⟨rfl, hfits⟩, h⟩

/-- The reader accepts exactly the spelled replays. -/
theorem parseReservations_eq_ok {raw : Bytes} {s : Ledger} :
    parseReservations raw = .ok s ↔ ∃ rows, History raw rows ∧ machine.Replays .empty rows s := by
  have hline (s t : Ledger) (line : Bytes) : replayLine s line = .ok t ↔
      ∃ row : Row, (line = row.text ∧ row.Fits) ∧ machine.admits s row ∧ t = machine.push s row := replayLine_eq_ok
  simp only [parseReservations, bind_eq_ok, require_eq_ok, exists_const]
  rw [Machine.foldlM_eq_ok hline]
  constructor
  · rintro ⟨⟨hlength, hended⟩, hcount, rows, hlines, hreplays⟩
    obtain ⟨hlines, hfits⟩ := spells_lines.mp hlines
    rw [hlines, List.length_map] at hcount
    exact ⟨rows, ⟨hlines, hfits, hended, hlength, hcount⟩, hreplays⟩
  · rintro ⟨rows, ⟨hlines, hfits, hended, hlength, hcount⟩, hreplays⟩
    refine ⟨⟨hlength, hended⟩, ?_, rows, spells_lines.mpr ⟨hlines, hfits⟩, hreplays⟩
    rwa [hlines, List.length_map]

omit [Runtime] in
theorem text_map_injective : Function.Injective (List.map Row.text) :=
  List.map_injective_iff.mpr fun _ _ h => Row.text_injective h

/-- The rows of an accepted byte string are its own. -/
theorem History.unique {raw : Bytes} {rows rows' : List Row} (h : History raw rows) (h' : History raw rows') : rows = rows' :=
  text_map_injective (h.lines.symm.trans h'.lines)

/-- What an accepted history was extended by. -/
theorem History.extension {raw rest : Bytes} {rows all : List Row} {s t : Ledger} (h : History raw rows)
    (hs : machine.Replays .empty rows s) (h' : History (raw ++ rest) all) (ht : machine.Replays .empty all t) :
    ∃ more, all = rows ++ more ∧ machine.Replays s more t := by
  have hlines := h'.lines
  rw [splitLines, splitKeep_append h.ended, List.map_append, ← splitLines, h.lines] at hlines
  obtain ⟨front, more, rfl, hfront, -⟩ := List.map_eq_append_iff.mp hlines.symm
  obtain rfl := text_map_injective hfront
  obtain ⟨u, hu, hmore⟩ := Machine.replays_append.mp ht
  rw [hu.unique hs] at hmore
  exact ⟨more, rfl, hmore⟩

end HarnessConformance.Admission
