import HarnessConformance.Campaign.Run
import HarnessConformance.PlainData

/-! # What a control leaves behind

A refusal of a control names a short plain reason, and the observation of such an outcome is always encoded. -/

namespace HarnessConformance.Campaign
open Lib Lib.Outcome Lib.Json LinuxReadiness
set_option autoImplicit false

/-! ## Refusals -/

/-- A reason as the sources spell them. -/
def isReason (reason : String) : Bool := isPlain reason && reason.length ≤ 64

/-- `ConformanceError`, with such a reason. -/
def isRefusal : PyError → Bool
  | .conformance reason _ => isReason reason
  | _ => false

/-- Every such refusal is allowed. -/
def Lenient (allowed : PyError → Bool) : Prop := ∀ reason message, isReason reason = true → allowed (.conformance reason message) = true

theorem lenient_isRefusal : Lenient isRefusal := fun _ _ h => h

theorem lenient_isConformance : Lenient PyError.isConformance := fun _ _ _ => rfl

section
variable {allowed : PyError → Bool} (h : Lenient allowed)
include h

theorem raises_requireObject {v : Json} {name : String} : Raises allowed (requireObject v name) := by
  cases v with
  | obj members => exact raises_ok
  | _ => exact raises_error (h _ _ (by decide))

theorem raises_closedWith {members : Json.Members} {required optional : List String} :
    Raises allowed (closedWith (.obj members) required optional) :=
  (raises_conform (h _ _ (by decide))).bind fun _ _ => raises_conform (h _ _ (by decide))

/-- The two checks every closed object begins with. -/
theorem raises_object {β : Type} {v : Json} {name : String} {fields : List String} {f : Py β}
    (hf : ∀ members, v = .obj members → (∀ k, k ∈ Json.keys members ↔ k ∈ fields) → Raises allowed f) :
    Raises allowed (do let _ ← requireObject v name; closed v fields; f) := by
  refine (raises_requireObject h).bind fun members hmembers => ?_
  obtain rfl := requireObject_eq_ok.mp hmembers
  refine (raises_closedWith h).bind fun _ hclosed => ?_
  obtain ⟨ms, hms, hkeys⟩ := closed_eq_ok.mp hclosed
  obtain rfl := Json.obj.inj hms
  exact hf members rfl hkeys

theorem raises_obj {v : Json} {fields : List String} {name : String} : Raises allowed (obj v fields name) := by
  refine (raises_requireObject h).bind fun members hmembers => ?_
  obtain rfl := requireObject_eq_ok.mp hmembers
  exact (raises_closedWith h).bind fun _ _ => raises_ok

theorem raises_requireId {v : Json} {name : String} : Raises allowed (requireId v name) :=
  raises_requireText (h _ _ (by decide))

theorem raises_requireDigest {v : Json} {name : String} : Raises allowed (requireDigest v name) :=
  raises_requireText (h _ _ (by decide))

theorem raises_requireKeyId {v : Json} {name : String} : Raises allowed (requireKeyId v name) :=
  raises_requireText (h _ _ (by decide))

theorem raises_requireTime {v : Json} {name : String} : Raises allowed (requireTime v name) := by
  have hrefusal : allowed (.conformance "INVALID_TIME" (name ++ " must be UTC RFC3339")) = true := h _ _ (by decide)
  unfold requireTime
  dsimp only
  split
  · split_ifs
    · split
      · exact raises_ok
      · exact raises_error hrefusal
    · exact raises_error hrefusal
  · exact raises_error hrefusal

theorem raises_b64urlDecode {v : Json} {expectedLength : ℕ} : Raises allowed (Crypto.b64urlDecode v expectedLength) := by
  have hrefusal : allowed (.conformance "INVALID_BASE64URL" "value must be unpadded base64url") = true := h _ _ (by decide)
  unfold Crypto.b64urlDecode
  dsimp only
  split
  · split_ifs
    · exact raises_error hrefusal
    · split
      · exact raises_error hrefusal
      · exact (raises_conform (h _ _ (by decide))).bind fun _ _ => raises_ok
  · exact raises_error hrefusal

theorem valueReasons_allowed : ∀ reason ∈ valueReasons, ∀ message, allowed (.conformance reason message) = true := by
  have hreasons : ∀ reason ∈ valueReasons, isReason reason = true := by
    simp only [valueReasons, List.forall_mem_cons]
    exact ⟨by decide, by decide, by decide, by decide, by decide, nofun⟩
  exact fun reason hreason message => h reason message (hreasons reason hreason)

end

section

theorem closedWith_eq_ok {members : Json.Members} {required optional : List String} {u : Unit} :
    closedWith (.obj members) required optional = .ok u ↔
      (∀ k ∈ required, k ∈ Json.keys members) ∧ ∀ k ∈ Json.keys members, k ∈ required ++ optional := by
  simp only [closedWith, bind_eq_ok, conform_eq_ok, exists_const, sortedNames_eq_nil, List.filter_eq_nil_iff,
    decide_eq_true_eq, not_not]

theorem exists_get?_of_mem_keys {members : Json.Members} {k : String} (h : k ∈ Json.keys members) :
    ∃ v, (Json.obj members).get? k = some v := by
  rw [← Option.ne_none_iff_exists', Json.get?]
  exact fun hnone => Json.lookup_eq_none.mp hnone h

/-- A key that the object was closed over is there. -/
theorem raises_item_of_keys {allowed : PyError → Bool} {members : Json.Members} {fields : List String}
    (hkeys : ∀ k, k ∈ Json.keys members ↔ k ∈ fields) {k : String} (hk : k ∈ fields) : Raises allowed (item (.obj members) k) := by
  obtain ⟨v, hv⟩ := exists_get?_of_mem_keys ((hkeys k).mpr hk)
  exact raises_item hv

theorem mem_keys_of_get? {members : Json.Members} {k : String} {v : Json} (h : (Json.obj members).get? k = some v) :
    k ∈ Json.keys members :=
  Json.lookup_isSome.mp (Option.isSome_of_eq_some h)

theorem closedWith_unknown {members : Json.Members} {required optional : List String}
    (hmissing : ∀ k ∈ required, k ∈ Json.keys members) (hunknown : ¬ ∀ k ∈ Json.keys members, k ∈ required ++ optional) :
    ∃ message, closedWith (.obj members) required optional = .error (.conformance "UNKNOWN_FIELD" message) := by
  have hnone : sortedNames (required.filter fun k => k ∉ Json.keys members) = [] := by
    rw [sortedNames_eq_nil, List.filter_eq_nil_iff]
    simpa using hmissing
  have hextra : ¬ sortedNames ((Json.keys members).filter fun k => k ∉ required ++ optional) = [] := by
    rw [sortedNames_eq_nil, List.filter_eq_nil_iff]
    simpa using hunknown
  exact ⟨_, by rw [closedWith, conform, guardWith_of hnone, ok_bind, conform, guardWith, if_neg hextra]⟩

end

/-! ## Outcomes -/

/-- An outcome with a short plain reason and a small plain detail. -/
structure Outcome.Plain (o : Outcome) : Prop where
  reason : isReason o.reason = true
  detail : Slim 320 1 ("detail", o.detail)

theorem isReason_iff {reason : String} : isReason reason = true ↔ isPlain reason = true ∧ reason.length ≤ 64 := by
  rw [isReason, Bool.and_eq_true, decide_eq_true_eq]

theorem Outcome.plain_refused {reason : String} (h : isReason reason = true) : (Outcome.refused reason).Plain := by
  refine ⟨h, @Slim.obj _ _ 66 _ 2 _ (shortKey rfl) ?_ le_rfl (by decide)⟩
  rw [List.forall_mem_cons, List.forall_mem_cons]
  obtain ⟨hplain, hlength⟩ := isReason_iff.mp h
  exact ⟨@slim_of_isSlim [("valid", .bool false)] _ _ (by decide) _ List.mem_cons_self,
    .text (shortKey rfl) hplain (Nat.add_le_add_right hlength 2), nofun⟩

/-- The bounds of a closed outcome. -/
theorem Outcome.plain_of_isSlim {o : Outcome} (h : isReason o.reason = true ∧ isSlim 320 1 ("detail", o.detail) = true) : o.Plain :=
  ⟨h.1, @slim_of_isSlim [("detail", o.detail)] _ _ (by simpa using h.2) _ List.mem_cons_self⟩

/-- A refusal becomes an outcome, and nothing else is left over. -/
theorem onRefusal_of_raises {α : Type} {refused : String → Outcome} {done : α → Outcome} {x : Py α} (h : Raises isRefusal x) :
    ∃ o, onRefusal refused done x = .ok o ∧
      ((∃ a, x = .ok a ∧ o = done a) ∨ ∃ reason message, x = .error (.conformance reason message) ∧ isReason reason = true ∧ o = refused reason) := by
  cases x with
  | ok a => exact ⟨done a, rfl, .inl ⟨a, rfl, rfl⟩⟩
  | error e =>
    have hrefusal := h e rfl
    cases e with
    | conformance reason message => exact ⟨refused reason, rfl, .inr ⟨reason, message, rfl, hrefusal, rfl⟩⟩
    | _ => cases hrefusal

theorem ResultStatus.name_reason (s : ResultStatus) : isReason s.name = true := by
  cases s <;> decide

/-- The observation of a plain outcome is always encoded. -/
theorem observation_of_plain [Runtime] (controlId : Identifier) {o : Outcome} (h : o.Plain) :
    ∃ digest, observation (.str controlId.text) o = .ok digest := by
  have htext {key text : String} (hkey : isPlain key = true ∧ key.length ≤ 32) (htext : isReason text = true) :
      Slim 320 1 (key, .str text) := by
    obtain ⟨hplain, hlength⟩ := isReason_iff.mp htext
    exact (Slim.text hkey hplain (Nat.add_le_add_right hlength 2)).mono (by decide) (by decide)
  have hslim : ∀ m ∈ [("controlId", Json.str controlId.text), ("detail", o.detail), ("reasonCode", .str o.reason),
      ("status", .str o.status.name)], Slim 320 1 m := by
    rw [List.forall_mem_cons, List.forall_mem_cons, List.forall_mem_cons, List.forall_mem_cons]
    exact ⟨(slim_id (shortKey rfl) controlId).mono (by decide) (by decide), h.detail, htext (shortKey rfl) h.reason,
      htext (shortKey rfl) o.status.name_reason, nofun⟩
  exact ⟨_, canonicalDigest_eq_ok.mpr ⟨validAt_slim hslim (by decide : 4 ≤ _) (by decide) (by decide), rfl⟩⟩

/-! ## Controls -/

/-- What `validate_campaign` finds in a control. -/
structure ControlShape where
  controlId : Identifier
  handler : Handler
  required : Bool
  axis : String
  input : Json.Members

structure ControlShape.At (control : Json) (c : ControlShape) : Prop where
  controlId : control.get? "controlId" = some (.str c.controlId.text)
  handler : control.get? "handler" = some (.str c.handler.name)
  required : control.get? "required" = some (.bool c.required)
  axis : control.get? "axis" = some (.str c.axis)
  known : c.axis ∈ evidenceAxes
  input : control.get? "input" = some (.obj c.input)

theorem exists_control_of_validateControl {executionClass control : Json} {seen : List String} {controlId : String}
    (h : validateControl executionClass seen control = .ok controlId) : ∃ c : ControlShape, c.At control := by
  simp only [validateControl, bind_eq_ok, item_eq_ok, conform_eq_ok, requireId_eq_ok, requireObject_eq_ok, exists_const] at h
  obtain ⟨_, -, _, -, _, hid, i, rfl, -, handler, hhandler, hknown, required, hrequired, hbool, axis, haxis, hone, _, hinput,
    input, rfl, -⟩ := h
  obtain ⟨h, hname⟩ := Option.ne_none_iff_exists'.mp hknown
  obtain rfl := Handler.ofJson?_eq_some.mp hname
  obtain ⟨a, ha, rfl⟩ := isOneOf_iff.mp hone
  cases required with
  | bool b => exact ⟨⟨i, h, b, a, input⟩, hid, hhandler, hrequired, haxis, ha, hinput⟩
  | _ => cases hbool

theorem exists_control_of_validateControls {executionClass : Json} {seen : List String} {controls : List Json} {u : Unit}
    (h : validateControls executionClass seen controls = .ok u) : ∀ control ∈ controls, ∃ c : ControlShape, c.At control := by
  induction controls generalizing seen with
  | nil => exact nofun
  | cons control controls ih =>
    rw [validateControls, bind_eq_ok] at h
    obtain ⟨controlId, hcontrol, hrest⟩ := h
    exact List.forall_mem_cons.mpr ⟨exists_control_of_validateControl hcontrol, ih hrest⟩

/-! ## Campaigns -/

/-- What `validate_campaign` finds in a campaign. -/
structure CampaignShape where
  campaignId : Identifier
  version : Text versionPattern.fullmatch
  executionClass : String
  controls : List Json

/-- The axes that an execution class may originate. -/
def axesOf (executionClass : String) : List String := if executionClass = "OFFLINE_TEST" then ["UNIT"] else liveEvidenceAxes

structure CampaignShape.At (document : Json) (c : CampaignShape) : Prop where
  campaignId : document.get? "campaignId" = some (.str c.campaignId.text)
  version : document.get? "version" = some (.str c.version.text)
  executionClass : document.get? "executionClass" = some (.str c.executionClass)
  isClass : c.executionClass ∈ ["OFFLINE_TEST", "LIVE_CAMPAIGN"]
  controls : document.get? "controls" = some (.arr c.controls)
  bounded : c.controls ≠ [] ∧ c.controls.length ≤ 512
  control : ∀ control ∈ c.controls, ∃ shape : ControlShape, shape.At control ∧ shape.axis ∈ axesOf c.executionClass

theorem raises_fieldsOf {allowed : PyError → Bool} {controls : List Json} {key : String}
    (hkey : ∀ control ∈ controls, ∃ v, control.get? key = some v) : Raises allowed (fieldsOf controls key) := by
  refine raises_mapM fun control hcontrol => ?_
  obtain ⟨v, hv⟩ := hkey control hcontrol
  exact raises_item hv

theorem fieldsOf_mem {controls fields : List Json} {key : String} (h : fieldsOf controls key = .ok fields) {control value : Json}
    (hcontrol : control ∈ controls) (hvalue : control.get? key = some value) : value ∈ fields := by
  obtain ⟨found, hfound, hitem⟩ := forall₂_mem_left (mapM_eq_ok.mp h) hcontrol
  rw [item_eq_ok, hvalue, Option.some.injEq] at hitem
  exact hitem ▸ hfound

variable [Runtime]

theorem campaign_of_validateCampaign {document campaign : Json} (h : validateCampaign document = .ok campaign) :
    campaign = document ∧ ∃ c : CampaignShape, c.At document := by
  simp only [validateCampaign, bind_eq_ok, item_eq_ok] at h
  obtain ⟨_, -, _, -, _, -, _, -, _, hid, campaignId, hcampaignId, _, hversion, version, hisVersion, _, -, _, -, executionClass,
    hclass, _, hisClass, _, -, _, -, value, hvalue, h⟩ := h
  obtain ⟨name, hname, rfl⟩ := isOneOf_iff.mp (conform_eq_ok.mp hisClass)
  cases value with
  | arr controls =>
    simp only [bind_eq_ok, conform_eq_ok, exists_const] at h
    obtain ⟨hbounded, _, hcontrols, axes, haxes, hoffline, hlive, handlers, -, h⟩ := h
    refine ⟨?_, ⟨campaignId, version, name, controls⟩, ?_⟩
    · split at h
      · simp only [bind_eq_ok, pure_eq_ok] at h
        obtain ⟨_, -, _, -, rfl⟩ := h
        rfl
      · simp only [bind_eq_ok, pure_eq_ok] at h
        obtain ⟨_, -, rfl⟩ := h
        rfl
    · refine ⟨requireId_eq_ok.mp hcampaignId ▸ hid, requireText_eq_ok.mp hisVersion ▸ hversion, hclass, hname, hvalue, hbounded,
        fun control hcontrol => ?_⟩
      obtain ⟨shape, hshape⟩ := exists_control_of_validateControls hcontrols control hcontrol
      have haxis := fieldsOf_mem haxes hcontrol hshape.axis
      refine ⟨shape, hshape, ?_⟩
      rcases List.mem_cons.mp hname with rfl | hname
      · have hunit := List.all_eq_true.mp (hoffline rfl) _ haxis
        simpa [axesOf] using hunit
      · obtain rfl := List.mem_singleton.mp hname
        obtain ⟨a, ha, haxis⟩ := isOneOf_iff.mp (List.all_eq_true.mp (hlive rfl) _ haxis)
        rw [Json.str.inj haxis]
        exact ha
  | _ => cases h

/-! ## Environments -/

/-- What `validate_environment` finds in an intake. -/
structure EnvironmentShape where
  environmentId : Identifier
  tenantId : Identifier
  capabilities : Json.Members

structure EnvironmentShape.At (document : Json) (e : EnvironmentShape) : Prop where
  environmentId : document.get? "environmentId" = some (.str e.environmentId.text)
  tenantId : document.get? "tenantId" = some (.str e.tenantId.text)
  capabilities : document.get? "capabilities" = some (.obj e.capabilities)

omit [Runtime] in
theorem environment_of_validateEnvironment {document environment : Json} (h : validateEnvironment document = .ok environment) :
    environment = document ∧ ∃ e : EnvironmentShape, e.At document := by
  simp only [validateEnvironment, bind_eq_ok, item_eq_ok, requireId_eq_ok, requireObject_eq_ok, pure_eq_ok] at h
  obtain ⟨_, -, _, -, _, -, _, -, _, hid, environmentId, rfl, _, htenant, tenantId, rfl, _, -, _, -, _, hcapabilities, capabilities, rfl,
    _, -, _, -, _, -, rfl⟩ := h
  exact ⟨rfl, ⟨environmentId, tenantId, capabilities⟩, hid, htenant, hcapabilities⟩

/-! ## Rounds -/

section
variable {environment control : Json} {c : ControlShape}

/-- A round whose handler returns, or refuses, a plain outcome. -/
theorem runControl_of_plain (hc : c.At control) {o : Outcome}
    (ho : onRefusal Outcome.refused id (handle environment c.handler (.obj c.input)) = .ok o) (hplain : o.Plain) :
    ∃ digest, runControl environment control =
      .ok ⟨.str c.controlId.text, .str c.handler.name, .bool c.required, .str c.axis, o.status, o.reason, digest⟩ := by
  obtain ⟨digest, hdigest⟩ := observation_of_plain c.controlId hplain
  have hinput : (do handle environment c.handler (← item control "input")) = handle environment c.handler (.obj c.input) := by
    rw [item_eq_ok.mpr hc.input, ok_bind]
  refine ⟨digest, ?_⟩
  rw [runControl, item_eq_ok.mpr hc.handler, ok_bind, Handler.ofJson?_eq_some.mpr rfl]
  dsimp only
  rw [hinput, ho, ok_bind, item_eq_ok.mpr hc.controlId, ok_bind, hdigest, ok_bind, item_eq_ok.mpr hc.required, ok_bind,
    item_eq_ok.mpr hc.axis, ok_bind]
  rfl

end

section
variable {campaign environment report : Json} {runId observedAt : String} {c : CampaignShape} {e : EnvironmentShape}

/-- A run returns a report when every round and the two digests do. -/
theorem runCampaign_eq_ok (hcampaign : validateCampaign campaign = .ok campaign)
    (henvironment : validateEnvironment environment = .ok environment) (hc : c.At campaign) :
    runCampaign campaign environment runId observedAt = .ok report ↔ ∃ results,
      List.Forall₂ (fun control result => runControl environment control = .ok result) c.controls results ∧
        ∃ body, reportBody campaign environment runId observedAt results = .ok body ∧
          ∃ digest, canonicalDigest (.obj body) (some "planeon.harness-conformance-report/v1alpha1") = .ok digest ∧
            .obj (body ++ [("reportDigest", .str digest.text)]) = report := by
  have hcontrols : controlsOf campaign = .ok c.controls := by
    rw [controlsOf, item_eq_ok.mpr hc.controls, ok_bind]
    rfl
  simp only [runCampaign, hcampaign, henvironment, ok_bind, runResults, hcontrols, bind_eq_ok, pure_eq_ok, mapM_eq_ok]

omit [Runtime] in
theorem exists_reportBody {results : List ControlResult} (hc : c.At campaign) (he : e.At environment) :
    ∃ body, reportBody campaign environment runId observedAt results = .ok body ∧
      ∀ tail, (Json.obj (body ++ tail)).get? "results" = some (.arr (results.map ControlResult.asDict)) := by
  have hfield (body tail : Json.Members) {v : Json} (h : body.lookup "results" = some v) :
      (Json.obj (body ++ tail)).get? "results" = some v := by
    rw [Json.get?, List.lookup_append, h]
    rfl
  have hbody : ∃ body, reportBody campaign environment runId observedAt results = .ok body ∧
      body.lookup "results" = some (.arr (results.map ControlResult.asDict)) := by
    rw [reportBody, item_eq_ok.mpr hc.campaignId, ok_bind, item_eq_ok.mpr hc.version, ok_bind, item_eq_ok.mpr he.environmentId, ok_bind,
      item_eq_ok.mpr hc.executionClass, ok_bind, item_eq_ok.mpr he.tenantId, ok_bind]
    exact ⟨_, rfl, rfl⟩
  obtain ⟨body, hbody, hresults⟩ := hbody
  exact ⟨body, hbody, fun tail => hfield body tail hresults⟩

end

/-- A returned report holds what the rounds of its controls returned. -/
theorem rounds_of_runCampaign {campaign environment report : Json} {runId observedAt : String} {c : CampaignShape}
    (hc : c.At campaign) (h : runCampaign campaign environment runId observedAt = .ok report) : ∃ results,
      List.Forall₂ (fun control result => runControl environment control = .ok result) c.controls results ∧
        report.get? "results" = some (.arr (results.map ControlResult.asDict)) := by
  simp only [runCampaign, runResults, controlsOf, reportBody, bind_eq_ok, pure_eq_ok, item_eq_ok] at h
  obtain ⟨document, hcampaign, e, henvironment, results, ⟨controls, ⟨value, hvalue, hiterate⟩, hresults⟩, _,
    ⟨_, -, _, -, _, -, _, -, _, -, rfl⟩, digest, -, rfl⟩ := h
  obtain ⟨rfl, -⟩ := campaign_of_validateCampaign hcampaign
  obtain ⟨rfl, -⟩ := environment_of_validateEnvironment henvironment
  rw [hc.controls, Option.some.injEq] at hvalue
  obtain rfl := Except.ok.inj (hvalue ▸ hiterate : iterate (.arr c.controls) = .ok controls)
  exact ⟨results, mapM_eq_ok.mp hresults, rfl⟩

/-! ## A small campaign -/

namespace Sample

def control (handler : Handler) (input : Json.Members) : Json :=
  .obj [("controlId", .str "sample.control"), ("handler", .str handler.name), ("required", .bool true), ("axis", .str "UNIT"),
    ("input", .obj input)]

/-- A campaign of one control. -/
def campaign (control : Json) : Json :=
  .obj [("schemaVersion", .str "harness.planeon.ai/conformance-campaign/v1alpha1"), ("campaignId", .str "sample"),
    ("version", .str "1.0.0"), ("description", .str "one control"), ("executionClass", .str "OFFLINE_TEST"),
    ("environmentFixture", .str "environment.json"), ("controls", .arr [control])]

def environment : Json :=
  .obj [("schemaVersion", .str "harness.planeon.ai/environment-intake/v1alpha1"), ("environmentId", .str "local"),
    ("tenantId", .str "tenant"), ("capturedAt", .str "2026-01-01T00:00:00Z"), ("capabilities", .obj [])]

omit [Runtime] in
theorem at_control (handler : Handler) (input : Json.Members) :
    ControlShape.At (control handler input) ⟨⟨"sample.control", by decide⟩, handler, true, "UNIT", input⟩ :=
  ⟨rfl, rfl, rfl, rfl, List.mem_cons_of_mem _ List.mem_cons_self, rfl⟩

end Sample

end HarnessConformance.Campaign
