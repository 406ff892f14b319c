import HarnessConformance.Campaign.Refusals

/-! # What stops a run

Every validator that a control reaches refuses what it does not accept, but for a few partial operations on the
control's input: hashing, `lower` and writing a large integer. A run returns its report exactly when no control
reaches one of them. -/

namespace HarnessConformance.Campaign
open Lib Lib.Outcome Lib.Json LinuxReadiness Crypto
set_option autoImplicit false

/-! ## Validators that refuse -/

section
variable {allowed : PyError → Bool} (h : Lenient allowed)
include h

theorem raises_rejectSecretShape (path : String) (v : Json) : Raises allowed (rejectSecretShape path v) := by
  induction v generalizing path with
  | arr items ih =>
    rw [rejectSecretShape]
    generalize 0 = index
    induction items generalizing index with
    | nil => exact raises_ok
    | cons v vs ihs =>
      rw [List.forall_mem_cons] at ih
      rw [rejectItems]
      exact (ih.1 _).bind fun _ _ => ihs ih.2 _
  | obj members ih =>
    rw [rejectSecretShape]
    induction members with
    | nil => exact raises_ok
    | cons m ms ihs =>
      rw [List.forall_mem_cons] at ih
      exact (raises_conform (h _ _ (by decide))).bind fun _ _ => (ih.1 _).bind fun _ _ => ihs ih.2
  | _ => exact raises_ok

theorem raises_validateEnvironment (document : Json) : Raises allowed (validateEnvironment document) := by
  refine raises_object h fun members hdocument hkeys => ?_
  subst hdocument
  have hitem {k : String} (hk : k ∈ environmentFields) : Raises allowed (item (.obj members) k) :=
    raises_item_of_keys hkeys hk
  refine (hitem (by decide)).bind fun _ _ => (raises_conform (h _ _ (by decide))).bind fun _ _ => ?_
  refine (hitem (by decide)).bind fun _ _ => (raises_requireId h).bind fun _ _ => ?_
  refine (hitem (by decide)).bind fun _ _ => (raises_requireId h).bind fun _ _ => ?_
  refine (hitem (by decide)).bind fun _ _ => (raises_requireTime h).bind fun _ _ => ?_
  refine (hitem (by decide)).bind fun _ _ => (raises_requireObject h).bind fun capabilities _ => ?_
  refine (raises_conform (h _ _ (by decide))).bind fun _ _ => ?_
  refine (raises_forM fun m _ => ?_).bind fun _ _ => ?_
  · exact (raises_requireId h).bind fun _ _ => raises_conform (h _ _ (by decide))
  · exact (raises_rejectSecretShape h _ _).bind fun _ _ => raises_ok

theorem raises_validateControlInput (v : Json) : Raises allowed (validateControlInput v) := by
  refine (raises_obj h).bind fun members hmembers => ?_
  obtain ⟨rfl, hkeys⟩ := obj_eq_ok.mp hmembers
  refine (raises_item_of_keys hkeys (by decide)).bind fun _ _ => (raises_item_of_keys hkeys (by decide)).bind fun _ _ => ?_
  exact raises_conform (h _ _ (by decide))

theorem raises_validateControl (executionClass : Json) (seen : List String) (control : Json) :
    Raises allowed (validateControl executionClass seen control) := by
  refine raises_object h fun members hdocument hkeys => ?_
  subst hdocument
  have hitem {k : String} (hk : k ∈ controlFields) : Raises allowed (item (.obj members) k) :=
    raises_item_of_keys hkeys hk
  refine (hitem (by decide)).bind fun _ _ => (raises_requireId h).bind fun _ _ => ?_
  refine (raises_conform (h _ _ (by decide))).bind fun _ _ => (hitem (by decide)).bind fun handler _ => ?_
  refine (raises_conform (h _ _ (by decide))).bind fun _ _ => (hitem (by decide)).bind fun _ _ => ?_
  refine (raises_conform (h _ _ (by decide))).bind fun _ _ => (hitem (by decide)).bind fun _ _ => ?_
  refine (raises_conform (h _ _ (by decide))).bind fun _ _ => (hitem (by decide)).bind fun input _ => ?_
  refine (raises_requireObject h).bind fun _ _ => ?_
  by_cases hlinux : handler = .str Handler.linuxReadiness.name
  · rw [if_pos hlinux]
    refine (raises_validateControlInput h input).bind fun _ _ => (hitem (by decide)).bind fun _ _ => ?_
    exact (raises_conform (h _ _ (by decide))).bind fun _ _ => raises_ok
  · rw [if_neg hlinux]
    exact raises_ok

theorem raises_validateControls (executionClass : Json) (seen : List String) (controls : List Json) :
    Raises allowed (validateControls executionClass seen controls) := by
  induction controls generalizing seen with
  | nil => exact raises_ok
  | cons control controls ih => exact (raises_validateControl h executionClass seen control).bind fun _ _ => ih _

theorem raises_validateEvent (document : Json) : Raises allowed (validateEvent document) := by
  refine raises_object h fun members hdocument hkeys => ?_
  subst hdocument
  have hitem {k : String} (hk : k ∈ eventFields) : Raises allowed (item (.obj members) k) :=
    raises_item_of_keys hkeys hk
  refine (hitem (by decide)).bind fun _ _ => (raises_conform (h _ _ (by decide))).bind fun _ _ => ?_
  refine (hitem (by decide)).bind fun _ _ => (raises_requireId h).bind fun _ _ => ?_
  refine (hitem (by decide)).bind fun _ _ => (raises_requireId h).bind fun _ _ => ?_
  refine (hitem (by decide)).bind fun _ _ => (raises_requireTime h).bind fun _ _ => ?_
  refine (hitem (by decide)).bind fun _ _ => (raises_conform (h _ _ (by decide))).bind fun _ _ => ?_
  refine (hitem (by decide)).bind fun _ _ => (raises_conform (h _ _ (by decide))).bind fun _ _ => ?_
  refine (hitem (by decide)).bind fun _ _ => (raises_requireText (h _ _ (by decide))).bind fun _ _ => ?_
  refine (hitem (by decide)).bind fun _ _ => (raises_requireText (h _ _ (by decide))).bind fun _ _ => ?_
  refine (hitem (by decide)).bind fun data _ => raises_object h fun fields hdata hfields => ?_
  subst hdata
  have hfield {k : String} (hk : k ∈ eventDataFields) : Raises allowed (item (.obj fields) k) :=
    raises_item_of_keys hfields hk
  refine (hfield (by decide)).bind fun _ _ => (raises_requireId h).bind fun _ _ => ?_
  refine (hfield (by decide)).bind fun _ _ => (hfield (by decide)).bind fun _ _ => ?_
  refine (raises_conform (h _ _ (by decide))).bind fun _ _ => ?_
  refine (hfield (by decide)).bind fun _ _ => (raises_conform (h _ _ (by decide))).bind fun _ _ => ?_
  refine (hfield (by decide)).bind fun _ _ => (raises_requireDigest h).bind fun _ _ => ?_
  exact (raises_rejectSecretShape h _ _).bind fun _ _ => raises_ok

theorem raises_validatePorting (document : Json) : Raises allowed (validatePorting document) := by
  refine raises_object h fun members hdocument hkeys => ?_
  subst hdocument
  have hitem {k : String} (hk : k ∈ ["schemaVersion", "destinationRepository", "records"]) : Raises allowed (item (.obj members) k) :=
    raises_item_of_keys hkeys hk
  refine (hitem (by decide)).bind fun _ _ => (raises_conform (h _ _ (by decide))).bind fun _ _ => ?_
  refine (hitem (by decide)).bind fun _ _ => (raises_conform (h _ _ (by decide))).bind fun _ _ => ?_
  refine (hitem (by decide)).bind fun records _ => ?_
  split
  · refine raises_object h fun fields hrecord hfields => ?_
    subst hrecord
    refine (raises_item_of_keys hfields (by decide)).bind fun _ _ => (raises_conform (h _ _ (by decide))).bind fun _ _ => ?_
    refine (raises_item_of_keys hfields (by decide)).bind fun _ _ => ?_
    exact (raises_requireText (h _ _ (by decide))).bind fun _ _ => raises_ok
  · exact raises_error (h _ _ (by decide))

theorem raises_linuxTime {v : Json} {name : String} : Raises allowed (HarnessConformance.requireTime v name) :=
  (raises_requireText (h _ _ (by decide))).bind fun _ _ => raises_requireText (h _ _ (by decide))

theorem raises_text {v : Json} {maximum : ℕ} : Raises allowed (text v maximum) := raises_requireText (h _ _ (by decide))

theorem raises_integer {v : Json} {minimum : ℕ} : Raises allowed (integer v minimum) := by
  unfold integer
  split
  · exact (raises_conform (h _ _ (by decide))).bind fun _ _ => raises_ok
  · exact raises_error (h _ _ (by decide))

theorem raises_digestMap {v : Json} {fields : List String} : Raises allowed (digestMap v fields) :=
  (raises_obj h).bind fun _ _ => raises_forM fun _ _ => (raises_requireDigest h).bind fun _ _ => raises_ok

theorem raises_source {v : Json} : Raises allowed (source v) := by
  refine (raises_obj h).bind fun members hmembers => ?_
  obtain ⟨rfl, hkeys⟩ := obj_eq_ok.mp hmembers
  refine (raises_item_of_keys hkeys (by decide)).bind fun _ _ => (raises_requireText (h _ _ (by decide))).bind fun _ _ => ?_
  exact (raises_item_of_keys hkeys (by decide)).bind fun _ _ => (raises_requireDigest h).bind fun _ _ => raises_ok

theorem raises_sources {v : Json} : Raises allowed (sources v) :=
  (raises_obj h).bind fun _ _ => raises_forM fun _ _ => raises_source h

theorem raises_target {v : Json} : Raises allowed (target v) := by
  refine (raises_obj h).bind fun members hmembers => ?_
  obtain ⟨rfl, hkeys⟩ := obj_eq_ok.mp hmembers
  have hitem {k : String} (hk : k ∈ ["os", "kernel", "architecture", "hostArchitecture", "execution", "libc"]) : Raises allowed (item (.obj members) k) :=
    raises_item_of_keys hkeys hk
  refine (hitem (by decide)).bind fun _ _ => (hitem (by decide)).bind fun _ _ => ?_
  refine (hitem (by decide)).bind fun _ _ => (hitem (by decide)).bind fun _ _ => ?_
  refine (raises_conform (h _ _ (by decide))).bind fun _ _ => ?_
  refine (hitem (by decide)).bind fun _ _ => (raises_text h).bind fun _ _ => ?_
  exact (hitem (by decide)).bind fun _ _ => (raises_text h).bind fun _ _ => raises_ok

theorem raises_requireStatus {reason message : String} (hreason : isReason reason = true) {v : Json} :
    Raises allowed (requireStatus (.conformance reason message) v) := by
  unfold requireStatus
  split
  · exact raises_ok
  · exact raises_error (h _ _ hreason)

theorem raises_regression {v : Json} : Raises allowed (regression v) := by
  refine (raises_obj h).bind fun members hmembers => ?_
  obtain ⟨rfl, hkeys⟩ := obj_eq_ok.mp hmembers
  have hitem {k : String} (hk : k ∈ regressionFields) : Raises allowed (item (.obj members) k) :=
    raises_item_of_keys hkeys hk
  refine (hitem (by decide)).bind fun _ _ => (raises_requireDigest h).bind fun _ _ => ?_
  refine (hitem (by decide)).bind fun _ _ => (raises_integer h).bind fun _ _ => ?_
  refine (hitem (by decide)).bind fun _ _ => (raises_integer h).bind fun _ _ => ?_
  refine (hitem (by decide)).bind fun _ _ => (raises_integer h).bind fun _ _ => ?_
  exact (hitem (by decide)).bind fun _ _ => (raises_integer h).bind fun _ _ => raises_ok

end

variable [Runtime]

section
variable {allowed : PyError → Bool} (h : Lenient allowed)
include h

theorem raises_validateLinuxCampaign {members : Json.Members} (hkeys : ∀ k, k ∈ Json.keys members ↔ k ∈ campaignFields) :
    Raises allowed (validateLinuxCampaign (.obj members)) := by
  have hitem {k : String} (hk : k ∈ campaignFields) : Raises allowed (item (.obj members) k) :=
    raises_item_of_keys hkeys hk
  have hbytes (v : Json) := raises_canonicalBytes (valueReasons_allowed h) v
  refine (hitem (by decide)).bind fun _ _ => (hitem (by decide)).bind fun _ _ => ?_
  refine (raises_conform (h _ _ (by decide))).bind fun _ _ => (hitem (by decide)).bind fun _ _ => ?_
  exact (hbytes _).bind fun _ _ => (hbytes _).bind fun _ _ => raises_conform (h _ _ (by decide))

theorem raises_validateCampaign (document : Json) : Raises allowed (validateCampaign document) := by
  refine raises_object h fun members hdocument hkeys => ?_
  subst hdocument
  have hitem {k : String} (hk : k ∈ campaignFields) : Raises allowed (item (.obj members) k) :=
    raises_item_of_keys hkeys hk
  refine (hitem (by decide)).bind fun _ _ => (raises_conform (h _ _ (by decide))).bind fun _ _ => ?_
  refine (hitem (by decide)).bind fun _ _ => (raises_requireId h).bind fun campaignId _ => ?_
  refine (hitem (by decide)).bind fun _ _ => (raises_requireText (h _ _ (by decide))).bind fun _ _ => ?_
  refine (hitem (by decide)).bind fun _ _ => (raises_requireText (h _ _ (by decide))).bind fun _ _ => ?_
  refine (hitem (by decide)).bind fun executionClass _ => (raises_conform (h _ _ (by decide))).bind fun _ _ => ?_
  refine (hitem (by decide)).bind fun _ _ => (raises_conform (h _ _ (by decide))).bind fun _ _ => ?_
  refine (hitem (by decide)).bind fun value _ => ?_
  cases value with
  | arr controls =>
    refine (raises_conform (h _ _ (by decide))).bind fun _ _ => (raises_validateControls h _ _ _).bind fun _ hcontrols => ?_
    have hshape := exists_control_of_validateControls hcontrols
    refine (raises_fieldsOf fun control hcontrol => ?_).bind fun axes _ => ?_
    · obtain ⟨c, hc⟩ := hshape control hcontrol
      exact ⟨_, hc.axis⟩
    refine (raises_conform (h _ _ (by decide))).bind fun _ _ => (raises_conform (h _ _ (by decide))).bind fun _ _ => ?_
    refine (raises_fieldsOf fun control hcontrol => ?_).bind fun handlers _ => ?_
    · obtain ⟨c, hc⟩ := hshape control hcontrol
      exact ⟨_, hc.handler⟩
    have hsecret : Raises allowed (do rejectSecretShape "$" (.obj members); pure (Json.obj members)) :=
      (raises_rejectSecretShape h _ _).bind fun _ _ => raises_ok
    dsimp only
    split
    · exact (raises_validateLinuxCampaign h hkeys).bind fun _ _ => hsecret
    · exact hsecret
  | _ => exact raises_error (h _ _ (by decide))

theorem raises_caseRecord (expected : HarnessConformance.Case) (v : Json) : Raises allowed (caseRecord expected v) := by
  refine (raises_obj h).bind fun members hmembers => ?_
  obtain ⟨rfl, hkeys⟩ := obj_eq_ok.mp hmembers
  have hitem {k : String} (hk : k ∈ caseFields) : Raises allowed (item (.obj members) k) :=
    raises_item_of_keys hkeys hk
  refine (hitem (by decide)).bind fun _ _ => (raises_conform (h _ _ (by decide))).bind fun _ _ => ?_
  refine (hitem (by decide)).bind fun _ _ => (raises_requireStatus h (by decide)).bind fun _ _ => ?_
  refine (hitem (by decide)).bind fun _ _ => (raises_linuxTime h).bind fun _ _ => ?_
  refine (hitem (by decide)).bind fun _ _ => (raises_requireId h).bind fun _ _ => ?_
  refine (hitem (by decide)).bind fun _ _ => (raises_requireDigest h).bind fun _ _ => ?_
  refine (hitem (by decide)).bind fun _ _ => (raises_requireDigest h).bind fun _ _ => ?_
  refine (hitem (by decide)).bind fun _ _ => (raises_requireDigest h).bind fun _ _ => ?_
  refine (hitem (by decide)).bind fun output _ => (raises_obj h).bind fun fields hfields => ?_
  obtain ⟨rfl, houtput⟩ := obj_eq_ok.mp hfields
  refine (raises_item_of_keys houtput (by decide)).bind fun _ _ => (raises_obj h).bind fun _ _ => ?_
  refine (raises_mapM fun _ _ => raises_requireStatus h (by decide)).bind fun _ _ => ?_
  refine (raises_item_of_keys houtput (by decide)).bind fun _ _ => (raises_obj h).bind fun _ _ => ?_
  refine (raises_mapM fun _ _ => raises_regression h).bind fun _ _ => ?_
  refine (raises_canonicalDigest (valueReasons_allowed h) _ _).bind fun _ _ => (raises_conform (h _ _ (by decide))).bind fun _ _ => ?_
  exact (raises_conform (h _ _ (by decide))).bind fun _ _ => raises_ok

theorem raises_caseRecords (v : Json) : Raises allowed (caseRecords v) := by
  unfold caseRecords
  split
  · exact (raises_conform (h _ _ (by decide))).bind fun _ _ => raises_mapM fun _ _ => raises_caseRecord h _ _
  · exact raises_error (h _ _ (by decide))

theorem raises_validateLinuxEvidence (document : Json) : Raises allowed (validateLinuxEvidence document) := by
  refine raises_reraise (h _ _ (by decide)) ?_
  refine (raises_canonicalBytes (valueReasons_allowed h) _).bind fun _ _ => (raises_obj h).bind fun members hmembers => ?_
  obtain ⟨rfl, hkeys⟩ := obj_eq_ok.mp hmembers
  have hitem {k : String} (hk : k ∈ recordFields) : Raises allowed (item (.obj members) k) :=
    raises_item_of_keys hkeys hk
  have hauthority (name : String) (v : Json) : Raises allowed (authorityField name v) := by
    unfold authorityField
    split_ifs
    · exact (raises_requireDigest h).bind fun _ _ => raises_ok
    · exact (raises_text h).bind fun _ _ => raises_ok
    · exact (raises_requireId h).bind fun _ _ => raises_ok
  have hsigned {role : String} (hid : role ++ "SignerKeyId" ∈ recordFields) (hsignature : role ++ "Signature" ∈ recordFields) :
      Raises allowed (signedBy (.obj members) role) := by
    refine (hitem hid).bind fun _ _ => (raises_requireKeyId h).bind fun _ _ => ?_
    exact (hitem hsignature).bind fun _ _ => (raises_b64urlDecode h).bind fun _ _ => raises_ok
  refine (hitem (by decide)).bind fun _ _ => (raises_conform (h _ _ (by decide))).bind fun _ _ => ?_
  refine (hitem (by decide)).bind fun _ _ => (raises_obj h).bind fun authority _ => ?_
  refine (raises_forM fun m _ => hauthority m.1 m.2).bind fun _ _ => ?_
  refine (hitem (by decide)).bind fun _ _ => (raises_target h).bind fun _ _ => ?_
  refine (hitem (by decide)).bind fun _ _ => (raises_sources h).bind fun _ _ => ?_
  refine (hitem (by decide)).bind fun _ _ => (raises_digestMap h).bind fun _ _ => ?_
  refine (hitem (by decide)).bind fun _ _ => (raises_digestMap h).bind fun _ _ => ?_
  refine (hitem (by decide)).bind fun _ _ => (raises_requireDigest h).bind fun _ _ => ?_
  refine (hitem (by decide)).bind fun _ _ => (raises_linuxTime h).bind fun _ _ => ?_
  refine (hitem (by decide)).bind fun _ _ => (raises_linuxTime h).bind fun _ _ => ?_
  refine (raises_forM ?_).bind fun _ _ => ?_
  · simp only [List.forall_mem_cons]
    exact ⟨hsigned (by decide) (by decide), hsigned (by decide) (by decide), hsigned (by decide) (by decide), nofun⟩
  · exact (hitem (by decide)).bind fun _ _ => (raises_caseRecords h _).bind fun _ _ => raises_ok

end

/-! ## Partial operations -/

/-- A control result whose reason code is reached by `lower` and is no text. -/
structure LowersNonText (document : Json) : Prop where
  closed : closed document resultFields = .ok ()
  controlId : ∃ i : Identifier, document.get? "controlId" = some (.str i.text)
  handler : ∃ h : Handler, document.get? "handler" = some (.str h.name)
  axis : ∃ a ∈ evidenceAxes, document.get? "axis" = some (.str a)
  observationDigest : ∃ d : Digest, document.get? "observationDigest" = some (.str d.text)
  reasonCode : ∃ r, document.get? "reasonCode" = some r ∧ isText r = false

omit [Runtime] in
theorem validateResult_of_lowersNonText {document : Json} (h : LowersNonText document) :
    validateResult document = .error .attributeError := by
  obtain ⟨members, rfl, -⟩ := closed_eq_ok.mp h.closed
  obtain ⟨i, hi⟩ := h.controlId
  obtain ⟨handler, hhandler⟩ := h.handler
  obtain ⟨a, ha, haxis⟩ := h.axis
  obtain ⟨d, hd⟩ := h.observationDigest
  obtain ⟨r, hr, htext⟩ := h.reasonCode
  have hknown : Handler.ofJson? (.str handler.name) ≠ none := by
    rw [Handler.ofJson?_eq_some.mpr rfl]
    exact nofun
  have hone : isOneOf (.str a) evidenceAxes = true := isOneOf_iff.mpr ⟨a, ha, rfl⟩
  have hreason : reasonId r = .error .attributeError := by
    cases r with
    | str s => cases htext
    | _ => rfl
  rw [validateResult, requireObject_eq_ok.mpr rfl, ok_bind, h.closed, ok_bind, item_eq_ok.mpr hi, ok_bind, requireId_eq_ok.mpr rfl,
    ok_bind, item_eq_ok.mpr hhandler, ok_bind, (conform_eq_ok (u := ())).mpr hknown, ok_bind, item_eq_ok.mpr haxis, ok_bind,
    (conform_eq_ok (u := ())).mpr hone, ok_bind, item_eq_ok.mpr hd, ok_bind, requireDigest_eq_ok.mpr rfl, ok_bind, item_eq_ok.mpr hr, ok_bind,
    hreason]
  rfl

omit [Runtime] in
theorem raises_validateResult {allowed : PyError → Bool} (h : Lenient allowed) {document : Json} (htext : ¬ LowersNonText document) :
    Raises allowed (validateResult document) := by
  refine raises_object h fun members hdocument hkeys => ?_
  subst hdocument
  have hitem {k : String} (hk : k ∈ resultFields) : Raises allowed (item (.obj members) k) :=
    raises_item_of_keys hkeys hk
  refine (hitem (by decide)).bind fun _ hid => (raises_requireId h).bind fun i hi => ?_
  refine (hitem (by decide)).bind fun _ hhandler => (raises_conform (h _ _ (by decide))).bind fun _ hknown => ?_
  refine (hitem (by decide)).bind fun _ haxis => (raises_conform (h _ _ (by decide))).bind fun _ hone => ?_
  refine (hitem (by decide)).bind fun _ hdigest => (raises_requireDigest h).bind fun d hd => ?_
  refine (hitem (by decide)).bind fun r hr => ?_
  obtain ⟨handler, hname⟩ := Option.ne_none_iff_exists'.mp (conform_eq_ok.mp hknown)
  obtain rfl := Handler.ofJson?_eq_some.mp hname
  obtain ⟨a, ha, rfl⟩ := isOneOf_iff.mp (conform_eq_ok.mp hone)
  obtain rfl := requireId_eq_ok.mp hi
  obtain rfl := requireDigest_eq_ok.mp hd
  cases r with
  | str s =>
    refine raises_ok.bind fun _ _ => (raises_requireId h).bind fun _ _ => ?_
    refine (hitem (by decide)).bind fun _ _ => (raises_conform (h _ _ (by decide))).bind fun _ _ => ?_
    exact (hitem (by decide)).bind fun _ _ => (raises_conform (h _ _ (by decide))).bind fun _ _ => raises_ok
  | _ =>
    exact absurd ⟨closed_eq_ok.mpr ⟨members, rfl, hkeys⟩, ⟨i, item_eq_ok.mp hid⟩, ⟨handler, item_eq_ok.mp hhandler⟩,
      ⟨a, ha, item_eq_ok.mp haxis⟩, ⟨d, item_eq_ok.mp hdigest⟩, _, item_eq_ok.mp hr, rfl⟩ htext

end HarnessConformance.Campaign
