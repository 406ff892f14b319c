import HarnessConformance.Campaign.Containment

/-! # Reports

What a handler leaves over is a plain outcome or a refusal, unless it reaches a partial operation of its validators.
A run returns its report exactly when no control does, and then every row is the round of its own control. -/

namespace HarnessConformance.Campaign
open Lib Lib.Outcome Lib.Json LinuxReadiness
set_option autoImplicit false

/-! ## Contained handlers -/

/-- A refusal, or a plain outcome. -/
structure Contained (x : Py Outcome) : Prop where
  raises : Raises isRefusal x
  plain : ∀ o, x = .ok o → o.Plain

theorem contained_ok {o : Outcome} (h : o.Plain) : Contained (.ok o) :=
  ⟨raises_ok, fun _ ho => Except.ok.inj ho ▸ h⟩

theorem Contained.bind {α : Type} {x : Py α} {f : α → Py Outcome} (hx : Raises isRefusal x) (hf : ∀ a, x = .ok a → Contained (f a)) :
    Contained (x >>= f) := by
  refine ⟨hx.bind fun a ha => (hf a ha).raises, fun o ho => ?_⟩
  obtain ⟨a, ha, ho⟩ := bind_eq_ok.mp ho
  exact (hf a ha).plain o ho

/-- An exception that is no refusal goes through. -/
theorem onRefusal_of_error {α : Type} {refused : String → Outcome} {done : α → Outcome} {e : PyError} (he : e.isConformance = false) :
    onRefusal refused done (.error e) = .error e := by
  cases e with
  | conformance reason message => cases he
  | _ => rfl

theorem contained_onRefusal {α : Type} {refused : String → Outcome} {done : α → Outcome} {x : Py α} (hx : Raises isRefusal x)
    (hrefused : ∀ reason, isReason reason = true → (refused reason).Plain) (hdone : ∀ a, (done a).Plain) :
    Contained (onRefusal refused done x) := by
  obtain ⟨o, ho, ⟨a, -, rfl⟩ | ⟨reason, -, -, hreason, rfl⟩⟩ := @onRefusal_of_raises α refused done x hx
  · exact ho ▸ contained_ok (hdone a)
  · exact ho ▸ contained_ok (hrefused reason hreason)

section
variable {input : Json.Members}

theorem contained_static : Contained (static (.obj input)) := by
  refine .bind raises_ok fun _ _ => .bind (raises_closedWith lenient_isRefusal) fun _ hclosed => ?_
  obtain ⟨hrequired, -⟩ := closedWith_eq_ok.mp hclosed
  obtain ⟨actual, hactual⟩ := exists_get?_of_mem_keys (hrequired "actual" (by decide))
  obtain ⟨expected, hexpected⟩ := exists_get?_of_mem_keys (hrequired "expected" (by decide))
  split
  · exact contained_ok (Outcome.plain_of_isSlim (by decide))
  · refine .bind (raises_item hactual) fun _ _ => .bind (raises_item hexpected) fun _ _ => ?_
    split
    · exact contained_ok (Outcome.plain_of_isSlim (by decide))
    · split
      · exact contained_ok (Outcome.plain_of_isSlim (by decide))
      · exact contained_ok (Outcome.plain_of_isSlim (by decide))

theorem contained_event : Contained (event (.obj input)) := by
  refine .bind raises_ok fun _ _ => .bind (raises_closedWith lenient_isRefusal) fun _ hclosed => ?_
  obtain ⟨hrequired, -⟩ := closedWith_eq_ok.mp hclosed
  obtain ⟨document, hdocument⟩ := exists_get?_of_mem_keys (hrequired "event" (by decide))
  refine .bind (raises_item hdocument) fun document _ => ?_
  exact contained_onRefusal (raises_validateEvent lenient_isRefusal document) (fun _ => Outcome.plain_refused)
    fun _ => Outcome.plain_of_isSlim (by decide)

theorem contained_capability {environment : Json} {e : EnvironmentShape} (he : e.At environment) :
    Contained (capability environment (.obj input)) := by
  refine .bind raises_ok fun _ _ => .bind (raises_closedWith lenient_isRefusal) fun _ hclosed => ?_
  obtain ⟨hrequired, -⟩ := closedWith_eq_ok.mp hclosed
  obtain ⟨name, hname⟩ := exists_get?_of_mem_keys (hrequired "capability" (by decide))
  obtain ⟨expected, hexpected⟩ := exists_get?_of_mem_keys (hrequired "expected" (by decide))
  refine .bind (raises_item hname) fun _ _ => .bind (raises_requireText (by decide)) fun name _ => ?_
  refine .bind (raises_item hexpected) fun _ _ => .bind (raises_conform (by decide)) fun _ _ => ?_
  refine .bind (raises_item he.capabilities) fun capabilities hcapabilities => ?_
  rw [item_eq_ok, he.capabilities, Option.some.injEq] at hcapabilities
  subst hcapabilities
  refine .bind raises_ok fun actual _ => ?_
  split
  · exact contained_ok (Outcome.plain_of_isSlim (by decide))
  · split
    · exact contained_ok (Outcome.plain_of_isSlim (by decide))
    · exact contained_ok (Outcome.plain_of_isSlim (by decide))

theorem contained_evaluateControl : Contained (evaluateControl (.obj input)) := by
  refine .bind (raises_validateControlInput lenient_isRefusal _) fun _ hvalid => ?_
  simp only [validateControlInput, bind_eq_ok, obj_eq_ok, item_eq_ok, require_eq_ok] at hvalid
  obtain ⟨_, -, _, harchitecture, _, hcase, hknown⟩ := hvalid
  obtain ⟨⟨a, ha, rfl⟩, b, hb, rfl⟩ := hknown.imp isOneOf_iff.mp isOneOf_iff.mp
  refine .bind (raises_item harchitecture) fun _ h => .bind (raises_item hcase) fun _ h' => ?_
  rw [item_eq_ok, harchitecture, Option.some.injEq] at h
  rw [item_eq_ok, hcase, Option.some.injEq] at h'
  subst h h'
  have hshort (names : List String) (hnames : names.all (fun name => isPlain name && name.length ≤ 28) = true) {name : String}
      (hname : name ∈ names) : isPlain name = true ∧ name.length ≤ 28 := by
    have h := List.all_eq_true.mp hnames name hname
    rwa [Bool.and_eq_true, decide_eq_true_eq] at h
  obtain ⟨hplain, hlength⟩ := hshort architectures (by decide) ha
  obtain ⟨hplain', hlength'⟩ := hshort cases (by decide) hb
  refine contained_ok ⟨(by decide : isReason "LINUX_LIVE_BACKEND_UNAVAILABLE" = true), ?_⟩
  refine @Slim.obj _ _ 30 0 4 _ (shortKey rfl) ?_ le_rfl (by decide)
  simp only [List.forall_mem_cons]
  exact ⟨.text (shortKey rfl) hplain (Nat.add_le_add_right hlength 2), .text (shortKey rfl) hplain' (Nat.add_le_add_right hlength' 2),
    @slim_of_isSlim [("nativeAcceptance", .bool false)] _ _ (by decide) _ List.mem_cons_self,
    .literal (shortKey rfl) rfl (by decide), nofun⟩

end

/-! ## Operations that escape -/

/-- A known entity and a known state lead to a target that cannot be looked up or written; or one of the two cannot be
looked up. -/
def LifecycleEscapes (entity before after : Json) : Prop :=
  isHashable entity = false ∨ ∃ name states, entity = .str name ∧ transitions.lookup name = some states ∧
    (isHashable before = false ∨ ∃ state targets, before = .str state ∧ states.lookup state = some targets ∧
      (isHashable after = false ∨ isPrintable after = false))

section
variable [Runtime]

/-- A kind that cannot be looked up or written, or a control result whose reason code is no text. -/
def SchemaEscapes (kind document : Json) : Prop :=
  isHashable kind = false ∨ isPrintable kind = false ∨ (kind = .str "control-result" ∧ LowersNonText document)

/-- What a handler raises is no refusal. -/
def Escapes (handler : Handler) (input : Json.Members) : Prop :=
  match handler with
  | .schemaAssertion => (∀ k, k ∈ Json.keys input ↔ k ∈ ["kind", "document"]) ∧
      ∃ kind document, (Json.obj input).get? "kind" = some kind ∧ (Json.obj input).get? "document" = some document ∧
        SchemaEscapes kind document
  | .lifecycleAssertion => (∀ k, k ∈ Json.keys input ↔ k ∈ ["entity", "fromState", "toState"]) ∧
      ∃ entity before after, (Json.obj input).get? "entity" = some entity ∧ (Json.obj input).get? "fromState" = some before ∧
        (Json.obj input).get? "toState" = some after ∧ LifecycleEscapes entity before after
  | _ => False

omit [Runtime] in
theorem lookupKey_cases {α : Type} (table : List (String × α)) (key : Json) :
    (∃ name entry, key = .str name ∧ table.lookup name = some entry ∧ lookupKey table key = .ok entry) ∨
      (isHashable key = true ∧ (∀ name entry, key = .str name → table.lookup name ≠ some entry) ∧
        ∃ name, lookupKey table key = .error (.keyError name)) ∨
      (isHashable key = false ∧ lookupKey table key = .error .typeError) := by
  cases key with
  | str name =>
    cases hlookup : table.lookup name with
    | some entry => exact .inl ⟨name, entry, rfl, hlookup, by rw [lookupKey, hlookup]⟩
    | none =>
      refine .inr (.inl ⟨rfl, fun other entry h => ?_, name, by rw [lookupKey, hlookup]⟩)
      obtain rfl := Json.str.inj h
      rw [hlookup]
      exact nofun
  | arr items => exact .inr (.inr ⟨rfl, rfl⟩)
  | obj members => exact .inr (.inr ⟨rfl, rfl⟩)
  | _ => exact .inr (.inl ⟨rfl, nofun, _, rfl⟩)

omit [Runtime] in
theorem lookupKey_known {α : Type} {table : List (String × α)} {name : String} {entry : α} (h : table.lookup name = some entry) :
    lookupKey table (.str name) = .ok entry := by
  rw [lookupKey, h]

omit [Runtime] in
theorem lookupKey_unhashable {α : Type} {table : List (String × α)} {key : Json} (h : isHashable key = false) :
    lookupKey table key = .error .typeError := by
  cases key with
  | arr items => rfl
  | obj members => rfl
  | _ => cases h

omit [Runtime] in
theorem written_eq_ok {text : String → String} {v : Json} (hhash : isHashable v = true) (hprint : isPrintable v = true) :
    ∃ t, written text v = .ok t := by
  cases v with
  | int n =>
    rw [isPrintable, decide_eq_true_eq] at hprint
    exact ⟨toString n, by rw [written, if_pos hprint]⟩
  | arr items => cases hhash
  | obj members => cases hhash
  | _ => exact ⟨_, rfl⟩

omit [Runtime] in
theorem written_unprintable {text : String → String} {v : Json} (hprint : isPrintable v = false) :
    written text v = .error .valueError := by
  cases v with
  | int n =>
    rw [isPrintable, decide_eq_false_iff_not] at hprint
    rw [written, if_neg hprint]
  | _ => cases hprint

/-! ## Lifecycle transitions -/

section
variable {entity before after : Json}

omit [Runtime] in
theorem raises_assertTransition {allowed : PyError → Bool} (h : Lenient allowed) (hescape : ¬ LifecycleEscapes entity before after) :
    Raises allowed (assertTransition entity before after) := by
  have hunknown {name : String} {f : List String → Py Unit} :
      Raises allowed (reraise PyError.isKeyError "UNKNOWN_LIFECYCLE_STATE" "entity or source state is unknown"
        (.error (.keyError name)) >>= f) := raises_error (h _ _ (by decide))
  rw [LifecycleEscapes, not_or, Bool.not_eq_false] at hescape
  unfold assertTransition targetsOf
  obtain ⟨name, states, rfl, hstates, hentity⟩ | ⟨-, -, name, hentity⟩ | ⟨hhash, -⟩ := lookupKey_cases transitions entity
  · rw [hentity, ok_bind]
    obtain ⟨state, targets, rfl, htargets, hbefore⟩ | ⟨-, -, state, hbefore⟩ | ⟨hhash, -⟩ := lookupKey_cases states before
    · rw [hbefore]
      have hafter : isHashable after = true ∧ isPrintable after = true := by
        by_contra hnot
        rw [not_and_or, Bool.not_eq_true, Bool.not_eq_true] at hnot
        exact hescape.2 ⟨name, states, rfl, hstates, .inr ⟨state, targets, rfl, htargets, hnot⟩⟩
      refine raises_ok.bind fun targets _ => ?_
      obtain ⟨right, hright⟩ := @written_eq_ok id _ hafter.1 hafter.2
      rw [if_neg (by simp [hafter.1])]
      by_cases hone : isOneOf after targets = true
      · rw [if_pos hone]
        exact raises_ok
      · rw [if_neg hone, hright]
        exact raises_error (h _ _ (by decide))
    · rw [hbefore]
      exact hunknown
    · exact absurd ⟨name, states, rfl, hstates, .inl hhash⟩ hescape.2
  · rw [hentity]
    exact hunknown
  · rw [hescape.1] at hhash
    cases hhash

omit [Runtime] in
theorem assertTransition_escapes (hescape : LifecycleEscapes entity before after) :
    ∃ e, assertTransition entity before after = .error e ∧ e.isConformance = false := by
  unfold assertTransition targetsOf
  obtain hhash | ⟨name, states, rfl, hstates, hhash | ⟨state, targets, rfl, htargets, hafter⟩⟩ := hescape
  · rw [lookupKey_unhashable hhash]
    exact ⟨_, rfl, rfl⟩
  · rw [lookupKey_known hstates, ok_bind, lookupKey_unhashable hhash]
    exact ⟨_, rfl, rfl⟩
  · rw [lookupKey_known hstates, ok_bind, lookupKey_known htargets, reraise, ok_bind]
    by_cases hhash : isHashable after = true
    · have hprint := hafter.resolve_left (by simp [hhash])
      have hone : ¬ isOneOf after targets = true := by
        cases after with
        | int n => exact Bool.false_ne_true
        | _ => cases hprint
      rw [if_neg (by simp [hhash]), if_neg hone, written_unprintable hprint]
      exact ⟨_, rfl, rfl⟩
    · rw [if_pos (by simp [hhash])]
      exact ⟨_, rfl, rfl⟩

end

/-! ## Documents by kind -/

section
variable {kind document : Json}

theorem raises_validate {allowed : PyError → Bool} (h : Lenient allowed) (hescape : ¬ SchemaEscapes kind document) :
    Raises allowed (validate kind document) := by
  rw [SchemaEscapes, not_or, not_or, Bool.not_eq_false, Bool.not_eq_false] at hescape
  obtain ⟨hhash, hprint, hresult⟩ := hescape
  unfold validate
  split
  · exact raises_validateLinuxEvidence h document
  · unfold validatorOf
    obtain ⟨name, validator, rfl, hlookup, hkind⟩ | ⟨-, -, name, hkind⟩ | ⟨hunhashable, -⟩ := lookupKey_cases validators kind
    · rw [hkind]
      refine raises_ok.bind fun found hfound => ?_
      obtain rfl := Except.ok.inj hfound
      have hmem : (name, validator) ∈ validators := by
        obtain ⟨before, after, hvalidators, -⟩ := List.lookup_eq_some_iff.mp hlookup
        rw [hvalidators]
        exact List.mem_append_right _ List.mem_cons_self
      simp only [validators, List.mem_cons, Prod.mk.injEq, List.not_mem_nil, or_false] at hmem
      obtain ⟨-, rfl⟩ | ⟨-, rfl⟩ | ⟨rfl, rfl⟩ | ⟨-, rfl⟩ := hmem
      · exact raises_validateCampaign h document
      · exact raises_validateEnvironment h document
      · exact raises_validateResult h fun hlowers => hresult ⟨rfl, hlowers⟩
      · exact raises_validatePorting h document
    · obtain ⟨text, htext⟩ := @written_eq_ok Runtime.repr _ hhash hprint
      rw [hkind, htext]
      exact raises_error (h _ _ (by decide))
    · rw [hhash] at hunhashable
      cases hunhashable

theorem validate_escapes (hescape : SchemaEscapes kind document) :
    ∃ e, validate kind document = .error e ∧ e.isConformance = false := by
  obtain hhash | hprint | ⟨rfl, hlowers⟩ := hescape
  · have hkind : kind ≠ .str "linux-readiness-evidence" := by
      rintro rfl
      cases hhash
    rw [validate, if_neg hkind, validatorOf, lookupKey_unhashable hhash]
    exact ⟨_, rfl, rfl⟩
  · cases kind with
    | int n =>
      have hkey : lookupKey validators (.int n) = .error (.keyError "") := rfl
      rw [validate, if_neg nofun, validatorOf, hkey]
      dsimp only
      rw [written_unprintable hprint]
      exact ⟨_, rfl, rfl⟩
    | _ => cases hprint
  · refine ⟨.attributeError, ?_, rfl⟩
    rw [validate, if_neg (by decide)]
    exact validateResult_of_lowersNonText hlowers

end

/-! ## Handlers -/

section
variable {input : Json.Members} {environment : Json} {e : EnvironmentShape}

theorem contained_schema (hescape : ¬ Escapes .schemaAssertion input) : Contained (schema (.obj input)) := by
  refine .bind raises_ok fun _ _ => .bind (raises_closedWith lenient_isRefusal) fun _ hclosed => ?_
  obtain ⟨_, ⟨⟩, hkeys⟩ := closed_eq_ok.mp hclosed
  obtain ⟨kind, hkind⟩ := exists_get?_of_mem_keys ((hkeys "kind").mpr (by decide))
  obtain ⟨document, hdocument⟩ := exists_get?_of_mem_keys ((hkeys "document").mpr (by decide))
  have hvalidate : ¬ SchemaEscapes kind document := fun h => hescape ⟨hkeys, kind, document, hkind, hdocument, h⟩
  rw [item_eq_ok.mpr hkind, item_eq_ok.mpr hdocument, ok_bind, ok_bind]
  exact contained_onRefusal (raises_validate lenient_isRefusal hvalidate) (fun _ => Outcome.plain_refused)
    fun _ => Outcome.plain_of_isSlim (by decide)

omit [Runtime] in
theorem contained_lifecycle (hescape : ∀ entity before after, (∀ k, k ∈ Json.keys input ↔ k ∈ ["entity", "fromState", "toState"]) →
    (Json.obj input).get? "entity" = some entity → (Json.obj input).get? "fromState" = some before →
    (Json.obj input).get? "toState" = some after → ¬ LifecycleEscapes entity before after) : Contained (lifecycle (.obj input)) := by
  refine .bind raises_ok fun _ _ => .bind (raises_closedWith lenient_isRefusal) fun _ hclosed => ?_
  obtain ⟨_, ⟨⟩, hkeys⟩ := closed_eq_ok.mp hclosed
  obtain ⟨entity, hentity⟩ := exists_get?_of_mem_keys ((hkeys "entity").mpr (by decide))
  obtain ⟨before, hbefore⟩ := exists_get?_of_mem_keys ((hkeys "fromState").mpr (by decide))
  obtain ⟨after, hafter⟩ := exists_get?_of_mem_keys ((hkeys "toState").mpr (by decide))
  rw [item_eq_ok.mpr hentity, item_eq_ok.mpr hbefore, item_eq_ok.mpr hafter, ok_bind, ok_bind, ok_bind]
  refine contained_onRefusal (raises_assertTransition lenient_isRefusal (hescape entity before after hkeys hentity hbefore hafter))
    (fun reason hreason => ⟨hreason, @slim_of_isSlim [("detail", .obj [("legal", .bool false)])] _ _ (by decide) _
      List.mem_cons_self⟩) fun _ => Outcome.plain_of_isSlim (by decide)

theorem contained_handle (he : e.At environment) {handler : Handler} (hescape : ¬ Escapes handler input) :
    Contained (handle environment handler (.obj input)) := by
  cases handler with
  | staticAssertion => exact contained_static
  | schemaAssertion => exact contained_schema hescape
  | lifecycleAssertion =>
    exact contained_lifecycle fun entity before after hkeys hentity hbefore hafter h =>
      hescape ⟨hkeys, entity, before, after, hentity, hbefore, hafter, h⟩
  | eventAssertion => exact contained_event
  | environmentCapability => exact contained_capability he
  | linuxReadiness => exact contained_evaluateControl

theorem handle_escapes {handler : Handler} (hescape : Escapes handler input) :
    ∃ e, handle environment handler (.obj input) = .error e ∧ e.isConformance = false := by
  cases handler with
  | schemaAssertion =>
    obtain ⟨hkeys, kind, document, hkind, hdocument, h⟩ := hescape
    obtain ⟨e, he, hconformance⟩ := validate_escapes h
    refine ⟨e, ?_, hconformance⟩
    rw [handle, schema, requireObject, ok_bind, (closed_eq_ok (u := ())).mpr ⟨input, rfl, hkeys⟩, ok_bind, item_eq_ok.mpr hkind, ok_bind,
      item_eq_ok.mpr hdocument, ok_bind, he, onRefusal_of_error hconformance]
  | lifecycleAssertion =>
    obtain ⟨hkeys, entity, before, after, hentity, hbefore, hafter, h⟩ := hescape
    obtain ⟨e, he, hconformance⟩ := assertTransition_escapes h
    refine ⟨e, ?_, hconformance⟩
    rw [handle, lifecycle, requireObject, ok_bind, (closed_eq_ok (u := ())).mpr ⟨input, rfl, hkeys⟩, ok_bind, item_eq_ok.mpr hentity, ok_bind,
      item_eq_ok.mpr hbefore, ok_bind, item_eq_ok.mpr hafter, ok_bind, he, onRefusal_of_error hconformance]
  | _ => cases hescape

end

/-! ## Rounds -/

section
variable {environment control : Json} {c : ControlShape} {e : EnvironmentShape}

/-- The row of a control: its own round, under its own name, axis and flag, with `FAIL` for a refusal of its input. -/
structure RowOf (environment control row : Json) : Prop where
  round : ∃ result, runControl environment control = .ok result ∧ row = result.asDict
  controlId : row.get? "controlId" = control.get? "controlId"
  axis : row.get? "axis" = control.get? "axis"
  required : row.get? "required" = control.get? "required"
  refused : ∀ handler input reason message, control.get? "handler" = some (.str (Handler.name handler)) →
    control.get? "input" = some input → handle environment handler input = .error (.conformance reason message) →
    row.get? "status" = some (.str "FAIL") ∧ row.get? "reasonCode" = some (.str reason)

/-- The row of a plain outcome is small and plain. -/
theorem validAt_asDict (hc : c.At control) {o : Outcome} (ho : o.Plain) (digest : Digest) :
    ValidAt 2 (ControlResult.mk (.str c.controlId.text) (.str c.handler.name) (.bool c.required) (.str c.axis) o.status o.reason
      digest).asDict := by
  have hreason {key reason : String} (hkey : isPlain key = true ∧ key.length ≤ 32) (h : isReason reason = true) :
      Slim 130 0 (key, .str reason) := by
    obtain ⟨hplain, hlength⟩ := isReason_iff.mp h
    exact .text hkey hplain ((Nat.add_le_add_right hlength 2).trans (by decide))
  have haxis : isReason c.axis = true := by
    have hall : evidenceAxes.all isReason = true := by decide
    exact List.all_eq_true.mp hall _ hc.known
  have hhandler : isReason c.handler.name = true := by cases c.handler <;> decide
  have hrequired : Slim 130 0 ("required", .bool c.required) := by
    cases c.required <;> exact @slim_of_isSlim [("required", .bool _)] _ _ (by decide) _ List.mem_cons_self
  have hslim : ∀ m ∈ [("axis", Json.str c.axis), ("controlId", .str c.controlId.text), ("handler", .str c.handler.name),
      ("observationDigest", .str digest.text), ("reasonCode", .str o.reason), ("required", .bool c.required),
      ("status", .str o.status.name)], Slim 130 0 m := by
    simp only [List.forall_mem_cons]
    exact ⟨hreason (shortKey rfl) haxis, slim_id (shortKey rfl) _, hreason (shortKey rfl) hhandler, slim_digest (shortKey rfl) _ (by decide),
      hreason (shortKey rfl) ho.reason, hrequired, hreason (shortKey rfl) o.status.name_reason, nofun⟩
  exact validAt_slim hslim (by decide : 7 ≤ _) (by decide) (by decide)

theorem runControl_contained (he : e.At environment) (hc : c.At control) (hescape : ¬ Escapes c.handler c.input) :
    ∃ result, runControl environment control = .ok result ∧ ValidAt 2 result.asDict ∧ RowOf environment control result.asDict := by
  have hcontained := contained_handle he hescape
  obtain ⟨o, ho, hcases⟩ := @onRefusal_of_raises _ Outcome.refused id _ hcontained.raises
  have hplain : o.Plain := by
    obtain ⟨a, ha, heq⟩ | ⟨reason, -, -, hreason, rfl⟩ := hcases
    · exact heq ▸ hcontained.plain a ha
    · exact Outcome.plain_refused hreason
  obtain ⟨digest, hresult⟩ := runControl_of_plain hc ho hplain
  refine ⟨_, hresult, validAt_asDict hc hplain digest, ⟨_, hresult, rfl⟩, hc.controlId.symm, hc.axis.symm, hc.required.symm, ?_⟩
  intro handler input reason message hhandler hinput herror
  have hname : c.handler = handler := by
    rw [hc.handler, Option.some.injEq] at hhandler
    exact Option.some.inj ((Handler.ofJson?_eq_some.mpr rfl).symm.trans (Handler.ofJson?_eq_some.mpr hhandler))
  obtain rfl : Json.obj c.input = input := Option.some.inj (hc.input.symm.trans hinput)
  subst hname
  obtain ⟨a, ha, -⟩ | ⟨reason', message', ha, -, rfl⟩ := hcases
  · rw [herror] at ha
    cases ha
  · rw [herror] at ha
    obtain ⟨rfl, rfl⟩ := PyError.conformance.inj (Except.error.inj ha)
    exact ⟨rfl, rfl⟩

theorem runControl_escapes (hc : c.At control) (hescape : Escapes c.handler c.input) :
    ∃ e, runControl environment control = .error e := by
  obtain ⟨e, he, hconformance⟩ : ∃ e, handle environment c.handler (.obj c.input) = .error e ∧ e.isConformance = false :=
    handle_escapes hescape
  refine ⟨e, ?_⟩
  rw [runControl, item_eq_ok.mpr hc.handler, ok_bind, Handler.ofJson?_eq_some.mpr rfl]
  dsimp only
  rw [item_eq_ok.mpr hc.input, ok_bind, he, onRefusal_of_error hconformance]
  rfl

end

/-! ## Reports -/

/-- The controls of a campaign whose handlers raise no refusal. -/
def Escaping (control : Json) : Prop :=
  ∃ handler input, control.get? "handler" = some (.str (Handler.name handler)) ∧ control.get? "input" = some (.obj input) ∧
    Escapes handler input

/-- No control escapes, and the version can be encoded. -/
structure Reportable (campaign : Json) : Prop where
  version : ∀ version, campaign.get? "version" = some (.str version) → version.length ≤ maxFileBytes
  controls : ∀ controls, campaign.get? "controls" = some (.arr controls) → ∀ control ∈ controls, ¬ Escaping control

section
variable {campaign environment : Json} {c : CampaignShape} {e : EnvironmentShape} {runId observedAt : String}

omit [Runtime] in
theorem escaping_iff {control : Json} {c : ControlShape} [Runtime] (hc : c.At control) : Escaping control ↔ Escapes c.handler c.input := by
  constructor
  · rintro ⟨handler, input, hhandler, hinput, h⟩
    rw [hc.handler, Option.some.injEq] at hhandler
    rw [hc.input, Option.some.injEq, Json.obj.injEq] at hinput
    have hname : c.handler = handler := Option.some.inj ((Handler.ofJson?_eq_some.mpr rfl).symm.trans (Handler.ofJson?_eq_some.mpr hhandler))
    rwa [hname, hinput]
  · exact fun h => ⟨c.handler, c.input, hc.handler, hc.input, h⟩

omit [Runtime] in
theorem version_plain (v : Text versionPattern.fullmatch) : isPlain v.text = true := by
  have hdigit : digit.Over fun c => isPlainChar c = true := fun c hc => isPlainChar_digit hc
  have hdot : (Regex.char '.').Over fun c => isPlainChar c = true := over_char (by decide)
  exact isPlain_of_over (r := versionPattern) ⟨⟨hdigit, hdigit⟩, hdot, ⟨hdigit, hdigit⟩, hdot, ⟨hdigit, hdigit⟩, trivial⟩ v.valid

theorem valid_body {results : List ControlResult} (hc : c.At campaign) (he : e.At environment)
    (hlength : results.length ≤ 512) (hrows : ∀ result ∈ results, ValidAt 2 result.asDict)
    {body : Json.Members} (hbody : reportBody campaign environment runId observedAt results = .ok body)
    (hrun : TextValid runId) (hobserved : TextValid observedAt) : Valid (.obj body) ↔ c.version.text.length ≤ maxFileBytes := by
  have hplain {text : String} (h : isPlain text = true) (hshort : text.length ≤ 1048576) : ValidAt 1 (.str text) :=
    validAt_str.mpr ⟨by decide, textValid_plain h hshort⟩
  have hid (i : Identifier) : ValidAt 1 (.str i.text) := hplain i.id_plain (i.id_length.trans (by decide))
  have hreason {text : String} (h : isReason text = true) : ValidAt 1 (.str text) :=
    hplain (isReason_iff.mp h).1 ((isReason_iff.mp h).2.trans (by decide))
  have hclass : ValidAt 1 (.str c.executionClass) := by
    have hall : ["OFFLINE_TEST", "LIVE_CAMPAIGN"].all isReason = true := by decide
    exact hreason (List.all_eq_true.mp hall _ hc.isClass)
  have hresults : ValidAt 1 (.arr (results.map ControlResult.asDict)) := by
    refine validAt_arr.mpr ⟨by decide, ?_, List.forall_mem_map.mpr hrows⟩
    rw [List.length_map]
    exact hlength.trans (by decide)
  have hkey {key : String} (h : isPlain key = true ∧ key.length ≤ 32) : TextValid key := textValid_plain h.1 (h.2.trans (by decide))
  simp only [reportBody, bind_eq_ok, item_eq_ok, pure_eq_ok, hc.campaignId, hc.version, hc.executionClass, he.environmentId,
    he.tenantId, Option.some.injEq, exists_eq_left'] at hbody
  subst hbody
  rw [Valid, validAt_obj, ← textValid_plain_iff (version_plain c.version)]
  constructor
  · intro h
    exact (validAt_str.mp (h.2.2 ("campaignVersion", _) (by simp)).2.2).2
  · intro h
    have member {key : String} {v : Json} (hshort : isPlain key = true ∧ key.length ≤ 32) (hv : ValidAt 1 v) :
        0 + 1 ≤ maxDepth ∧ TextValid key ∧ ValidAt (0 + 1) v := ⟨by decide, hkey hshort, hv⟩
    refine ⟨by decide, (by decide : 10 ≤ _), ?_⟩
    simp only [List.forall_mem_cons]
    exact ⟨member (shortKey rfl) (hreason (by decide)), member (shortKey rfl) (hid _), member (shortKey rfl) (validAt_str.mpr ⟨by decide, h⟩),
      member (shortKey rfl) (hid _), member (shortKey rfl) hclass, member (shortKey rfl) (validAt_str.mpr ⟨by decide, hobserved⟩),
      member (shortKey rfl) hresults, member (shortKey rfl) (validAt_str.mpr ⟨by decide, hrun⟩),
      member (shortKey rfl) (hreason (overall results).name_reason), member (shortKey rfl) (hid _), List.forall_mem_nil _⟩

theorem contained_rows (hc : c.At campaign) (he : e.At environment) {control : Json} (hcontrol : control ∈ c.controls)
    (hescape : ¬ Escaping control) : ∃ result, runControl environment control = .ok result ∧ ValidAt 2 result.asDict ∧
      RowOf environment control result.asDict := by
  obtain ⟨shape, hshape, -⟩ := hc.control control hcontrol
  exact runControl_contained he hshape (mt (escaping_iff hshape).mpr hescape)

section
variable (hcampaign : validateCampaign campaign = .ok campaign) (henvironment : validateEnvironment environment = .ok environment)
  (hc : c.At campaign) (he : e.At environment) (hrun : TextValid runId) (hobserved : TextValid observedAt)
include hcampaign henvironment hc he hrun hobserved

theorem exists_report (h : Reportable campaign) : ∃ report rows, runCampaign campaign environment runId observedAt = .ok report ∧
    report.get? "results" = some (.arr rows) ∧ List.Forall₂ (RowOf environment) c.controls rows := by
  have hescape := h.controls _ hc.controls
  obtain ⟨results, hresults⟩ := forall₂_of_mem_left fun control hcontrol => contained_rows hc he hcontrol (hescape control hcontrol)
  have hrounds := hresults.imp fun _ _ h => h.1
  have hrows : ∀ result ∈ results, ValidAt 2 result.asDict := by
    intro result hresult
    obtain ⟨control, -, -, hvalid, -⟩ := forall₂_mem_right hresults hresult
    exact hvalid
  obtain ⟨body, hbody, hfield⟩ : ∃ body, reportBody campaign environment runId observedAt results = .ok body ∧ ∀ tail,
      (Json.obj (body ++ tail)).get? "results" = some (.arr (results.map ControlResult.asDict)) := exists_reportBody hc he
  have hvalid := (valid_body hc he (hrounds.length_eq ▸ hc.bounded.2) hrows hbody hrun hobserved).mpr (h.version _ hc.version)
  have hdigest : canonicalDigest (.obj body) (some "planeon.harness-conformance-report/v1alpha1") = .ok _ :=
    canonicalDigest_eq_ok.mpr ⟨hvalid, rfl⟩
  refine ⟨_, results.map ControlResult.asDict,
    (runCampaign_eq_ok hcampaign henvironment hc).mpr ⟨results, hrounds, body, hbody, _, hdigest, rfl⟩, hfield _, ?_⟩
  rw [List.forall₂_map_right_iff]
  exact hresults.imp fun _ _ h => h.2.2

theorem reportable_of_report {report : Json} (h : runCampaign campaign environment runId observedAt = .ok report) : Reportable campaign := by
  obtain ⟨results, hrounds, body, hbody, digest, hdigest, -⟩ := (runCampaign_eq_ok hcampaign henvironment hc).mp h
  have hescape : ∀ control ∈ c.controls, ¬ Escaping control := by
    intro control hcontrol h
    obtain ⟨shape, hshape, -⟩ := hc.control control hcontrol
    obtain ⟨e, herror⟩ : ∃ e, runControl environment control = .error e :=
      runControl_escapes hshape ((escaping_iff hshape).mp h)
    obtain ⟨result, -, hresult⟩ := forall₂_mem_left hrounds hcontrol
    rw [herror] at hresult
    cases hresult
  have hrows : ∀ result ∈ results, ValidAt 2 result.asDict := by
    intro result hresult
    obtain ⟨control, hcontrol, hround⟩ := forall₂_mem_right hrounds hresult
    obtain ⟨result', hround', hvalid, -⟩ := contained_rows hc he hcontrol (hescape control hcontrol)
    rw [hround, Except.ok.injEq] at hround'
    exact hround' ▸ hvalid
  have hversion := (valid_body hc he (hrounds.length_eq ▸ hc.bounded.2) hrows hbody hrun hobserved).mp
    (canonicalDigest_eq_ok.mp hdigest).1
  refine ⟨fun version h => ?_, fun controls h => ?_⟩
  · rw [hc.version, Option.some.injEq, Json.str.injEq] at h
    exact h ▸ hversion
  · rw [hc.controls, Option.some.injEq, Json.arr.injEq] at h
    exact h ▸ hescape

end

/-- A run returns its report exactly when the campaign is reportable, with the row of every control in order. -/
theorem runCampaign_report {document intake : Json} (hcampaign : validateCampaign document = .ok campaign)
    (henvironment : validateEnvironment intake = .ok environment) (hrun : TextValid runId) (hobserved : TextValid observedAt) :
    (∃ report controls rows, runCampaign document intake runId observedAt = .ok report ∧
      document.get? "controls" = some (.arr controls) ∧ report.get? "results" = some (.arr rows) ∧
      List.Forall₂ (RowOf intake) controls rows) ↔ Reportable document := by
  obtain ⟨rfl, c, hc⟩ := campaign_of_validateCampaign hcampaign
  obtain ⟨rfl, e, he⟩ := environment_of_validateEnvironment henvironment
  constructor
  · rintro ⟨report, -, -, hreport, -⟩
    exact reportable_of_report hcampaign henvironment hc he hrun hobserved hreport
  · intro h
    obtain ⟨report, rows, hreport, hrows, hround⟩ := exists_report hcampaign henvironment hc he hrun hobserved h
    exact ⟨report, c.controls, rows, hreport, hc.controls, hrows, hround⟩

end

end

open Sample

theorem Sample.reportable [Runtime] {handler : Handler} {input : Json.Members} (h : ¬ Escapes handler input) :
    Reportable (campaign (control handler input)) := by
  refine ⟨fun version hversion => ?_, fun controls hcontrols => ?_⟩
  · obtain rfl : "1.0.0" = version := Json.str.inj (Option.some.inj hversion)
    decide
  · obtain rfl : [control handler input] = controls := Json.arr.inj (Option.some.inj hcontrols)
    rw [List.forall_mem_singleton, escaping_iff (at_control handler input)]
    exact h

theorem runCampaign_report_sample : let _ := Runtime.ascii
    let malformed := campaign (control .eventAssertion [])
    ∃ report controls rows, runCampaign malformed environment "run" "2026-01-01T00:00:00Z" = .ok report ∧
      malformed.get? "controls" = some (.arr controls) ∧ report.get? "results" = some (.arr rows) ∧
      List.Forall₂ (RowOf environment) controls rows := by
  intro _ malformed
  have hcampaign : ∃ c, validateCampaign malformed = .ok c := ⟨malformed, by decide +kernel⟩
  obtain ⟨c, hc⟩ := hcampaign
  have henvironment : ∃ e, validateEnvironment environment = .ok e := ⟨environment, by decide +kernel⟩
  obtain ⟨e, he⟩ := henvironment
  have hrun : TextValid "run" := textValid_plain (by decide) (by decide)
  have hobserved : TextValid "2026-01-01T00:00:00Z" := textValid_plain (by decide) (by decide)
  exact (runCampaign_report hc he hrun hobserved).mpr (reportable not_false)

/-- The kind of a document need not be hashable, and then no report is returned. -/
theorem runCampaign_unhashable_kind : let _ := Runtime.ascii
    let unhashable := campaign (control .schemaAssertion [("kind", .arr []), ("document", .obj [])])
    validateCampaign unhashable = .ok unhashable ∧ validateEnvironment environment = .ok environment ∧
      runCampaign unhashable environment "run" "2026-01-01T00:00:00Z" = .error .typeError := by
  decide +kernel

end HarnessConformance.Campaign
