import HarnessConformance.Campaign.Refusals
import HarnessConformance.Equality

/-! # Static assertions

`_static` compares with `==`, which takes a boolean for the integer it counts as. Up to that, and on the values that
the canonical encoder accepts, its verdict is the equality of canonical bytes. -/

namespace HarnessConformance
open Lib Lib.Json
set_option autoImplicit false

section
variable [Runtime]

/-- Two values have one encoding when both are accepted and agree in types and contents. -/
theorem canonicalBytes_common {v w : Json} (hv : v.Wf) (hw : w.Wf) :
    (∃ data, canonicalBytes v = .ok data ∧ canonicalBytes w = .ok data) ↔
      (Valid v ∧ Valid w) ∧ pyEq v w = true ∧ boolAgainstInt v w = false := by
  simp only [canonicalBytes_eq_ok]
  rw [← same_iff_pyEq, same_iff hv hw, ← canonicalText_injective hv hw]
  constructor
  · rintro ⟨data, ⟨hvalid, rfl⟩, hvalid', htext⟩
    exact ⟨⟨hvalid, hvalid'⟩, htext.symm⟩
  · rintro ⟨⟨hvalid, hvalid'⟩, htext⟩
    exact ⟨_, ⟨hvalid, rfl⟩, hvalid', htext.symm⟩

namespace Campaign
open Lib.Outcome LinuxReadiness

/-! ## The handler -/

def staticFields : List String := ["actual", "expected", "applicable", "severity"]

/-- The fields that the handler knows. -/
def IsKnown (input : Json.Members) : Prop := ∀ k ∈ Json.keys input, k ∈ staticFields

instance (input : Json.Members) : Decidable (IsKnown input) := List.decidableBAll _ _

section
variable {input : Json.Members} {actual expected : Json}

omit [Runtime] in
theorem static_of_unknown (hactual : (Json.obj input).get? "actual" = some actual)
    (hexpected : (Json.obj input).get? "expected" = some expected) (hunknown : ¬ IsKnown input) :
    ∃ message, static (.obj input) = .error (.conformance "UNKNOWN_FIELD" message) := by
  have hmissing : ∀ k ∈ ["actual", "expected"], k ∈ Json.keys input := by
    intro k hk
    rcases List.mem_pair.mp hk with rfl | rfl
    · exact mem_keys_of_get? hactual
    · exact mem_keys_of_get? hexpected
  obtain ⟨message, herror⟩ := @closedWith_unknown _ _ ["applicable", "severity"] hmissing hunknown
  exact ⟨message, by rw [static, requireObject, ok_bind, herror]; rfl⟩

omit [Runtime] in
theorem static_of_known (hactual : (Json.obj input).get? "actual" = some actual)
    (hexpected : (Json.obj input).get? "expected" = some expected) (hknown : IsKnown input)
    (happlicable : (Json.obj input).get? "applicable" ≠ some (.bool false)) :
    ∃ o, static (.obj input) = .ok o ∧ o.Plain ∧ (o.status = .pass ↔ pyEq actual expected = true) := by
  have hclosed : closedWith (.obj input) ["actual", "expected"] ["applicable", "severity"] = .ok () := by
    refine closedWith_eq_ok.mpr ⟨fun k hk => ?_, hknown⟩
    rcases List.mem_pair.mp hk with rfl | rfl
    · exact mem_keys_of_get? hactual
    · exact mem_keys_of_get? hexpected
  have hon : ¬ getOr input "applicable" (.bool true) = .bool false := by
    rw [getOr]
    cases hlookup : input.lookup "applicable" with
    | none => simp
    | some v => exact fun h => happlicable (hlookup.trans (congrArg some h))
  rw [static, requireObject, ok_bind, hclosed, ok_bind, if_neg hon, item_eq_ok.mpr hactual, item_eq_ok.mpr hexpected, ok_bind,
    ok_bind]
  by_cases heq : pyEq actual expected = true
  · exact ⟨_, if_pos heq, Outcome.plain_of_isSlim (by decide), iff_of_true rfl heq⟩
  · rw [if_neg heq]
    by_cases hadvisory : getOr input "severity" (.str "REQUIRED") = .str "ADVISORY"
    · exact ⟨_, if_pos hadvisory, Outcome.plain_of_isSlim (by decide), iff_of_false (by rintro ⟨⟩) heq⟩
    · exact ⟨_, if_neg hadvisory, Outcome.plain_of_isSlim (by decide), iff_of_false (by rintro ⟨⟩) heq⟩

end

/-! ## Type exactness -/

/-- Where the comparison tells as much as the canonical bytes. -/
def TypeExact (input : Json.Members) (actual expected : Json) : Prop :=
  if IsKnown input then pyEq actual expected = true → (Valid actual ∧ Valid expected) ∧ boolAgainstInt actual expected = false
  else Valid actual ∧ Valid expected ∧ pyEq actual expected = true → boolAgainstInt actual expected = true

instance (input : Json.Members) (actual expected : Json) : Decidable (TypeExact input actual expected) :=
  inferInstanceAs (Decidable (if IsKnown input then _ → _ else _ → _))

/-- The round of a static assertion, whose verdict is the equality of canonical bytes just where it is type-exact. -/
theorem runControl_static {environment control actual expected : Json} {c : ControlShape} (hc : c.At control)
    (hhandler : c.handler = .staticAssertion) (hwf : control.Wf) (hactual : (Json.obj c.input).get? "actual" = some actual)
    (hexpected : (Json.obj c.input).get? "expected" = some expected)
    (happlicable : (Json.obj c.input).get? "applicable" ≠ some (.bool false)) :
    ∃ result, runControl environment control = .ok result ∧
      ((result.status = .pass ↔ ∃ data, canonicalBytes actual = .ok data ∧ canonicalBytes expected = .ok data) ↔
        TypeExact c.input actual expected) := by
  have hinput := hwf.get? hc.input
  rw [canonicalBytes_common (hinput.get? hactual) (hinput.get? hexpected)]
  by_cases hknown : IsKnown c.input
  · obtain ⟨o, ho, hplain, hstatus⟩ := static_of_known hactual hexpected hknown happlicable
    have hhandle : onRefusal Outcome.refused id (handle environment c.handler (.obj c.input)) = .ok o := by
      rw [hhandler, handle, ho]
      rfl
    obtain ⟨digest, hdigest⟩ := runControl_of_plain hc hhandle hplain
    refine ⟨_, hdigest, ?_⟩
    rw [TypeExact, if_pos hknown]
    dsimp only
    rw [hstatus]
    tauto
  · obtain ⟨message, herror⟩ := static_of_unknown hactual hexpected hknown
    have hhandle : onRefusal Outcome.refused id (handle environment c.handler (.obj c.input)) = .ok (.refused "UNKNOWN_FIELD") := by
      rw [hhandler, handle, herror]
      rfl
    obtain ⟨digest, hdigest⟩ := runControl_of_plain hc hhandle (Outcome.plain_refused (by decide))
    refine ⟨_, hdigest, ?_⟩
    have hstatus : ¬ (Outcome.refused "UNKNOWN_FIELD").status = .pass := nofun
    rw [TypeExact, if_neg hknown]
    dsimp only
    rw [iff_false_left hstatus, ← Bool.not_eq_false (boolAgainstInt actual expected)]
    tauto

/-- In an accepted campaign, a static assertion has the verdict of its canonical bytes just where it is type-exact. -/
theorem static_typeExact {campaign document environment : Json} (hwf : document.Wf)
    (hcampaign : validateCampaign document = .ok campaign) : ∃ controls, campaign.get? "controls" = some (.arr controls) ∧
      ∀ (i : ℕ) (control actual expected : Json) (input : Json.Members), controls[i]? = some control →
        control.get? "handler" = some (.str "STATIC_ASSERTION") → control.get? "input" = some (.obj input) →
        (Json.obj input).get? "actual" = some actual → (Json.obj input).get? "expected" = some expected →
        (Json.obj input).get? "applicable" ≠ some (.bool false) →
        ∃ result, runControl environment control = .ok result ∧
          (∀ runId observedAt report, runCampaign document environment runId observedAt = .ok report →
            ∃ rows, report.get? "results" = some (.arr rows) ∧ rows[i]? = some result.asDict) ∧
          ((result.asDict.get? "status" = some (.str "PASS") ↔
            ∃ data, canonicalBytes actual = .ok data ∧ canonicalBytes expected = .ok data) ↔ TypeExact input actual expected) := by
  obtain ⟨rfl, shape, hshape⟩ := campaign_of_validateCampaign hcampaign
  refine ⟨shape.controls, hshape.controls, fun i control actual expected input hi hhandler hinput hactual hexpected happlicable => ?_⟩
  have hmem := List.mem_of_getElem? hi
  obtain ⟨c, hc, -⟩ := hshape.control control hmem
  have hstatic : c.handler = .staticAssertion := by
    have hname : Json.str c.handler.name = .str Handler.staticAssertion.name := Option.some.inj (hc.handler.symm.trans hhandler)
    exact Option.some.inj ((Handler.ofJson?_eq_some.mpr hname.symm).symm.trans (Handler.ofJson?_eq_some.mpr rfl))
  obtain rfl : c.input = input := Json.obj.inj (Option.some.inj (hc.input.symm.trans hinput))
  have hcontrol : control.Wf := Json.wf_arr.mp (hwf.get? hshape.controls) control hmem
  obtain ⟨result, hresult, hexact⟩ : ∃ result, runControl environment control = .ok result ∧
      ((result.status = .pass ↔ ∃ data, canonicalBytes actual = .ok data ∧ canonicalBytes expected = .ok data) ↔
        TypeExact c.input actual expected) := runControl_static hc hstatic hcontrol hactual hexpected happlicable
  refine ⟨result, hresult, fun runId observedAt report hreport => ?_, ?_⟩
  · obtain ⟨results, hrounds, hrows⟩ := rounds_of_runCampaign hshape hreport
    obtain ⟨y, hy, hround⟩ := forall₂_getElem? hrounds hi
    rw [hresult, Except.ok.injEq] at hround
    exact ⟨_, hrows, by rw [List.getElem?_map, hy, hround, Option.map_some]⟩
  · have hstatus : result.asDict.get? "status" = some (.str "PASS") ↔ result.status = .pass := by
      change some (Json.str result.status.name) = some (.str ResultStatus.pass.name) ↔ _
      rw [Option.some.injEq, Json.str.injEq]
      exact ⟨ResultStatus.name_injective, congrArg _⟩
    rw [hstatus]
    exact hexact

end Campaign

end

namespace Campaign
open Sample

/-- `[1, {"on": true}]` -/
def Sample.nested : Json := .arr [.int 1, .obj [("on", .bool true)]]

/-- The input of a static assertion. -/
def Sample.assertion (actual expected : Json) : Json.Members := [("actual", actual), ("expected", expected)]

theorem static_typeExact_sample : let _ := Runtime.ascii
    ∃ result, runControl environment (control .staticAssertion (assertion nested nested)) = .ok result ∧
      (result.asDict.get? "status" = some (.str "PASS") ↔
        ∃ data, canonicalBytes nested = .ok data ∧ canonicalBytes nested = .ok data) := by
  intro _
  have hcampaign : ∃ c, validateCampaign (campaign (control .staticAssertion (assertion nested nested))) = .ok c :=
    ⟨campaign (control .staticAssertion (assertion nested nested)), by decide +kernel⟩
  obtain ⟨c, hc⟩ := hcampaign
  obtain ⟨controls, hcontrols, h⟩ := @static_typeExact _ _ _ environment (by decide) hc
  obtain ⟨rfl, -⟩ := campaign_of_validateCampaign hc
  obtain rfl : [control .staticAssertion (assertion nested nested)] = controls := Json.arr.inj (Option.some.inj hcontrols)
  obtain ⟨result, hresult, -, hexact⟩ := h 0 _ nested nested _ rfl rfl rfl rfl rfl (by decide)
  exact ⟨result, hresult, hexact.mpr (by decide)⟩

/-- `true` passes where `1` is expected, and their canonical bytes differ. -/
theorem static_boolean_passes : let _ := Runtime.ascii
    (runCampaign (campaign (control .staticAssertion (assertion (.bool true) (.int 1)))) environment "run" "2026-01-01T00:00:00Z").map (·.get? "status") =
        .ok (some (.str "PASS")) ∧
      (∃ result, runControl environment (control .staticAssertion (assertion (.bool true) (.int 1))) = .ok result ∧
        result.asDict.get? "status" = some (.str "PASS")) ∧
      ¬ ∃ data, canonicalBytes (.bool true) = .ok data ∧ canonicalBytes (.int 1) = .ok data := by
  intro _
  refine ⟨by decide +kernel, ?_, ?_⟩
  · obtain ⟨o, ho, hplain, hstatus⟩ := @static_of_known (assertion (.bool true) (.int 1)) _ _ rfl rfl (by decide) (by decide)
    have hhandle : onRefusal Outcome.refused id (handle environment .staticAssertion (.obj (assertion (.bool true) (.int 1)))) = .ok o := by
      rw [handle, ho]
      rfl
    obtain ⟨digest, hresult⟩ := runControl_of_plain (at_control .staticAssertion (assertion (.bool true) (.int 1))) hhandle hplain
    refine ⟨_, hresult, ?_⟩
    change some (Json.str o.status.name) = _
    rw [hstatus.mpr rfl]
    rfl
  · rw [canonicalBytes_common (by decide) (by decide)]
    decide

example : pyEq (.bool true) (.int 1) = true ∧ boolAgainstInt (.bool true) (.int 1) = true := by decide +kernel

end Campaign

end HarnessConformance
