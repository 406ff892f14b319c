import HarnessConformance.Campaign.Run

/-! # The status of a report

`_overall` returns a status of the worst level of its results, in whatever order they stand. -/

namespace HarnessConformance.Campaign
open Lib Lib.Outcome
set_option autoImplicit false

/-! ## Levels -/

/-- FAIL > NOT_RUN_ENV_UNAVAILABLE > WARN > PASS and NOT_APPLICABLE. -/
def ResultStatus.level : ResultStatus → ℕ
  | .fail => 3
  | .notRunEnvUnavailable => 2
  | .warn => 1
  | .pass | .notApplicable => 0

/-- What a single result counts as. -/
def ControlResult.level (r : ControlResult) : ℕ :=
  match r.status with
  | .fail => 3
  | .notRunEnvUnavailable => if r.isRequired then 2 else 1
  | .warn => 1
  | .notApplicable => if r.isRequired then 1 else 0
  | .pass => 0

def worst (results : List ControlResult) : ℕ := (results.map ControlResult.level).foldr max 0

theorem ControlResult.level_le (r : ControlResult) : r.level ≤ 3 := by
  unfold level
  split
  · exact le_rfl
  · split_ifs <;> decide
  · decide
  · split_ifs <;> decide
  · decide

theorem le_worst {results : List ControlResult} {n : ℕ} (hn : 0 < n) : n ≤ worst results ↔ ∃ r ∈ results, n ≤ r.level := by
  induction results with
  | nil => simp [worst, hn.ne']
  | cons r results ih =>
    rw [worst] at ih
    simp [worst, ih]

theorem worst_le (results : List ControlResult) : worst results ≤ 3 := by
  by_contra hlt
  obtain ⟨r, -, hle⟩ := (le_worst (n := 4) (by decide)).mp (not_le.mp hlt)
  exact absurd (hle.trans r.level_le) (by decide)

theorem ControlResult.level_eq_three {r : ControlResult} : 3 ≤ r.level ↔ r.status = .fail := by
  unfold level
  cases r.status <;> simp
  all_goals split_ifs <;> simp

theorem ControlResult.two_le_level {r : ControlResult} :
    2 ≤ r.level ↔ r.status = .fail ∨ (r.isRequired = true ∧ r.status = .notRunEnvUnavailable) := by
  unfold level
  cases r.status <;> simp
  all_goals split_ifs <;> simp_all

theorem ControlResult.one_le_level {r : ControlResult} : 1 ≤ r.level ↔
    (r.status = .fail ∨ r.status = .warn ∨ r.status = .notRunEnvUnavailable) ∨ (r.isRequired = true ∧ r.status ≠ .pass) := by
  unfold level
  cases r.status <;> simp
  all_goals split_ifs <;> simp_all

/-! ## The law -/

section
variable {results others : List ControlResult}

/-- The early returns of `_overall`. -/
theorem overall_level (results : List ControlResult) : (overall results).level =
    if results.any (·.status = .fail) then 3
    else if (results.filter ControlResult.isRequired).any (·.status = .notRunEnvUnavailable) then 2
    else if (results.filter ControlResult.isRequired).any (·.status ≠ .pass) then 1
    else if results.any fun r => r.status = .warn ∨ r.status = .notRunEnvUnavailable then 1
    else 0 := by
  unfold overall
  dsimp only
  split_ifs
  all_goals rfl

theorem worst_le_one (hfail : ¬ results.any (·.status = .fail) = true)
    (hnotRun : ¬ (results.filter ControlResult.isRequired).any (·.status = .notRunEnvUnavailable) = true) : worst results ≤ 1 := by
  by_contra hlt
  obtain ⟨s, hs, hle⟩ := (le_worst (n := 2) (by decide)).mp (not_le.mp hlt)
  rcases ControlResult.two_le_level.mp hle with hstatus | ⟨hrequired, hstatus⟩
  · exact hfail (List.any_eq_true.mpr ⟨s, hs, decide_eq_true hstatus⟩)
  · exact hnotRun (List.any_eq_true.mpr ⟨s, List.mem_filter.mpr ⟨hs, hrequired⟩, decide_eq_true hstatus⟩)

theorem overall_level_eq_worst (results : List ControlResult) : (overall results).level = worst results := by
  rw [overall_level]
  split_ifs with hfail hnotRun hrequired hwarn
  · obtain ⟨r, hr, hstatus⟩ : ∃ r ∈ results, r.status = .fail := by simpa using hfail
    exact le_antisymm ((le_worst (by decide)).mpr ⟨r, hr, ControlResult.level_eq_three.mpr hstatus⟩) (worst_le results)
  · obtain ⟨r, hr, hstatus⟩ : ∃ r ∈ results, r.isRequired = true ∧ r.status = .notRunEnvUnavailable := by simpa using hnotRun
    refine le_antisymm ((le_worst (by decide)).mpr ⟨r, hr, ControlResult.two_le_level.mpr (.inr hstatus)⟩) (not_lt.mp fun hlt => ?_)
    obtain ⟨s, hs, hle⟩ := (le_worst (n := 3) (by decide)).mp hlt
    exact hfail (List.any_eq_true.mpr ⟨s, hs, decide_eq_true (ControlResult.level_eq_three.mp hle)⟩)
  · obtain ⟨r, hr, hstatus⟩ : ∃ r ∈ results, r.isRequired = true ∧ r.status ≠ .pass := by simpa using hrequired
    exact le_antisymm ((le_worst (by decide)).mpr ⟨r, hr, ControlResult.one_le_level.mpr (.inr hstatus)⟩)
      (worst_le_one hfail hnotRun)
  · obtain ⟨r, hr, hstatus⟩ : ∃ r ∈ results, r.status = .warn ∨ r.status = .notRunEnvUnavailable := by simpa using hwarn
    exact le_antisymm ((le_worst (by decide)).mpr ⟨r, hr, ControlResult.one_le_level.mpr (.inl (.inr hstatus))⟩)
      (worst_le_one hfail hnotRun)
  · refine (Nat.le_zero.mp (not_lt.mp fun hlt => ?_)).symm
    obtain ⟨s, hs, hle⟩ := (le_worst (n := 1) (by decide)).mp hlt
    rcases ControlResult.one_le_level.mp hle with (hstatus | hstatus) | hstatus
    · exact hfail (List.any_eq_true.mpr ⟨s, hs, decide_eq_true hstatus⟩)
    · exact hwarn (List.any_eq_true.mpr ⟨s, hs, decide_eq_true hstatus⟩)
    · exact hrequired (List.any_eq_true.mpr ⟨s, List.mem_filter.mpr ⟨hs, hstatus.1⟩, decide_eq_true hstatus.2⟩)

theorem worst_mono (h : ∀ r ∈ results, ∃ s ∈ others, r.level ≤ s.level) : worst results ≤ worst others := by
  by_cases hzero : worst results = 0
  · rw [hzero]
    exact Nat.zero_le _
  · have hpos := Nat.pos_of_ne_zero hzero
    obtain ⟨r, hr, hle⟩ := (le_worst hpos).mp le_rfl
    obtain ⟨s, hs, hrs⟩ := h r hr
    exact (le_worst hpos).mpr ⟨s, hs, hle.trans hrs⟩

theorem overall_perm (h : results.Perm others) : overall results = overall others := by
  have hrequired := h.filter ControlResult.isRequired
  have hempty : results ≠ [] ↔ others ≠ [] := by
    rw [ne_eq, ne_eq, ← List.length_eq_zero_iff, h.length_eq, List.length_eq_zero_iff]
  simp only [overall, h.any_eq, hrequired.any_eq, h.all_eq, hempty]

/-- A PASS leaves no required control without one, and no control at all with a bad result. -/
theorem statuses_of_pass (h : overall results = .pass) : ∀ r ∈ results,
    (r.isRequired = true → r.status = .pass) ∧ r.status ≠ .fail ∧ r.status ≠ .warn ∧ r.status ≠ .notRunEnvUnavailable := by
  intro r hr
  have hlevel : ¬ 1 ≤ r.level := by
    intro hle
    have hworst : 1 ≤ (overall results).level := by
      rw [overall_level_eq_worst]
      exact (le_worst (by decide)).mpr ⟨r, hr, hle⟩
    rw [h] at hworst
    exact absurd hworst (by decide)
  rw [ControlResult.one_le_level, not_or, not_or, not_or, not_and_or, not_not] at hlevel
  obtain ⟨⟨hfail, hwarn, hnotRun⟩, hrequired⟩ := hlevel
  exact ⟨fun hr => hrequired.resolve_left (not_not.mpr hr), hfail, hwarn, hnotRun⟩

end

/-! ## Reports -/

/-- A report holds the results of its controls and their status. -/
theorem report_results [Runtime] {campaign environment report : Json} {runId observedAt : String}
    (h : runCampaign campaign environment runId observedAt = .ok report) : ∃ results,
      report.get? "results" = some (.arr (results.map ControlResult.asDict)) ∧ report.get? "status" = some (.str (overall results).name) := by
  simp only [runCampaign, reportBody, bind_eq_ok, pure_eq_ok] at h
  obtain ⟨_, -, _, -, results, -, _, ⟨_, -, _, -, _, -, _, -, _, -, rfl⟩, digest, -, rfl⟩ := h
  exact ⟨results, rfl, rfl⟩

/-- The level of the overall status is that of the worst result; so the order of the results does not matter, a worse
or a further result never improves it, and a report with the status PASS has no result that is not. -/
theorem overall_worst_of :
    (∀ results, (overall results).level = worst results) ∧
      (∀ results others : List ControlResult, results.Perm others → overall results = overall others) ∧
      (∀ results others : List ControlResult, List.Forall₂ (fun r s => r.level ≤ s.level) results others →
        (overall results).level ≤ (overall others).level) ∧
      (∀ results others : List ControlResult, results.Sublist others → (overall results).level ≤ (overall others).level) ∧
      ∀ [Runtime] (campaign environment report : Json) (runId observedAt : String),
        runCampaign campaign environment runId observedAt = .ok report → ∃ results,
          report.get? "results" = some (.arr (results.map ControlResult.asDict)) ∧
          report.get? "status" = some (.str (overall results).name) ∧
          (report.get? "status" = some (.str "PASS") → ∀ r ∈ results,
            (r.isRequired = true → r.status = .pass) ∧ r.status ≠ .fail ∧ r.status ≠ .warn ∧ r.status ≠ .notRunEnvUnavailable) := by
  refine ⟨overall_level_eq_worst, fun _ _ => overall_perm, fun results others h => ?_, fun results others h => ?_, ?_⟩
  · rw [overall_level_eq_worst, overall_level_eq_worst]
    exact worst_mono fun r hr => forall₂_mem_left h hr
  · rw [overall_level_eq_worst, overall_level_eq_worst]
    exact worst_mono fun r hr => ⟨r, h.subset hr, le_rfl⟩
  · intro _ campaign environment report runId observedAt h
    obtain ⟨results, hresults, hstatus⟩ := report_results h
    refine ⟨results, hresults, hstatus, fun hpass => statuses_of_pass ?_⟩
    rw [hstatus, Option.some.injEq, Json.str.injEq] at hpass
    exact ResultStatus.name_injective hpass

end HarnessConformance.Campaign
