import HarnessConformance.LinuxReadiness.Plan
import HarnessConformance.PlainData

/-! # Case records

One entry of the signed record: which assertions a case makes, the counts of the predecessor
suites, and the status that follows from both. -/

namespace HarnessConformance
open Lib Lib.Outcome Lib.Lines
set_option autoImplicit false

/-- `CASE_CHECKS` -/
def Case.checks : Case → List String
  | hostIsolationNegatives => ["ipv4-denied", "ipv6-denied", "dns-denied", "loopback-denied", "descendants-denied",
      "warm-roots-hidden", "credentials-hidden", "sockets-denied", "packet-immutable"]
  | linuxTargetBuild => ["target-local-build", "native-dependencies", "linux-executable", "cache-pinned", "sbom-pinned",
      "no-downloads"]
  | fullPredecessorRegression => ["full-inventory", "all-suites-executed", "no-deselection", "no-skip-or-xfail"]
  | controlContainerStartup => ["standalone-started", "health-ready", "no-downloads", "telemetry-disabled"]
  | postgresMigrationAndRls => ["forward-migration", "idempotent-migration", "cross-tenant-denied", "fixture-only"]
  | durableRestart => ["restart-completed", "records-persisted", "tenant-boundaries-preserved"]
  | arbitraryNonRootUid => ["arbitrary-nonroot-uid", "capabilities-dropped", "seccomp-enforced", "no-fixed-home"]
  | readOnlyRootFilesystem => ["root-read-only", "declared-volumes-only", "no-privilege-escalation"]
  | kubernetesSmoke => ["namespace-pinned", "quota-pinned", "admission-enforced", "readiness-passed", "run-labelled-cleanup"]
  | defaultDenyNetwork => ["undeclared-egress-denied", "metadata-denied", "proxy-only", "policy-not-bypassable"]

theorem Case.checks_short (c : Case) : ∀ name ∈ c.checks, Json.isPlain name = true ∧ name.length ≤ 32 := by
  cases c <;> simp only [Case.checks, List.forall_mem_cons] <;>
    repeat first | exact List.forall_mem_nil _ | refine ⟨Json.shortKey rfl, ?_⟩

/-- `"/v1/linux-baseline/" + case.lower().replace("_", "-")` -/
def Case.path (c : Case) : String :=
  "/v1/linux-baseline/" ++ String.ofList (c.name.toList.map fun ch => if ch = '_' then '-' else ch.toLower)

example : Case.durableRestart.path = "/v1/linux-baseline/durable-restart" := by decide

theorem Case.path_short (c : Case) : Json.isPlain c.path = true ∧ c.path.length ≤ 64 := by
  have hlower : (c.name.toList.map fun ch => if ch = '_' then '-' else ch.toLower).all Json.isPlainChar = true := by
    cases c <;> decide
  have hlength : c.path.length = "/v1/linux-baseline/".length + c.name.length := by
    unfold Case.path
    simp only [String.length_append, String.length_ofList, List.length_map, String.length_toList]
  have hname := c.name_short.2
  have hroot : "/v1/linux-baseline/".length = 19 := by decide
  exact ⟨Json.isPlain_append (Json.isPlain_ofList rfl) (Json.isPlain_ofList hlower), by omega⟩

namespace LinuxReadiness

/-! ## Statuses -/

inductive Status where
  | pass
  | fail
  | notRunEnvUnavailable
  deriving DecidableEq

namespace Status

def name : Status → String
  | pass => "PASS"
  | fail => "FAIL"
  | notRunEnvUnavailable => "NOT_RUN_ENV_UNAVAILABLE"

/-- `STATUSES` -/
def all : List Status := [pass, fail, notRunEnvUnavailable]

/-- `value in STATUSES`, as the status named. -/
def ofJson? (value : Json) : Option Status := all.find? fun s => value = .str s.name

theorem ofJson?_eq_some {value : Json} {s : Status} : ofJson? value = some s ↔ value = .str s.name := by
  constructor
  · intro h
    simpa using List.find?_some h
  · rintro rfl
    cases s <;> decide

theorem name_injective {s t : Status} (h : s.name = t.name) : s = t :=
  Option.some.inj ((ofJson?_eq_some.mpr rfl).symm.trans (ofJson?_eq_some.mpr (congrArg Json.str h)))

/-- `_overall(statuses)` -/
def overall (statuses : List Status) : Status :=
  if fail ∈ statuses then fail else if notRunEnvUnavailable ∈ statuses then notRunEnvUnavailable else pass

theorem overall_eq_pass {statuses : List Status} : overall statuses = pass ↔ ∀ s ∈ statuses, s = pass := by
  constructor
  · intro h s hs
    unfold overall at h
    split at h
    · cases h
    · rename_i hfail
      split at h
      · cases h
      · rename_i hnot
        cases s with
        | pass => rfl
        | fail => exact absurd hs hfail
        | notRunEnvUnavailable => exact absurd hs hnot
  · intro h
    have hfail : fail ∉ statuses := fun hmem => absurd (h _ hmem) (by decide)
    have hnot : notRunEnvUnavailable ∉ statuses := fun hmem => absurd (h _ hmem) (by decide)
    rw [overall, if_neg hfail, if_neg hnot]

end Status

def requireStatus (e : PyError) (value : Json) : Py Status :=
  match Status.ofJson? value with
  | some s => .ok s
  | none => .error e

@[simp] theorem requireStatus_eq_ok {e : PyError} {value : Json} {s : Status} :
    requireStatus e value = .ok s ↔ value = .str s.name := by
  rw [requireStatus, ← Status.ofJson?_eq_some]
  cases Status.ofJson? value <;> simp

/-! ## Counts -/

def regressionFields : List String := ["inventoryDigest", "collected", "executed", "skipped", "failed"]

/-- The four counters of one repository's suite. -/
structure Counts where
  collected : ℕ
  executed : ℕ
  skipped : ℕ
  failed : ℕ
  deriving DecidableEq

/-- `item["skipped"] or item["failed"] or item["collected"] != item["executed"]` -/
def Counts.incomplete (c : Counts) : Bool := c.skipped != 0 || c.failed != 0 || c.collected != c.executed

theorem Counts.incomplete_eq_false {c : Counts} :
    c.incomplete = false ↔ c.skipped = 0 ∧ c.failed = 0 ∧ c.collected = c.executed := by
  simp [Counts.incomplete, and_assoc]

def readCounts (value : Json) : Py Counts := do
  let collected ← integer (← item value "collected") 0
  let executed ← integer (← item value "executed") 0
  let skipped ← integer (← item value "skipped") 0
  let failed ← integer (← item value "failed") 0
  pure ⟨collected, executed, skipped, failed⟩

def regression (value : Json) : Py Counts := do
  let _ ← obj value regressionFields "probe regression"
  let _ ← requireDigest (← item value "inventoryDigest") "inventoryDigest"
  readCounts value

/-! ## Records -/

def caseFields : List String :=
  ["caseId", "status", "observedAt", "runNonce", "probeDigest", "commandDigest", "outputDigest", "output"]

def outputDomain : String := "planeon.linux-probe-output/v1alpha1"

/-- The repositories whose suites a case reports. -/
def reported (c : Case) : List String := if c = .fullPredecessorRegression then repositories else []

/-- The statuses a case's own is computed from. -/
def recordStatuses (checks : List Status) (regressions : List Counts) : List Status :=
  checks ++ if regressions.any Counts.incomplete then [.fail] else []

variable [Runtime]

/-- One round of the loop over `zip(CASES, cases)`, as the status it accepted. -/
def caseRecord (expected : Case) (case : Json) : Py Status := do
  let _ ← obj case caseFields "Linux case"
  require "LINUX_CASE_INVENTORY_INVALID" ((← item case "caseId") = .str expected.name)
  let status ← requireStatus (.conformance "LINUX_CASE_INVENTORY_INVALID"
    "Linux readiness binding or mandatory case is invalid") (← item case "status")
  let _ ← requireTime (← item case "observedAt") "observedAt"
  let _ ← requireId (← item case "runNonce") "runNonce"
  let _ ← requireDigest (← item case "probeDigest") "probeDigest"
  let _ ← requireDigest (← item case "commandDigest") "commandDigest"
  let outputDigest ← requireDigest (← item case "outputDigest") "outputDigest"
  let output ← item case "output"
  let _ ← obj output ["checks", "regressions"] "probe output"
  let checks ← obj (← item output "checks") expected.checks "probe checks"
  let statuses ← checks.mapM fun (_, value) => requireStatus (.conformance "LINUX_CHECK_STATUS_INVALID"
    "Linux readiness binding or mandatory case is invalid") value
  let regressions ← obj (← item output "regressions") (reported expected) "probe regressions"
  let counts ← regressions.mapM fun (_, value) => regression value
  require "LINUX_OUTPUT_DIGEST_MISMATCH" (outputDigest = (← canonicalDigest output (some outputDomain)))
  require "LINUX_FALSE_CASE_STATUS" (status = Status.overall (recordStatuses statuses counts))
  pure status

/-- The case part of `validate_linux_evidence`: ten entries, in the order of `CASES`. -/
def caseRecords (value : Json) : Py (List Status) :=
  match value with
  | .arr cases => do
    require "LINUX_CASE_INVENTORY_INVALID" (cases.length = Case.all.length)
    (Case.all.zip cases).mapM fun (expected, case) => caseRecord expected case
  | _ => .error (.conformance "LINUX_CASE_INVENTORY_INVALID" "Linux readiness binding or mandatory case is invalid")

/-! ## What an accepted entry holds -/

/-- The parts of an accepted entry. -/
structure CaseRecord (expected : Case) (case : Json) (status : Status) : Prop where
  closed : closed case caseFields = .ok ()
  caseId : case.get? "caseId" = some (.str expected.name)
  named : case.get? "status" = some (.str status.name)
  observedAt : ∃ t : TimeText, case.get? "observedAt" = some (.str t.text)
  runNonce : ∃ i : Identifier, case.get? "runNonce" = some (.str i.text)
  probeDigest : ∃ d : Digest, case.get? "probeDigest" = some (.str d.text)
  commandDigest : ∃ d : Digest, case.get? "commandDigest" = some (.str d.text)
  output : ∃ output checks regressions statuses counts, case.get? "output" = some output ∧
    HarnessConformance.closed output ["checks", "regressions"] = .ok () ∧
    output.get? "checks" = some (.obj checks) ∧ (∀ k, k ∈ Json.keys checks ↔ k ∈ expected.checks) ∧
    List.Forall₂ (fun m s => m.2 = Json.str (Status.name s)) checks statuses ∧
    output.get? "regressions" = some (.obj regressions) ∧ (∀ k, k ∈ Json.keys regressions ↔ k ∈ reported expected) ∧
    List.Forall₂ (fun m c => regression m.2 = .ok c) regressions counts ∧
    Valid output ∧ case.get? "outputDigest" = some (.str (byteDigest (domainPrefix (some outputDomain) ++ canonicalText output)).text) ∧
    status = Status.overall (recordStatuses statuses counts)

theorem caseRecord_eq_ok {expected : Case} {case : Json} {status : Status} :
    caseRecord expected case = .ok status ↔ CaseRecord expected case status := by
  simp only [caseRecord, bind_eq_ok, obj_eq_ok, item_eq_ok, require_eq_ok, requireStatus_eq_ok, requireTime_eq_ok,
    requireId_eq_ok, requireDigest_eq_ok, mapM_eq_ok, canonicalDigest_eq_ok, pure_eq_ok, exists_const]
  constructor
  · rintro ⟨members, ⟨rfl, hkeys⟩, _, hid, rfl, _, hstatus, s, rfl, _, htime, time, rfl, _, hnonce, nonce, rfl, h⟩
    obtain ⟨_, hprobe, probe, rfl, _, hcommand, command, rfl, _, hdigest, digest, rfl, output, houtput, h⟩ := h
    obtain ⟨outputMembers, ⟨rfl, houtputKeys⟩, _, hchecks, checks, ⟨rfl, hcheckKeys⟩, statuses, hstatuses, h⟩ := h
    obtain ⟨_, hregressions, regressions, ⟨rfl, hregressionKeys⟩, counts, hcounts, _, ⟨hvalid, rfl⟩, rfl, rfl, rfl⟩ := h
    exact ⟨closed_eq_ok.mpr ⟨members, rfl, hkeys⟩, hid, hstatus, ⟨time, htime⟩, ⟨nonce, hnonce⟩, ⟨probe, hprobe⟩,
      ⟨command, hcommand⟩, _, checks, regressions, statuses, counts, houtput,
      closed_eq_ok.mpr ⟨outputMembers, rfl, houtputKeys⟩, hchecks, hcheckKeys, hstatuses, hregressions, hregressionKeys,
      hcounts, hvalid, hdigest, rfl⟩
  · intro h
    obtain ⟨members, rfl, hkeys⟩ := closed_eq_ok.mp h.closed
    obtain ⟨time, htime⟩ := h.observedAt
    obtain ⟨nonce, hnonce⟩ := h.runNonce
    obtain ⟨probe, hprobe⟩ := h.probeDigest
    obtain ⟨command, hcommand⟩ := h.commandDigest
    obtain ⟨output, checks, regressions, statuses, counts, houtput, houtputClosed, hchecks, hcheckKeys, hstatuses, h'⟩ := h.output
    obtain ⟨hregressions, hregressionKeys, hcounts, hvalid, hdigest, hoverall⟩ := h'
    obtain ⟨outputMembers, rfl, houtputKeys⟩ := closed_eq_ok.mp houtputClosed
    refine ⟨members, ⟨rfl, hkeys⟩, _, h.caseId, rfl, _, h.named, status, rfl, _, htime, time, rfl, _, hnonce, nonce, rfl, ?_⟩
    refine ⟨_, hprobe, probe, rfl, _, hcommand, command, rfl, _, hdigest, _, rfl, _, houtput, ?_⟩
    refine ⟨outputMembers, ⟨rfl, houtputKeys⟩, _, hchecks, checks, ⟨rfl, hcheckKeys⟩, statuses, hstatuses, ?_⟩
    exact ⟨_, hregressions, regressions, ⟨rfl, hregressionKeys⟩, counts, hcounts, _, ⟨hvalid, rfl⟩, rfl, hoverall, rfl⟩

end LinuxReadiness
end HarnessConformance
