import HarnessConformance.LiveSession.Refinement
import HarnessConformance.LinuxReadiness.Probe

/-! # Which plans can be completed

The receipt in which every assertion of a case passed and every promised test ran. The plan and the
receipt are validated by different code with different floors for the suite's own inventory, and
that receipt is accepted exactly when the plan promises what the receipt's floor asks. -/

namespace HarnessConformance.LiveSession
open Lib Lib.Outcome Lib.Lines
open LinuxReadiness (Status Counts Baseline Architecture reported recordStatuses regression readCounts caseFields
  outputDomain regressionFields repositories validatePlan buildProbeRequest cases)
set_option autoImplicit false

/-! ## The passing receipt -/

/-- `collected` and `executed` are the promised count, nothing was skipped and nothing failed. -/
def passingCounts (baseline : Json) : Py Json := do
  let count ← item baseline "testCount"
  pure (.obj [("inventoryDigest", ← item baseline "inventoryDigest"), ("collected", count), ("executed", count),
    ("skipped", .int 0), ("failed", .int 0)])

def passingOutput (c : Case) (regressions : Json) : Py Json := do
  let suites ← (reported c).mapM fun name => do
    pure (name, ← passingCounts (← item regressions name))
  pure (.obj [("checks", .obj (c.checks.map fun name => (name, .str "PASS"))), ("regressions", .obj suites)])

/-- What `execute_fixed` holds a receipt of a case to. -/
def expectedRegressions (plan : Json) (c : Case) : Py Json :=
  if c = .fullPredecessorRegression then item plan "regressions" else pure (.obj [])

section
variable [Runtime]

def passingReceipt (request regressions : Json) (c : Case) (observedAt : TimeText) : Py Json := do
  let output ← passingOutput c regressions
  pure (.obj [("caseId", .str c.name), ("status", .str "PASS"), ("observedAt", .str observedAt.text),
    ("runNonce", ← item request "runNonce"), ("probeDigest", ← item request "probeDigest"),
    ("commandDigest", ← item request "commandDigest"),
    ("outputDigest", .str (← canonicalDigest output (some outputDomain)).text), ("output", output)])

/-! ## Suites -/

/-- The suite of a promised inventory, complete and without a failure. -/
def passingSuite (b : Baseline) : Json :=
  .obj [("inventoryDigest", .str b.inventoryDigest.text), ("collected", .int b.testCount), ("executed", .int b.testCount),
    ("skipped", .int 0), ("failed", .int 0)]

omit [Runtime] in
theorem passingCounts_at {v : Json} {b : Baseline} (h : Baseline.At v b) : passingCounts v = .ok (passingSuite b) := by
  simp only [passingCounts, bind_eq_ok, item_eq_ok, pure_eq_ok]
  exact ⟨_, h.testCount, _, h.inventoryDigest, rfl⟩

omit [Runtime] in
theorem wf_passingSuite (b : Baseline) : (passingSuite b).Wf :=
  Json.wf_obj.mpr ⟨(by decide : regressionFields.Nodup), by simp [Json.Wf]⟩

omit [Runtime] in
theorem slim_passingSuite (b : Baseline) {name : String} (hname : Json.isPlain name = true ∧ name.length ≤ 32) :
    Slim 557 1 (name, passingSuite b) := by
  have hzero {key : String} (hkey : Json.isPlain key = true ∧ key.length ≤ 32) : Slim 75 0 (key, .int 0) :=
    (slim_count (n := 0) hkey (Nat.zero_le _)).mono (by decide) le_rfl
  have hcount {key : String} (hkey : Json.isPlain key = true ∧ key.length ≤ 32) : Slim 75 0 (key, .int b.testCount) :=
    (slim_count hkey b.bounded).mono (by decide) le_rfl
  have hwide : 2 + 5 * (75 + 36) ≤ 557 := by decide
  refine .obj hname ?_ le_rfl hwide
  simp only [List.forall_mem_cons]
  exact ⟨slim_digest (Json.shortKey rfl) _ (by decide), hcount (Json.shortKey rfl), hcount (Json.shortKey rfl), hzero (Json.shortKey rfl),
    hzero (Json.shortKey rfl), nofun⟩

omit [Runtime] in
/-- A complete suite passes the receipt's loop exactly when the promised inventory reaches its floor. -/
theorem receiptRegression_passing {name : String} {b : Baseline} {v : Json} (hwf : v.Wf) (hb : Baseline.At v b) {flag : Bool} :
    receiptRegression name (passingSuite b).canon v.canon = .ok flag ↔ flag = false ∧ receiptFloor name ≤ b.testCount := by
  have hdigest : (passingSuite b).canon.get? "inventoryDigest" = some (.str b.inventoryDigest.text) := by
    rw [Json.get?_canon (wf_passingSuite b)]
    rfl
  have hcount (key : String) (n : ℕ) (h : (passingSuite b).get? key = some (.int n)) :
      (passingSuite b).canon.get? key = some (.int n) := by
    rw [Json.get?_canon (wf_passingSuite b), h]
    rfl
  have hbaseline : v.canon.get? "inventoryDigest" = some (.str b.inventoryDigest.text) := by
    rw [Json.get?_canon hwf, hb.inventoryDigest]
    rfl
  have htests : v.canon.get? "testCount" = some (.int b.testCount) := by
    rw [Json.get?_canon hwf, hb.testCount]
    rfl
  have hobject {w : Json} {fields : List String} (h : closed w fields = .ok ()) : isObject w = true := by
    obtain ⟨members, rfl, -⟩ := closed_eq_ok.mp h
    rfl
  have hclosed := closed_canon.mpr hb.closed
  have hsuite : closed (passingSuite b).canon regressionFields = .ok () := closed_canon_obj rfl
  simp only [receiptRegression, readCounts, bind_eq_ok, require_eq_ok, item_eq_ok, requireDigest_eq_ok,
    LinuxReadiness.integer_eq_ok, pure_eq_ok, exists_const]
  constructor
  · rintro ⟨-, _, -, _, -, _, hd, digest, rfl, _, hn, n, ⟨rfl, hfloor, -⟩, counts, h, -, _, -, -, rfl⟩
    rw [htests, Option.some.injEq, Json.int.injEq, Nat.cast_inj] at hn
    obtain ⟨_, hcollected, collected, ⟨rfl, -⟩, _, hexecuted, executed, ⟨rfl, -⟩, h⟩ := h
    obtain ⟨_, hskipped, skipped, ⟨rfl, -⟩, _, hfailed, failed, ⟨rfl, -⟩, rfl⟩ := h
    rw [hcount _ _ rfl, Option.some.injEq, Json.int.injEq, Nat.cast_inj] at hcollected hexecuted
    rw [hcount _ 0 rfl, Option.some.injEq, Json.int.injEq, Nat.cast_inj] at hskipped hfailed
    subst hcollected hexecuted hskipped hfailed hn
    exact ⟨Counts.incomplete_eq_false.mpr ⟨rfl, rfl, rfl⟩, hfloor⟩
  · rintro ⟨rfl, hfloor⟩
    refine ⟨⟨hobject hsuite, hobject hclosed⟩, (), hsuite, (), hclosed, _, hbaseline, b.inventoryDigest, rfl, ?_⟩
    refine ⟨_, htests, b.testCount, ⟨rfl, hfloor, b.bounded⟩, ⟨b.testCount, b.testCount, 0, 0⟩, ?_, ?_⟩
    · exact ⟨_, hcount _ _ rfl, b.testCount, ⟨rfl, Nat.zero_le _, b.bounded⟩, _, hcount _ _ rfl, b.testCount,
        ⟨rfl, Nat.zero_le _, b.bounded⟩, _, hcount _ 0 rfl, 0, ⟨rfl, le_rfl, by decide⟩, _, hcount _ 0 rfl, 0,
        ⟨rfl, le_rfl, by decide⟩, rfl⟩
    · exact ⟨⟨Nat.zero_le _, le_rfl, Nat.zero_le _⟩, _, hdigest, ⟨rfl, rfl⟩, Counts.incomplete_eq_false.mpr ⟨rfl, rfl, rfl⟩⟩

/-! ## The output and the receipt of a case -/

def passingChecks (c : Case) : Json.Members := c.checks.map fun name => (name, .str "PASS")

def passingSuites (c : Case) (inventory : String → Baseline) : Json.Members :=
  (reported c).map fun name => (name, passingSuite (inventory name))

def outputJson (c : Case) (inventory : String → Baseline) : Json :=
  .obj [("checks", .obj (passingChecks c)), ("regressions", .obj (passingSuites c inventory))]

def receiptJson (r : Request) (inventory : String → Baseline) (observedAt : TimeText) : Json :=
  .obj [("caseId", .str r.operation.name), ("status", .str "PASS"), ("observedAt", .str observedAt.text),
    ("runNonce", .str r.runNonce.text), ("probeDigest", .str r.probeDigest.text), ("commandDigest", .str r.commandDigest.text),
    ("outputDigest", .str (byteDigest (domainPrefix (some outputDomain) ++ canonicalText (outputJson r.operation inventory))).text),
    ("output", outputJson r.operation inventory)]

section
variable (c : Case) (inventory : String → Baseline)

omit [Runtime] in
theorem wf_outputJson : (outputJson c inventory).Wf := by
  have hchecks : (Json.obj (passingChecks c)).Wf := by
    refine Json.wf_obj.mpr ⟨?_, by simp [passingChecks, Json.Wf]⟩
    rw [passingChecks, Json.keys_map]
    cases c <;> decide
  have hsuites : (Json.obj (passingSuites c inventory)).Wf := by
    refine Json.wf_obj.mpr ⟨?_, by simp [passingSuites, wf_passingSuite]⟩
    rw [passingSuites, Json.keys_map]
    cases c <;> decide
  exact Json.wf_obj.mpr ⟨(by decide : ["checks", "regressions"].Nodup), by simpa using ⟨hchecks, hsuites⟩⟩

omit [Runtime] in
theorem slim_outputJson : Slim 3636 3 ("output", outputJson c inventory) := by
  have hchecks : Slim 1781 2 ("checks", .obj (passingChecks c)) := by
    have hname := c.checks_short
    have hlength : (passingChecks c).length ≤ 9 := by
      rw [passingChecks, List.length_map]
      cases c <;> decide
    refine (Slim.obj (Json.shortKey rfl) (fun m hm => ?_) hlength le_rfl : Slim (2 + 9 * (6 + 36)) 1 _).mono (by decide) (by decide)
    obtain ⟨name, hmem, rfl⟩ := List.mem_map.mp hm
    exact .literal (hname name hmem) rfl (by decide)
  have hsuites : Slim 1781 2 ("regressions", .obj (passingSuites c inventory)) := by
    have hname : ∀ name ∈ reported c, Json.isPlain name = true ∧ name.length ≤ 32 := by cases c <;> decide
    have hlength : (passingSuites c inventory).length ≤ 3 := by
      rw [passingSuites, List.length_map]
      cases c <;> decide
    refine .obj (Json.shortKey rfl) (fun m hm => ?_) hlength (by decide : 2 + 3 * (557 + 36) ≤ 1781)
    obtain ⟨name, hmem, rfl⟩ := List.mem_map.mp hm
    exact slim_passingSuite _ (hname name hmem)
  refine .obj (Json.shortKey rfl) ?_ (le_refl 2) (by decide : 2 + 2 * (1781 + 36) ≤ 3636)
  simpa using ⟨hchecks, hsuites⟩

theorem valid_outputJson : Valid (outputJson c inventory) :=
  validAt_plain (slim_outputJson c inventory).plain ((slim_outputJson c inventory).height.trans (by decide))
    ((slim_outputJson c inventory).width.trans (by decide))

end

theorem slim_receiptJson (r : Request) (inventory : String → Baseline) (observedAt : TimeText) :
    ∃ members, receiptJson r inventory observedAt = .obj members ∧ members.length = 8 ∧ Json.keys members = caseFields ∧
      (∀ m ∈ members, m.2.Wf) ∧ ∀ m ∈ members, Slim 3636 3 m := by
  have hcase : Slim 3636 3 ("caseId", .str r.operation.name) := by
    have hshort := r.operation.name_short
    exact (Slim.text (Json.shortKey rfl) hshort.1 (by omega)).mono le_rfl (by decide)
  have hid {key : String} (hkey : Json.isPlain key = true ∧ key.length ≤ 32) (i : Identifier) : Slim 3636 3 (key, .str i.text) :=
    (slim_id hkey i).mono (by decide) (by decide)
  have hdigest {key : String} (hkey : Json.isPlain key = true ∧ key.length ≤ 32) (d : Digest) : Slim 3636 3 (key, .str d.text) :=
    (slim_digest hkey d (by decide)).mono le_rfl (by decide)
  refine ⟨_, rfl, rfl, rfl, ?_, ?_⟩
  · simpa [Json.Wf] using wf_outputJson r.operation inventory
  · simp only [List.forall_mem_cons]
    exact ⟨hcase, (Slim.literal (Json.shortKey rfl) rfl (by decide)).mono le_rfl (by decide),
      (slim_time (Json.shortKey rfl) _).mono (by decide) (by decide), hid (Json.shortKey rfl) _, hdigest (Json.shortKey rfl) _, hdigest (Json.shortKey rfl) _,
      hdigest (Json.shortKey rfl) _, slim_outputJson _ _, nofun⟩

theorem wf_receiptJson (r : Request) (inventory : String → Baseline) (observedAt : TimeText) :
    (receiptJson r inventory observedAt).Wf := by
  obtain ⟨members, hjson, -, hkeys, hwf, -⟩ := slim_receiptJson r inventory observedAt
  rw [hjson]
  exact Json.wf_obj.mpr ⟨hkeys ▸ by decide, hwf⟩

theorem dataDocument_receiptJson (r : Request) (inventory : String → Baseline) (observedAt : TimeText) :
    dataDocument (.data (receiptJson r inventory observedAt)) maxResponseBytes = .ok (receiptJson r inventory observedAt).canon := by
  obtain ⟨members, hjson, hlength, hkeys, hwf, hslim⟩ := slim_receiptJson r inventory observedAt
  rw [hjson]
  refine dataDocument_slim (.inr rfl) (hkeys ▸ by decide) hwf hslim (by decide) ?_
  rw [hlength]
  decide

/-! ## The plan's inventories -/

/-- The inventories of a dictionary, as far as a case reports them. -/
structure Promises (regressions : Json) (c : Case) (inventory : String → Baseline) : Prop where
  wf : regressions.Wf
  closed : closed regressions (reported c) = .ok ()
  found : ∀ name ∈ reported c, ∃ v, regressions.get? name = some v ∧ Baseline.At v (inventory name)

def inventoryJson (c : Case) (inventory : String → Baseline) : Json :=
  .obj ((reported c).map fun name => (name, (inventory name).toJson))

omit [Runtime] in
theorem Promises.canon {regressions : Json} {c : Case} {inventory : String → Baseline} (h : Promises regressions c inventory) :
    regressions.canon = (inventoryJson c inventory).canon := by
  refine eq_canon_of_closed_canon h.wf.canon (Json.canon_canon _) (closed_canon.mpr h.closed) ?_ (Json.keys_map _ _) ?_
  · cases c <;> decide
  · intro m hm
    obtain ⟨name, hname, rfl⟩ := List.mem_map.mp hm
    obtain ⟨v, hv, hb⟩ := h.found name hname
    have hwf := h.wf.get? hv
    rw [Json.get?_canon h.wf, hv, Option.map_some, Option.some.injEq]
    refine eq_canon_of_closed hwf.canon (Json.canon_canon _) (closed_canon.mpr hb.closed) (by decide) rfl ?_
    simp only [List.forall_mem_cons, Json.get?_canon hwf, hb.inventoryDigest, hb.testCount]
    exact ⟨rfl, rfl, nofun⟩

theorem Promises.dataDocument {regressions : Json} {c : Case} {inventory : String → Baseline}
    (h : Promises regressions c inventory) : dataDocument (.data regressions) maxSessionBytes = .ok regressions.canon := by
  have hname : ∀ name ∈ reported c, Json.isPlain name = true ∧ name.length ≤ 32 := by cases c <;> decide
  have hslim : ∀ m ∈ (reported c).map fun name => (name, (inventory name).toJson), Slim 220 1 m := by
    intro m hm
    obtain ⟨name, hmem, rfl⟩ := List.mem_map.mp hm
    refine .obj (hname name hmem) ?_ (le_refl 2) (by decide : 2 + 2 * (73 + 36) ≤ 220)
    simp only [List.forall_mem_cons]
    exact ⟨slim_digest (Json.shortKey rfl) _ le_rfl, (slim_count (Json.shortKey rfl) (inventory name).bounded).mono (by decide) le_rfl, nofun⟩
  refine dataDocument_slim_canon h.wf h.canon (.inl rfl) hslim (by decide) ?_
  rw [List.length_map]
  cases c <;> decide

omit [Runtime] in
theorem passingOutput_of_promises {regressions : Json} {c : Case} {inventory : String → Baseline}
    (h : Promises regressions c inventory) : passingOutput c regressions = .ok (outputJson c inventory) := by
  simp only [passingOutput, bind_eq_ok, pure_eq_ok, mapM_eq_ok, item_eq_ok]
  refine ⟨passingSuites c inventory, ?_, rfl⟩
  rw [passingSuites, List.forall₂_map_right_iff, List.forall₂_same]
  intro name hname
  obtain ⟨v, hv, hb⟩ := h.found name hname
  exact ⟨v, hv, _, passingCounts_at hb, rfl⟩

/-! ## Acceptance -/

theorem receipt_passing {s : Session} {r : Request} {t observedAt : TimeText} {regressions : Json} {inventory : String → Baseline}
    (hpromises : Promises regressions r.operation inventory)
    (hwindow : s.issuedAt.instant ≤ observedAt.instant ∧ observedAt.instant ≤ t.instant) :
    Receipt s r t regressions.canon (receiptJson r inventory observedAt).canon ↔
      ∀ name ∈ reported r.operation, receiptFloor name ≤ (inventory name).testCount := by
  have hwf := wf_receiptJson r inventory observedAt
  have hout := wf_outputJson r.operation inventory
  have field {key text : String} (h : (receiptJson r inventory observedAt).get? key = some (.str text)) :
      (receiptJson r inventory observedAt).canon.get? key = some (.str text) := by
    rw [Json.get?_canon hwf, h]
    rfl
  have houtput : (receiptJson r inventory observedAt).canon.get? "output" = some (outputJson r.operation inventory).canon := by
    rw [Json.get?_canon hwf]
    rfl
  have hregressions : (outputJson r.operation inventory).canon.get? "regressions" =
      some (Json.obj (passingSuites r.operation inventory)).canon := by
    rw [Json.get?_canon hout]
    rfl
  have hsuites : (Json.obj (passingSuites r.operation inventory)).Wf :=
    hout.get? (show (outputJson r.operation inventory).get? "regressions" = _ from rfl)
  -- What the loop of the receipt reads for one repository.
  have hloop : ∀ name ∈ reported r.operation, ∀ flag,
      (∃ result, (Json.obj (passingSuites r.operation inventory)).canon.get? name = some result ∧
        ∃ baseline, regressions.canon.get? name = some baseline ∧ receiptRegression name result baseline = .ok flag) ↔
      flag = false ∧ receiptFloor name ≤ (inventory name).testCount := by
    intro name hname flag
    obtain ⟨v, hv, hb⟩ := hpromises.found name hname
    have hresult : (Json.obj (passingSuites r.operation inventory)).get? name = some (passingSuite (inventory name)) :=
      Json.lookup_of_mem (Json.wf_obj.mp hsuites).1 (List.mem_map.mpr ⟨name, hname, rfl⟩)
    rw [Json.get?_canon hsuites, hresult, Json.get?_canon hpromises.wf, hv]
    simp only [Option.map_some, Option.some.injEq, exists_eq_left']
    exact receiptRegression_passing (hpromises.wf.get? hv) hb
  constructor
  · intro h name hname
    obtain ⟨output, checks, rs, statuses, failed, ho, -, -, hr, -, -, -, -, hfailed, -⟩ := h.output
    rw [houtput, Option.some.injEq] at ho
    subst ho
    rw [hregressions, Option.some.injEq] at hr
    rw [← hr] at hfailed
    obtain ⟨flag, -, hflag⟩ := forall₂_mem_left hfailed hname
    exact ((hloop name hname flag).mp hflag).2
  · intro hfloor
    have hchecks : (outputJson r.operation inventory).canon.get? "checks" = some (Json.obj (passingChecks r.operation)).canon := by
      rw [Json.get?_canon hout]
      rfl
    rw [Json.canon_obj] at hchecks hregressions
    have hpassed : List.Forall₂ (fun m status => m.2 = Json.str (Status.name status))
        (Json.sortMembers ((passingChecks r.operation).map Json.canonMember))
        ((Json.sortMembers ((passingChecks r.operation).map Json.canonMember)).map fun _ => Status.pass) := by
      rw [List.forall₂_map_right_iff, List.forall₂_same]
      intro m hm
      obtain ⟨m', hm', rfl⟩ := List.mem_map.mp ((Json.sortMembers_perm _).mem_iff.mp hm)
      obtain ⟨name, -, rfl⟩ := List.mem_map.mp hm'
      rfl
    have hstatus : receiptStatus (((reported r.operation).map fun _ => false).any id)
        ((Json.sortMembers ((passingChecks r.operation).map Json.canonMember)).map fun _ => Status.pass) = .pass := by
      simp [receiptStatus]
    refine ⟨closed_canon_obj rfl, field rfl, field rfl, field rfl, field rfl, ⟨observedAt, field rfl, hwindow⟩,
      _, _, _, _, (reported r.operation).map fun _ => false, houtput, closed_canon_obj rfl, hchecks, hregressions, ?_, hpassed,
      ?_, closed_canon.mpr hpromises.closed, ?_, ?_, validAt_canon.mpr (valid_outputJson _ _), ?_⟩
    · rw [← Json.canon_obj]
      exact closed_canon_obj (Json.keys_map _ _)
    · rw [← Json.canon_obj]
      exact closed_canon_obj (Json.keys_map _ _)
    · rw [← Json.canon_obj, List.forall₂_map_right_iff, List.forall₂_same]
      exact fun name hname => (hloop name hname false).mpr ⟨rfl, hfloor name hname⟩
    · rw [hstatus]
      exact field rfl
    · rw [canonicalText_canon]
      exact field rfl

/-- `plan["regressions"]["conformance"]["testCount"]` -/
def conformanceCount (plan : Json) : Py Json := do
  item (← item (← item plan "regressions") "conformance") "testCount"

omit [Runtime] in
/-- The inventories a released plan promises for a case. -/
theorem promises_of_released {plan : Json} (hwf : plan.Wf) (h : LinuxReadiness.Released plan) (c : Case) :
    ∃ regressions inventory, expectedRegressions plan c = .ok regressions ∧ Promises regressions c inventory ∧
      ((∀ name ∈ reported c, receiptFloor name ≤ (inventory name).testCount) ↔
        (c = .fullPredecessorRegression → ∃ n : ℕ, conformanceCount plan = .ok (.int n) ∧ 120 ≤ n)) := by
  obtain ⟨regressions, hregressions, hclosed, hfound⟩ := h.regressions
  by_cases hc : c = .fullPredecessorRegression
  · subst hc
    have hinhabited : Nonempty Baseline := ⟨⟨zero, 0, Nat.zero_le _⟩⟩
    have hvalues : Nonempty Json := ⟨.null⟩
    choose! v inventory hv using hfound
    refine ⟨regressions, inventory, item_eq_ok.mpr hregressions, ⟨hwf.get? hregressions, hclosed, fun name hname => ?_⟩, ?_⟩
    · exact ⟨v name, (hv name hname).1, (hv name hname).2.1⟩
    have hconformance := hv "conformance" (by decide)
    have hcount : conformanceCount plan = .ok (.int (inventory "conformance").testCount) := by
      simp only [conformanceCount, bind_eq_ok, item_eq_ok]
      exact ⟨_, hregressions, _, hconformance.1, hconformance.2.1.testCount⟩
    constructor
    · exact fun hfloor _ => ⟨_, hcount, hfloor "conformance" (by decide)⟩
    · intro hcondition name hname
      obtain ⟨n, hn, hle⟩ := hcondition rfl
      rw [hcount, Except.ok.injEq, Json.int.injEq, Nat.cast_inj] at hn
      by_cases hconf : name = "conformance"
      · rw [hconf, hn]
        exact hle
      · have hfloor := (hv name hname).2.2
        rw [Baseline.floor, if_neg hconf] at hfloor
        rw [receiptFloor, if_neg hconf]
        exact hfloor
  · have hempty : reported c = [] := if_neg hc
    refine ⟨.obj [], fun _ => ⟨zero, 0, Nat.zero_le _⟩, if_neg hc, ⟨Json.wf_obj.mpr ⟨.nil, nofun⟩, ?_, ?_⟩, ?_⟩
    · rw [hempty]
      rfl
    · rw [hempty]
      nofun
    · rw [hempty]
      exact ⟨fun _ h => absurd h hc, fun _ => nofun⟩

/-- The request built for a plan, as the request it reads back as. -/
theorem request_of_released {envelope capacity plan request : Json} {c : Case} {s : Session}
    (h : LinuxReadiness.Released plan) (hrequest : buildProbeRequest envelope capacity plan (.str c.name) = .ok request)
    (hnonce : request.get? "runNonce" = some (.str s.binding.nonce.text))
    (hendpoint : request.get? "endpointId" = some (.str s.binding.endpointId.text))
    (hnamespace : request.get? "namespace" = some (.str s.binding.nameSpace.text)) :
    ∃ r : Request, r.toJson = request ∧ r.operation = c ∧ r.runNonce = s.binding.nonce ∧
      r.endpointId = s.binding.endpointId ∧ r.nameSpace = s.binding.nameSpace := by
  obtain ⟨c', hc, endpointId, nameSpace, nonce, target, architecture, probes, probe, probeDigest, commandDigest, h'⟩ :=
    LinuxReadiness.buildProbeRequest_eq_ok hrequest
  obtain ⟨-, -, -, htarget, harchitecture, hprobes, hprobe, hprobeDigest, hcommandDigest, rfl⟩ := h'
  obtain rfl := Case.name_injective (Json.str.inj hc)
  obtain ⟨target', a, htarget', ha⟩ := h.architecture
  rw [htarget, Option.some.injEq] at htarget'
  rw [← htarget', harchitecture, Option.some.injEq] at ha
  obtain ⟨probes', hprobes', hdigests⟩ := h.probes
  rw [hprobes, Option.some.injEq] at hprobes'
  obtain ⟨probe', hprobe', hdigest⟩ := hdigests c
  rw [← hprobes', hprobe, Option.some.injEq] at hprobe'
  obtain ⟨d, hd⟩ := hdigest "probeDigest" (by decide)
  obtain ⟨d', hd'⟩ := hdigest "commandDigest" (by decide)
  rw [← hprobe', hprobeDigest, Option.some.injEq] at hd
  rw [← hprobe', hcommandDigest, Option.some.injEq] at hd'
  have hn : nonce = .str s.binding.nonce.text := Option.some.inj hnonce
  have he : endpointId = .str s.binding.endpointId.text := Option.some.inj hendpoint
  have hs : nameSpace = .str s.binding.nameSpace.text := Option.some.inj hnamespace
  refine ⟨⟨c, s.binding.endpointId, s.binding.nameSpace, s.binding.nonce, a, d, d'⟩, ?_, rfl, rfl, rfl, rfl⟩
  rw [ha, hd, hd', hn, he, hs]
  rfl

/-- The passing receipt, against the promises it was made from. -/
theorem accepted_passing_iff {session expectedBinding : Input} {now regressions : Json} {s : Session} {r : Request}
    {inventory : String → Baseline} {observedAt t : TimeText}
    (hsession : Session.validate session expectedBinding now = .ok s) (hrunning : s.state = .running)
    (hnonce : r.runNonce = s.binding.nonce) (hendpoint : r.endpointId = s.binding.endpointId)
    (hnamespace : r.nameSpace = s.binding.nameSpace) (hpromises : Promises regressions r.operation inventory)
    (hnow : now = .str t.text) (hwindow : s.issuedAt.instant ≤ observedAt.instant ∧ observedAt.instant ≤ t.instant) :
    (∃ accepted, validateReceipt (.data (receiptJson r inventory observedAt)) session expectedBinding (.data r.toJson)
      (.data regressions) now = .ok accepted ∧ accepted.get? "status" = some (.str "PASS")) ↔
      ∀ name ∈ reported r.operation, receiptFloor name ≤ (inventory name).testCount := by
  rw [← receipt_passing hpromises hwindow]
  obtain ⟨hread, -, -⟩ := Session.validate_eq_ok.mp hsession
  obtain ⟨-, hbinding⟩ := Session.read_eq_ok hread
  have hcurrent : Session.validate (.data s.toJson) expectedBinding now = .ok s :=
    Session.validate_eq_ok.mpr ⟨s.read_toJson hbinding, (Session.validate_eq_ok.mp hsession).2⟩
  have hvalidated := r.validate_toJson hcurrent hrunning hnonce hendpoint hnamespace
  have hstatus : (receiptJson r inventory observedAt).canon.get? "status" = some (.str "PASS") := by
    rw [Json.get?_canon (wf_receiptJson r inventory observedAt)]
    rfl
  constructor
  · rintro ⟨accepted, haccepted, -⟩
    obtain ⟨s', hs', r', hr', hdocument, t', ht', expected, hexpected, hreceipt⟩ := validateReceipt_eq_ok.mp haccepted
    rw [hsession, Except.ok.injEq] at hs'
    subst hs'
    rw [hvalidated, Except.ok.injEq] at hr'
    rw [dataDocument_receiptJson, Except.ok.injEq] at hdocument
    rw [hpromises.dataDocument, Except.ok.injEq] at hexpected
    rw [hnow, Json.str.injEq] at ht'
    subst hr'
    rw [hdocument, hexpected, Text.ext ht']
    exact hreceipt
  · intro hreceipt
    exact ⟨_, validateReceipt_eq_ok.mpr ⟨s, hsession, r, hvalidated, dataDocument_receiptJson r inventory observedAt, t, hnow,
      _, hpromises.dataDocument, hreceipt⟩, hstatus⟩

theorem passingReceipt_of_promises {r : Request} {regressions : Json} {inventory : String → Baseline}
    (h : Promises regressions r.operation inventory) (observedAt : TimeText) :
    passingReceipt r.toJson regressions r.operation observedAt = .ok (receiptJson r inventory observedAt) := by
  simp only [passingReceipt, bind_eq_ok, item_eq_ok, canonicalDigest_eq_ok, pure_eq_ok]
  exact ⟨_, passingOutput_of_promises h, _, rfl, _, rfl, _, rfl, _, ⟨valid_outputJson r.operation inventory, rfl⟩, rfl⟩

/-- A released plan is completed for a case exactly when the plan promises the suite's own inventory
at the receipt's floor; only the full regression reports that inventory. -/
theorem plan_completes_iff {value plan envelope capacity request now : Json} {c : Case} {session expectedBinding : Input}
    {s : Session} {observedAt t : TimeText} (hplan : validatePlan value = .ok plan) (hwf : plan.Wf)
    (hsession : Session.validate session expectedBinding now = .ok s) (hrunning : s.state = .running)
    (hrequest : buildProbeRequest envelope capacity plan (.str c.name) = .ok request)
    (hnonce : request.get? "runNonce" = some (.str s.binding.nonce.text))
    (hendpoint : request.get? "endpointId" = some (.str s.binding.endpointId.text))
    (hnamespace : request.get? "namespace" = some (.str s.binding.nameSpace.text)) (hnow : now = .str t.text)
    (hwindow : s.issuedAt.instant ≤ observedAt.instant ∧ observedAt.instant ≤ t.instant) :
    ∃ regressions receipt, expectedRegressions plan c = .ok regressions ∧
      passingReceipt request regressions c observedAt = .ok receipt ∧
      ((∃ accepted, validateReceipt (.data receipt) session expectedBinding (.data request) (.data regressions) now =
        .ok accepted ∧ accepted.get? "status" = some (.str "PASS")) ↔
      (c = .fullPredecessorRegression → ∃ n : ℕ, conformanceCount plan = .ok (.int n) ∧ 120 ≤ n)) := by
  obtain ⟨rfl, -, hreleased⟩ := LinuxReadiness.released_of_validatePlan hplan
  obtain ⟨regressions, inventory, hregressions, hpromises, hfloor⟩ := promises_of_released hwf hreleased c
  obtain ⟨r, rfl, rfl, hrnonce, hrendpoint, hrnamespace⟩ := request_of_released hreleased hrequest hnonce hendpoint hnamespace
  refine ⟨regressions, _, hregressions, passingReceipt_of_promises hpromises observedAt, ?_⟩
  rw [← hfloor]
  exact accepted_passing_iff hsession hrunning hrnonce hrendpoint hrnamespace hpromises hnow hwindow

/-! ## A plan of 83 tests and a plan of 120 -/

namespace Sample
open LinuxReadiness (planSchema images buildFields planFields Released)

def plan (count : ℕ) : Json :=
  .obj [("schemaVersion", .str planSchema),
    ("target", .obj [("os", .str "linux"), ("kernel", .str "6.8"), ("architecture", .str "amd64"),
      ("hostArchitecture", .str "amd64"), ("execution", .str "NATIVE"), ("libc", .str "glibc-2.39")]),
    ("sources", .obj (repositories.map fun name => (name, .obj [("commit", .str (String.ofList (List.replicate 40 '0'))),
      ("treeDigest", .str zero.text)]))),
    ("images", .obj (images.map fun name => (name, .str zero.text))),
    ("build", .obj (buildFields.map fun name => (name, .str zero.text))),
    ("preflightDigest", .str zero.text), ("endpointId", .str "proxy"), ("namespace", .str "baseline"),
    ("serviceAccountSubject", .str "system:serviceaccount:baseline:probe"),
    ("regressions", .obj (repositories.map fun name =>
      (name, .obj [("inventoryDigest", .str zero.text), ("testCount", .int count)]))),
    ("probes", .obj (cases.map fun name =>
      (name, .obj [("probeDigest", .str zero.text), ("commandDigest", .str zero.text)])))]

omit [Runtime] in
theorem wf_plan (count : ℕ) : (plan count).Wf := by
  have hrepositories : repositories.Nodup := by decide
  have hcases : cases.Nodup := Case.nodup_names
  refine Json.wf_obj.mpr ⟨(by decide : planFields.Nodup), ?_⟩
  simp only [List.forall_mem_cons, Json.wf_obj, Json.keys_map, List.forall_mem_map, Json.wf_str, hrepositories, hcases, true_and,
    implies_true]
  refine ⟨⟨by decide, nofun⟩, fun _ _ => ⟨(by decide : ["commit", "treeDigest"].Nodup), nofun⟩, by decide, by decide,
    fun _ _ => ⟨(by decide : ["inventoryDigest", "testCount"].Nodup), trivial, nofun⟩,
    fun _ _ => ⟨(by decide : ["probeDigest", "commandDigest"].Nodup), nofun⟩, nofun⟩

omit [Runtime] in
theorem slim_plan {count : ℕ} (hcount : count ≤ 10000000) : ∃ members, plan count = .obj members ∧ members.length = 11 ∧
    ∀ m ∈ members, Slim 2562 2 m := by
  have hzero {key : String} (hkey : Json.isPlain key = true ∧ key.length ≤ 32) : Slim 73 0 (key, .str zero.text) :=
    slim_digest hkey zero le_rfl
  have hdigests {key : String} (hkey : Json.isPlain key = true ∧ key.length ≤ 32) {names : List String}
      (hnames : ∀ name ∈ names, Json.isPlain name = true ∧ name.length ≤ 32) (hlength : names.length ≤ 5) :
      Slim 2562 2 (key, .obj (names.map fun name => (name, .str zero.text))) := by
    refine (Slim.obj hkey (fun m hm => ?_) ((List.length_map _).trans_le hlength)
      (by decide : 2 + 5 * (73 + 36) ≤ 2562) : Slim 2562 1 _).mono le_rfl (by decide)
    obtain ⟨name, hmem, rfl⟩ := List.mem_map.mp hm
    exact hzero (hnames name hmem)
  have hpairs {key : String} (hkey : Json.isPlain key = true ∧ key.length ≤ 32) {names : List String} {a b : String × Json}
      (hnames : ∀ name ∈ names, Json.isPlain name = true ∧ name.length ≤ 32) (hlength : names.length ≤ 10)
      (ha : Slim 73 0 a) (hb : Slim 73 0 b) : Slim 2562 2 (key, .obj (names.map fun name => (name, .obj [a, b]))) := by
    refine .obj hkey (fun m hm => ?_) ((List.length_map _).trans_le hlength) (by decide : 2 + 10 * (220 + 36) ≤ 2562)
    obtain ⟨name, hmem, rfl⟩ := List.mem_map.mp hm
    exact .obj (hnames name hmem) (by simpa using ⟨ha, hb⟩) (le_refl 2) (by decide : 2 + 2 * (73 + 36) ≤ 220)
  have htext {key : String} {chars : List Char} (hkey : Json.isPlain key = true ∧ key.length ≤ 32)
      (htext : chars.all Json.isPlainChar = true) (hlength : chars.length + 2 ≤ 130) :
      Slim 2562 2 (key, .str (String.ofList chars)) :=
    (Slim.literal hkey htext hlength).mono (by decide) (by decide)
  have htarget : Slim 2562 2 ("target", .obj [("os", .str "linux"), ("kernel", .str "6.8"), ("architecture", .str "amd64"),
      ("hostArchitecture", .str "amd64"), ("execution", .str "NATIVE"), ("libc", .str "glibc-2.39")]) := by
    refine (Slim.obj (Json.shortKey rfl) ?_ (le_refl 6) (by decide : 2 + 6 * (20 + 36) ≤ 2562) : Slim 2562 1 _).mono le_rfl (by decide)
    simp only [List.forall_mem_cons]
    exact ⟨.literal (Json.shortKey rfl) rfl (by decide), .literal (Json.shortKey rfl) rfl (by decide),
      .literal (Json.shortKey rfl) rfl (by decide), .literal (Json.shortKey rfl) rfl (by decide),
      .literal (Json.shortKey rfl) rfl (by decide), .literal (Json.shortKey rfl) rfl (by decide), nofun⟩
  refine ⟨_, rfl, rfl, ?_⟩
  simp only [List.forall_mem_cons]
  exact ⟨htext (Json.shortKey rfl) rfl (by decide), htarget,
    hpairs (Json.shortKey rfl) (by decide) (by decide) (.literal (Json.shortKey rfl) rfl (by decide)) (hzero (Json.shortKey rfl)),
    hdigests (Json.shortKey rfl) (by decide) (by decide), hdigests (Json.shortKey rfl) (by decide) (by decide),
    (hzero (Json.shortKey rfl)).mono (by decide) (by decide), htext (Json.shortKey rfl) rfl (by decide),
    htext (Json.shortKey rfl) rfl (by decide), htext (Json.shortKey rfl) rfl (by decide),
    hpairs (Json.shortKey rfl) (by decide) (by decide) (hzero (Json.shortKey rfl)) ((slim_count (Json.shortKey rfl) hcount).mono (by decide) le_rfl),
    hpairs (Json.shortKey rfl) (by decide) (by decide) (hzero (Json.shortKey rfl)) (hzero (Json.shortKey rfl)), nofun⟩

omit [Runtime] in
theorem digestMap_zero (names : List String) (fields : List String) (h : names = fields) :
    LinuxReadiness.digestMap (.obj (names.map fun name => (name, .str zero.text))) fields = .ok () := by
  subst h
  simp only [LinuxReadiness.digestMap, bind_eq_ok, LinuxReadiness.obj_eq_ok, Json.obj.injEq]
  refine ⟨_, ⟨rfl, fun k => by rw [Json.keys_map]⟩, forM_eq_ok.mpr (List.forall_mem_map.mpr fun name _ => ?_)⟩
  simp only [bind_eq_ok, requireDigest_eq_ok]
  exact ⟨zero, rfl, rfl⟩

theorem validatePlan_plan {count : ℕ} (hfloor : 83 ≤ count) (hcount : count ≤ 10000000) :
    validatePlan (plan count) = .ok (plan count) := by
  have hvalid : Valid (plan count) := by
    obtain ⟨members, hplan, hlength, hslim⟩ := slim_plan hcount
    rw [hplan]
    exact validAt_slim hslim (hlength.trans_le (by decide)) (by decide) (by decide)
  have hsources : LinuxReadiness.sources (.obj (repositories.map fun name => (name, .obj
      [("commit", .str (String.ofList (List.replicate 40 '0'))), ("treeDigest", .str zero.text)]))) = .ok () := by
    decide +kernel
  have htarget : LinuxReadiness.target (.obj [("os", .str "linux"), ("kernel", .str "6.8"), ("architecture", .str "amd64"),
      ("hostArchitecture", .str "amd64"), ("execution", .str "NATIVE"), ("libc", .str "glibc-2.39")]) = .ok () := by
    decide +kernel
  have hfloors : ∀ name ∈ repositories, Baseline.floor name ≤ count := by
    intro name _
    unfold Baseline.floor
    split <;> omega
  simp only [validatePlan, LinuxReadiness.malformedBoundary_eq_ok, bind_eq_ok, item_eq_ok, LinuxReadiness.obj_eq_ok,
    LinuxReadiness.require_eq_ok, requireDigest_eq_ok, requireId_eq_ok, LinuxReadiness.text_eq_ok, pure_eq_ok,
    canonicalBytes_eq_ok]
  refine ⟨_, ⟨hvalid, rfl⟩, _, ⟨rfl, fun _ => Iff.rfl⟩, _, rfl, (), rfl, _, rfl, (), htarget, _, rfl, (), hsources, ?_⟩
  refine ⟨_, rfl, (), digestMap_zero _ _ rfl, _, rfl, (), digestMap_zero _ _ rfl, _, rfl, zero, rfl, ?_⟩
  refine ⟨_, rfl, ⟨"proxy", by decide⟩, rfl, _, rfl, ⟨"baseline", by decide⟩, rfl, _, rfl,
    ⟨"system:serviceaccount:baseline:probe", by decide⟩, rfl, ?_⟩
  refine ⟨_, rfl, _, ⟨rfl, fun k => by rw [Json.keys_map]⟩, (), forM_eq_ok.mpr (List.forall_mem_map.mpr fun name hname => ?_), ?_⟩
  · refine LinuxReadiness.baseline_eq_ok.mpr ⟨⟨zero, count, hcount⟩, ⟨?_, rfl, rfl⟩, hfloors name hname⟩
    exact closed_eq_ok.mpr ⟨_, rfl, fun _ => Iff.rfl⟩
  · refine ⟨_, rfl, _, ⟨rfl, fun k => by rw [Json.keys_map]⟩, (), forM_eq_ok.mpr (List.forall_mem_map.mpr fun name _ => ?_), trivial⟩
    exact digestMap_zero ["probeDigest", "commandDigest"] _ rfl

def session : Session := ⟨binding, binding.notBefore, binding.notAfter, .running, le_rfl, binding.window, le_rfl⟩

def instant : TimeText := ⟨"2026-01-01T00:30:00Z", by decide⟩

def request (c : Case) : Request := ⟨c, binding.endpointId, binding.nameSpace, binding.nonce, .amd64, zero, zero⟩

def rule : Json := LinuxReadiness.proxyRule (.str "proxy") (.str "baseline") (.int 8443)

def envelope : Json :=
  .obj [("nonce", .str "nonce-1"), ("endpoints", .arr [.obj [("endpointId", .str "proxy"), ("kind", .str "CAMPAIGN_PROXY"),
    ("port", .int 8443), ("authorizationPolicyDigest",
      .str (byteDigest (domainPrefix (some "planeon.linux-proxy-policy/v1alpha1") ++ canonicalText rule)).text)]])]

def capacity : Json :=
  .obj [("namespace", .str "baseline"), ("permittedEndpointIds", .arr [.str "proxy"]), ("campaignProxyRules", .arr [rule])]

theorem validate_session : Session.validate (.data session.toJson) (.data binding.toJson) (.str instant.text) = .ok session :=
  Session.validate_eq_ok.mpr ⟨session.read_toJson binding.validate_toJson, by decide, instant, rfl, by decide, by decide⟩

omit [Runtime] in
theorem slim_rule : ∃ members, rule = .obj members ∧ members.length = 12 ∧ ∀ m ∈ members, Slim 1000 1 m := by
  have htext {key : String} {chars : List Char} (hkey : Json.isPlain key = true ∧ key.length ≤ 32)
      (htext : chars.all Json.isPlainChar = true) (hlength : chars.length + 2 ≤ 40) :
      Slim 1000 1 (key, .str (String.ofList chars)) :=
    (Slim.literal hkey htext hlength).mono (by decide) (by decide)
  have hcount {key : String} (hkey : Json.isPlain key = true ∧ key.length ≤ 32) {n : ℕ} (hn : n ≤ 10000000) :
      Slim 1000 1 (key, .int n) :=
    (slim_count hkey hn).mono (by decide) (by decide)
  have hmethods : Slim 1000 1 ("methods", .arr [.str "POST"]) :=
    .arr (Json.shortKey rfl) (List.forall_mem_singleton.mpr ⟨(by decide : Json.isPlain "POST" = true), (by decide : _ ≤ 6), (by decide : _ ≤ 0)⟩) (le_refl 1)
      (by decide)
  have hpaths : Slim 1000 1 ("paths", .arr (Case.all.map fun c => .str c.path)) := by
    refine .arr (Json.shortKey rfl) (List.forall_mem_map.mpr fun c _ => ?_) (by decide : _ ≤ 10)
      (by decide : 2 + 10 * (66 + 1) ≤ 1000)
    have hshort := c.path_short
    refine ⟨hshort.1, ?_, le_rfl⟩
    rw [Json.width, Json.textWidth_plain hshort.1]
    omega
  refine ⟨_, rfl, rfl, ?_⟩
  simp only [List.forall_mem_cons]
  exact ⟨htext (Json.shortKey rfl) rfl (by decide), htext (Json.shortKey rfl) rfl (by decide),
    htext (Json.shortKey rfl) rfl (by decide), hcount (Json.shortKey rfl) (by decide : 8443 ≤ 10000000),
    htext (Json.shortKey rfl) rfl (by decide), hmethods, hpaths, htext (Json.shortKey rfl) rfl (by decide),
    htext (Json.shortKey rfl) rfl (by decide), hcount (Json.shortKey rfl) (by decide : 16384 ≤ 10000000),
    hcount (Json.shortKey rfl) (by decide : 4194304 ≤ 10000000), hcount (Json.shortKey rfl) (by decide : 900 ≤ 10000000), List.forall_mem_nil _⟩

theorem valid_rule : Valid rule := by
  obtain ⟨members, hrule, hlength, hslim⟩ := slim_rule
  rw [hrule]
  exact validAt_slim hslim (hlength.trans_le (by decide)) (by decide) (by decide)

theorem buildProbeRequest_plan (c : Case) (count : ℕ) :
    buildProbeRequest envelope capacity (plan count) (.str c.name) = .ok (request c).toJson := by
  have hprobe : (Json.obj (cases.map fun name => (name, Json.obj [("probeDigest", .str zero.text),
      ("commandDigest", .str zero.text)]))).get? c.name =
      some (.obj [("probeDigest", .str zero.text), ("commandDigest", .str zero.text)]) := by
    cases c <;> rfl
  have hendpoints : LinuxReadiness.endpointsNamed envelope (.str "proxy") = .ok [.obj [("endpointId", .str "proxy"),
      ("kind", .str "CAMPAIGN_PROXY"), ("port", .int 8443), ("authorizationPolicyDigest",
      .str (byteDigest (domainPrefix (some "planeon.linux-proxy-policy/v1alpha1") ++ canonicalText rule)).text)]] := rfl
  have hpermitted : contains (.arr [.str "proxy"]) (.str "proxy") = .ok true := rfl
  simp only [buildProbeRequest, LinuxReadiness.malformedBoundary_eq_ok, bind_eq_ok, item_eq_ok,
    LinuxReadiness.requireCase_eq_ok, LinuxReadiness.requireSingle_eq_ok, LinuxReadiness.require_eq_ok,
    LinuxReadiness.obj_eq_ok, canonicalBytes_eq_ok, canonicalDigest_eq_ok, pure_eq_ok, exists_const]
  refine ⟨c, rfl, .str "proxy", rfl, _, hendpoints, _, rfl, _, rfl, rfl, .str "baseline", rfl, _, rfl, true, hpermitted, rfl, ?_⟩
  refine ⟨_, rfl, rfl, _, rfl, _, rfl, rule, rfl, ?_⟩
  refine ⟨_, ⟨rfl, fun _ => Iff.rfl⟩, _, ⟨valid_rule, rfl⟩, _, ⟨valid_rule, rfl⟩, rfl, _, rfl, _, ⟨valid_rule, rfl⟩, rfl, ?_⟩
  exact ⟨_, rfl, _, hprobe, _, rfl, _, rfl, _, rfl, _, rfl, _, rfl, rfl⟩

end Sample

end

open Sample

/-- An admitted plan of 83 tests, and the full regression's receipt with all of them passed is refused. -/
theorem plan_completes_83 :
    ∃ plan envelope capacity request session expectedBinding now s regressions receipt,
      @validatePlan .ascii plan = .ok plan ∧
      @Session.validate .ascii session expectedBinding now = .ok s ∧ s.state = .running ∧
      @buildProbeRequest .ascii envelope capacity plan (.str Case.fullPredecessorRegression.name) = .ok request ∧
      request.get? "runNonce" = some (.str s.binding.nonce.text) ∧
      request.get? "endpointId" = some (.str s.binding.endpointId.text) ∧
      request.get? "namespace" = some (.str s.binding.nameSpace.text) ∧
      s.issuedAt.instant ≤ instant.instant ∧ now = .str instant.text ∧
      expectedRegressions plan .fullPredecessorRegression = .ok regressions ∧
      @passingReceipt .ascii request regressions .fullPredecessorRegression instant = .ok receipt ∧
      ¬ ∃ accepted, @validateReceipt .ascii (.data receipt) session expectedBinding (.data request) (.data regressions) now =
        .ok accepted ∧ accepted.get? "status" = some (.str "PASS") := by
  let _ := Runtime.ascii
  obtain ⟨regressions, inventory, hregressions, hpromises, hfloor⟩ :=
    promises_of_released (wf_plan 83) (LinuxReadiness.released_of_validatePlan
      (validatePlan_plan (by decide) (by decide))).2.2 .fullPredecessorRegression
  have hwindow : session.issuedAt.instant ≤ instant.instant := by decide
  refine ⟨plan 83, envelope, capacity, (request .fullPredecessorRegression).toJson, .data session.toJson, .data binding.toJson,
    .str instant.text, session, regressions, receiptJson (request .fullPredecessorRegression) inventory instant,
    validatePlan_plan (by decide) (by decide), validate_session, rfl, buildProbeRequest_plan _ _, rfl, rfl, rfl, hwindow, rfl,
    hregressions, passingReceipt_of_promises (r := request .fullPredecessorRegression) hpromises _, ?_⟩
  rw [accepted_passing_iff validate_session rfl rfl rfl rfl hpromises rfl ⟨hwindow, le_rfl⟩]
  intro haccepted
  obtain ⟨n, hn, hle⟩ := hfloor.mp haccepted rfl
  have hcount : conformanceCount (plan 83) = .ok (.int (83 : ℕ)) := rfl
  rw [hcount, Except.ok.injEq, Json.int.injEq, Nat.cast_inj] at hn
  omega

/-- A plan of 170 tests is completed by its full regression. -/
theorem plan_completes_170 :
    ∃ regressions receipt, expectedRegressions (plan 170) .fullPredecessorRegression = .ok regressions ∧
      @passingReceipt .ascii (request .fullPredecessorRegression).toJson regressions .fullPredecessorRegression instant =
        .ok receipt ∧
      ∃ accepted, @validateReceipt .ascii (.data receipt) (.data session.toJson) (.data binding.toJson)
        (.data (request .fullPredecessorRegression).toJson) (.data regressions) (.str instant.text) = .ok accepted ∧
        accepted.get? "status" = some (.str "PASS") := by
  let _ := Runtime.ascii
  obtain ⟨regressions, receipt, hregressions, hreceipt, hiff⟩ :=
    @plan_completes_iff .ascii _ (plan 170) envelope capacity _ _ .fullPredecessorRegression _ _ session instant instant
      (validatePlan_plan (by decide) (by decide)) (wf_plan 170) validate_session rfl (buildProbeRequest_plan _ _) rfl rfl rfl rfl
      ⟨by decide, le_rfl⟩
  exact ⟨regressions, receipt, hregressions, hreceipt, hiff.mpr fun _ => ⟨170, rfl, by decide⟩⟩

/-- The same plan's receipt is an entry of the signed record. -/
theorem receipts_are_case_records_170 : ∃ regressions receipt accepted c status,
    @validateReceipt .ascii receipt (.data session.toJson) (.data binding.toJson)
      (.data (request .fullPredecessorRegression).toJson) regressions (.str instant.text) = .ok accepted ∧
    accepted.get? "caseId" = some (.str (Case.name c)) ∧ @LinuxReadiness.caseRecord .ascii c accepted = .ok status := by
  let _ := Runtime.ascii
  obtain ⟨regressions, inventory, -, hpromises, hfloor⟩ := promises_of_released (wf_plan 170)
    (LinuxReadiness.released_of_validatePlan (validatePlan_plan (by decide) (by decide))).2.2 .fullPredecessorRegression
  have haccepted := (accepted_passing_iff (r := request .fullPredecessorRegression) validate_session rfl rfl rfl rfl hpromises rfl
    ⟨(by decide : session.issuedAt.instant ≤ instant.instant), le_rfl⟩).mpr (hfloor.mpr fun _ => ⟨170, rfl, by decide⟩)
  obtain ⟨accepted, hok, -⟩ := haccepted
  obtain ⟨c, status, hc, -, hrecord⟩ := receipts_are_case_records.1 _ _ _ _ _ _ _ hok
  exact ⟨_, _, accepted, c, status, hok, hc, hrecord⟩

end HarnessConformance.LiveSession
