import HarnessConformance.LinuxReadiness

/-! # Released plans

The field checks of `linux_readiness.py` and the closed shape of a released plan: its target,
sources and images, the test inventory it promises for each repository, and the digests of the
probe and the command of each case. -/

namespace HarnessConformance.LinuxReadiness
open Lib Lib.Outcome Lib.Lines
set_option autoImplicit false

def planSchema : String := "harness.planeon.ai/linux-readiness-plan/v1alpha1"
def repositories : List String := ["contracts", "control", "conformance"]

/-- `ARCHITECTURES`, as a value read. -/
inductive Architecture where
  | amd64
  | arm64
  deriving DecidableEq

namespace Architecture

def name : Architecture → String
  | amd64 => "amd64"
  | arm64 => "arm64"

def ofJson? (value : Json) : Option Architecture :=
  if value = .str "amd64" then some amd64 else if value = .str "arm64" then some arm64 else none

theorem ofJson?_eq_some {value : Json} {a : Architecture} : ofJson? value = some a ↔ value = .str a.name := by
  unfold ofJson?
  constructor
  · intro h
    split at h
    · rw [← Option.some.inj h]
      assumption
    · split at h
      · rw [← Option.some.inj h]
        assumption
      · cases h
  · rintro rfl
    cases a <;> decide

end Architecture

def images : List String := ["control", "postgres", "kubernetes"]
def buildFields : List String := ["recipeDigest", "toolchainDigest", "cacheDigest", "sbomDigest", "logDigest"]
def cases : List String := Case.all.map Case.name
def architectures : List String := [Architecture.amd64.name, Architecture.arm64.name]

def require (reason : String) (condition : Prop) [Decidable condition] : Py Unit :=
  conform reason "Linux readiness binding or mandatory case is invalid" condition

@[simp] theorem require_eq_ok {reason : String} {p : Prop} [Decidable p] {u : Unit} : require reason p = .ok u ↔ p :=
  conform_eq_ok

/-- `TypeError`, `ValueError`, `KeyError`, `AttributeError`, `OverflowError` and `RecursionError` -/
def isMalformed : PyError → Bool
  | .typeError | .valueError | .unicodeEncodeError | .keyError _ | .attributeError | .overflowError | .recursionError => true
  | _ => false

/-- `malformed_boundary` -/
def malformedBoundary {α : Type} : Py α → Py α :=
  reraise isMalformed "LINUX_INPUT_MALFORMED" "malformed Linux evidence input"

@[simp] theorem malformedBoundary_eq_ok {α : Type} {x : Py α} {a : α} : malformedBoundary x = .ok a ↔ x = .ok a :=
  reraise_eq_ok

/-! ## Fields -/

/-- `require_object(value, name)`, as the members of the dictionary. -/
def requireObject (value : Json) (name : String) : Py Json.Members :=
  match value with
  | .obj members => .ok members
  | _ => .error (.conformance "TYPE_MISMATCH" (name ++ " must be an object"))

/-- `obj(value, fields, name)` -/
def obj (value : Json) (fields : List String) (name : String) : Py Json.Members := do
  let members ← requireObject value name
  closed value fields
  pure members

theorem requireObject_eq_ok {v : Json} {name : String} {members : Json.Members} :
    requireObject v name = .ok members ↔ v = .obj members := by
  cases v <;> simp [requireObject]

theorem obj_eq_ok {v : Json} {fields : List String} {name : String} {members : Json.Members} :
    obj v fields name = .ok members ↔ v = .obj members ∧ ∀ k, k ∈ Json.keys members ↔ k ∈ fields := by
  simp only [obj, bind_eq_ok, requireObject_eq_ok, pure_eq_ok, closed_eq_ok]
  constructor
  · rintro ⟨ms, rfl, _, ⟨ns, hns, hkeys⟩, rfl⟩
    obtain rfl := Json.obj.inj hns
    exact ⟨rfl, hkeys⟩
  · rintro ⟨rfl, hkeys⟩
    exact ⟨members, rfl, (), ⟨members, rfl, hkeys⟩, rfl⟩

/-- One or more letters, digits and `-._:/`. -/
def textPattern : Regex :=
  .plus (.one fun c => c.isAlphanum || c == '.' || c == '_' || c == ':' || c == '/' || c == '-')

abbrev LinuxText (maximum : ℕ) := Text fun s => 0 < s.length && s.length ≤ maximum && textPattern.fullmatch s

/-- `text(value, name, maximum)` -/
def text (value : Json) (maximum : ℕ) : Py (LinuxText maximum) :=
  requireText (.conformance "LINUX_TEXT_INVALID" "Linux readiness binding or mandatory case is invalid") _ value

@[simp] theorem text_eq_ok {v : Json} {maximum : ℕ} {t : LinuxText maximum} : text v maximum = .ok t ↔ v = .str t.text :=
  requireText_eq_ok

/-- `integer(value, minimum)`, as the count it checked. -/
def integer (value : Json) (minimum : ℕ) : Py ℕ :=
  match value with
  | .int n => do
    require "LINUX_COUNT_INVALID" (minimum ≤ n ∧ n ≤ 10000000)
    pure n.toNat
  | _ => .error (.conformance "LINUX_COUNT_INVALID" "Linux readiness binding or mandatory case is invalid")

@[simp] theorem integer_eq_ok {v : Json} {minimum n : ℕ} :
    integer v minimum = .ok n ↔ v = .int n ∧ minimum ≤ n ∧ n ≤ 10000000 := by
  cases v with
  | int m =>
    simp only [integer, bind_eq_ok, require_eq_ok, pure_eq_ok, exists_const, Json.int.injEq]
    omega
  | _ => simp [integer]

def digestMap (value : Json) (fields : List String) : Py Unit := do
  let members ← obj value fields "digest map"
  members.forM fun (key, digest) => do
    let _ ← requireDigest digest key

/-- `[0-9a-f]{40}` -/
def commitPattern : Regex := .times hexDigit 40

def source (value : Json) : Py Unit := do
  let _ ← obj value ["commit", "treeDigest"] "source"
  let _ ← requireText (.conformance "LINUX_SOURCE_INVALID" "Linux readiness binding or mandatory case is invalid")
    commitPattern.fullmatch (← item value "commit")
  let _ ← requireDigest (← item value "treeDigest") "treeDigest"

def sources (value : Json) : Py Unit := do
  let members ← obj value repositories "sources"
  members.forM fun (_, value) => source value

def target (value : Json) : Py Unit := do
  let _ ← obj value ["os", "kernel", "architecture", "hostArchitecture", "execution", "libc"] "target"
  let architecture ← item value "architecture"
  require "LINUX_NATIVE_TARGET_REQUIRED" ((← item value "os") = .str "linux" ∧ isOneOf architecture architectures ∧
    pyEq (← item value "hostArchitecture") architecture ∧ (← item value "execution") = .str "NATIVE")
  let _ ← text (← item value "kernel") 128
  let _ ← text (← item value "libc") 128

/-! ## Plans -/

/-- One repository's inventory: at least 83 tests for the suite itself, at least one for the others. -/
def baseline (name : String) (value : Json) : Py Unit := do
  let _ ← obj value ["inventoryDigest", "testCount"] "regression"
  let _ ← requireDigest (← item value "inventoryDigest") "inventoryDigest"
  let _ ← integer (← item value "testCount") (if name = "conformance" then 83 else 1)

def planFields : List String :=
  ["schemaVersion", "target", "sources", "images", "build", "preflightDigest", "endpointId", "namespace",
    "serviceAccountSubject", "regressions", "probes"]

def validatePlan [Runtime] (value : Json) : Py Json := malformedBoundary do
  let _ ← canonicalBytes value
  let _ ← obj value planFields "Linux plan"
  require "LINUX_PLAN_SCHEMA_INVALID" ((← item value "schemaVersion") = .str planSchema)
  target (← item value "target")
  sources (← item value "sources")
  digestMap (← item value "images") images
  digestMap (← item value "build") buildFields
  let _ ← requireDigest (← item value "preflightDigest") "preflightDigest"
  let _ ← requireId (← item value "endpointId") "endpointId"
  let _ ← requireId (← item value "namespace") "namespace"
  let _ ← text (← item value "serviceAccountSubject") 256
  let regressions ← obj (← item value "regressions") repositories "regressions"
  regressions.forM fun (name, regression) => baseline name regression
  let probes ← obj (← item value "probes") cases "probes"
  probes.forM fun (_, probe) => digestMap probe ["probeDigest", "commandDigest"]
  pure value

/-! ## What a validated plan holds -/

theorem get?_of_keys {members : Json.Members} {fields : List String} (hkeys : ∀ k, k ∈ Json.keys members ↔ k ∈ fields)
    {k : String} (hk : k ∈ fields) : ∃ w, (Json.obj members).get? k = some w ∧ (k, w) ∈ members := by
  have hsome := Json.lookup_isSome.mpr ((hkeys k).mpr hk)
  obtain ⟨w, hw⟩ := Option.isSome_iff_exists.mp hsome
  exact ⟨w, hw, Json.lookup_mem hw⟩

theorem digestMap_get? {v : Json} {fields : List String} {u : Unit} (h : digestMap v fields = .ok u) {k : String}
    (hk : k ∈ fields) : ∃ d : Digest, v.get? k = some (.str d.text) := by
  simp only [digestMap, bind_eq_ok, obj_eq_ok] at h
  obtain ⟨members, ⟨rfl, hkeys⟩, hall⟩ := h
  obtain ⟨w, hget, hmem⟩ := get?_of_keys hkeys hk
  have hdigest := forM_eq_ok.mp hall _ hmem
  simp only [bind_eq_ok, requireDigest_eq_ok] at hdigest
  obtain ⟨d, rfl, -⟩ := hdigest
  exact ⟨d, hget⟩

/-- A repository's promised inventory. -/
structure Baseline where
  inventoryDigest : Digest
  testCount : ℕ
  bounded : testCount ≤ 10000000

namespace Baseline

def toJson (b : Baseline) : Json := .obj [("inventoryDigest", .str b.inventoryDigest.text), ("testCount", .int b.testCount)]

/-- The smallest inventory `validate_plan` admits for a repository. -/
def floor (name : String) : ℕ := if name = "conformance" then 83 else 1

/-- A value holds an inventory, in whatever order of members. -/
structure At (value : Json) (b : Baseline) : Prop where
  closed : closed value ["inventoryDigest", "testCount"] = .ok ()
  inventoryDigest : value.get? "inventoryDigest" = some (.str b.inventoryDigest.text)
  testCount : value.get? "testCount" = some (.int b.testCount)

end Baseline

theorem baseline_eq_ok {name : String} {v : Json} {u : Unit} :
    baseline name v = .ok u ↔ ∃ b, Baseline.At v b ∧ Baseline.floor name ≤ b.testCount := by
  simp only [baseline, bind_eq_ok, obj_eq_ok, item_eq_ok, requireDigest_eq_ok, integer_eq_ok, pure_eq_ok]
  constructor
  · rintro ⟨members, ⟨rfl, hkeys⟩, _, hdigest, digest, rfl, _, hcount, n, ⟨rfl, hfloor, hbound⟩, -⟩
    exact ⟨⟨digest, n, hbound⟩, ⟨closed_eq_ok.mpr ⟨members, rfl, hkeys⟩, hdigest, hcount⟩, hfloor⟩
  · rintro ⟨b, hb, hfloor⟩
    obtain ⟨members, rfl, hkeys⟩ := closed_eq_ok.mp hb.closed
    exact ⟨members, ⟨rfl, hkeys⟩, _, hb.inventoryDigest, b.inventoryDigest, rfl, _, hb.testCount, b.testCount,
      ⟨rfl, hfloor, b.bounded⟩, trivial⟩

/-- What readers of a validated plan find in it. -/
structure Released (plan : Json) : Prop where
  endpointId : ∃ i : Identifier, plan.get? "endpointId" = some (.str i.text)
  nameSpace : ∃ i : Identifier, plan.get? "namespace" = some (.str i.text)
  architecture : ∃ target a, plan.get? "target" = some target ∧
    target.get? "architecture" = some (.str (Architecture.name a))
  regressions : ∃ regressions, plan.get? "regressions" = some regressions ∧ closed regressions repositories = .ok () ∧
    ∀ name ∈ repositories, ∃ v b, regressions.get? name = some v ∧ Baseline.At v b ∧ Baseline.floor name ≤ b.testCount
  probes : ∃ probes, plan.get? "probes" = some probes ∧ ∀ c : Case, ∃ probe, probes.get? c.name = some probe ∧
    ∀ k ∈ ["probeDigest", "commandDigest"], ∃ d : Digest, probe.get? k = some (.str d.text)

theorem target_architecture {v : Json} {u : Unit} (h : target v = .ok u) :
    ∃ a, v.get? "architecture" = some (.str (Architecture.name a)) := by
  simp only [target, bind_eq_ok, obj_eq_ok, item_eq_ok, require_eq_ok] at h
  obtain ⟨members, ⟨rfl, -⟩, architecture, harchitecture, _, -, _, -, _, -, _, ⟨-, hname, -, -⟩, -⟩ := h
  obtain ⟨name, hmem, rfl⟩ := isOneOf_iff.mp hname
  simp only [architectures, List.mem_cons, List.not_mem_nil, or_false] at hmem
  rcases hmem with rfl | rfl
  · exact ⟨.amd64, harchitecture⟩
  · exact ⟨.arm64, harchitecture⟩

theorem released_of_validatePlan [Runtime] {value plan : Json} (h : validatePlan value = .ok plan) :
    plan = value ∧ Valid plan ∧ Released plan := by
  simp only [validatePlan, malformedBoundary_eq_ok, bind_eq_ok, item_eq_ok, obj_eq_ok, require_eq_ok, requireDigest_eq_ok,
    requireId_eq_ok, text_eq_ok, pure_eq_ok, canonicalBytes_eq_ok] at h
  obtain ⟨_, ⟨hvalid, -⟩, members, ⟨rfl, -⟩, _, -, _, -, t, htarget, _, htargetOk, _, -, _, -, _, -, _, -, _, -, _, -, h⟩ := h
  obtain ⟨_, -, _, -, _, hendpoint, endpointId, rfl, _, hnamespace, nameSpace, rfl, _, -, _, -, h⟩ := h
  obtain ⟨r, hr, regressions, ⟨rfl, hrkeys⟩, _, hbaselines, p, hp, probes, ⟨rfl, hpkeys⟩, _, hdigests, rfl⟩ := h
  obtain ⟨architecture, harchitecture⟩ := target_architecture htargetOk
  refine ⟨rfl, hvalid, ⟨_, hendpoint⟩, ⟨_, hnamespace⟩, ⟨t, architecture, htarget, harchitecture⟩,
    ⟨_, hr, closed_eq_ok.mpr ⟨regressions, rfl, hrkeys⟩, fun name hname => ?_⟩, ⟨_, hp, fun c => ?_⟩⟩
  · obtain ⟨v, hv, hmem⟩ := get?_of_keys hrkeys hname
    obtain ⟨b, hb, hfloor⟩ := baseline_eq_ok.mp (forM_eq_ok.mp hbaselines _ hmem)
    exact ⟨v, b, hv, hb, hfloor⟩
  · obtain ⟨probe, hprobe, hmem⟩ := get?_of_keys hpkeys (List.mem_map_of_mem (Case.mem_all c))
    exact ⟨probe, hprobe, fun k hk => digestMap_get? (forM_eq_ok.mp hdigests _ hmem) hk⟩

end HarnessConformance.LinuxReadiness
