import HarnessConformance.Admission.Profile

/-! # Policy observations

`validate_messages` of `live_mutation_admission.py`: one answer of the policy observer against the
binding, the request it answers, the profile and the observation before it. -/

namespace HarnessConformance.Admission
open Lib Lib.Outcome Lib.Lines
set_option autoImplicit false

/-! ## The pinned shapes -/

/-- `^[0-9a-f]{64}$` -/
def hexPattern : Regex := .times hexDigit 64

/-- `^[0-9a-f]{8}(-[0-9a-f]{4}){3}-[0-9a-f]{12}$` -/
def bootIdPattern : Regex :=
  .chain [.times hexDigit 8, .times (.seq (.char '-') (.times hexDigit 4)) 3, .char '-', .times hexDigit 12]

/-- One or more letters, digits, dots, slashes and hyphens. -/
def apiVersionPattern : Regex := .plus (.one fun c => c.isAlpha || c.isDigit || c == '.' || c == '/' || c == '-')

/-- `^[A-Za-z][A-Za-z0-9]+$` -/
def kindPattern : Regex := .seq (.one fun c => c.isAlpha) (.plus (.one fun c => c.isAlpha || c.isDigit))

/-- `^[A-Za-z0-9._:-]+$` -/
def resourceVersionPattern : Regex :=
  .plus (.one fun c => c.isAlpha || c.isDigit || c == '.' || c == '_' || c == ':' || c == '-')

def nameShape : Shape := .text 1 63 (some namePattern)

def hexShape : Shape := .text 1 64 (some hexPattern)

def resourceVersionShape : Shape := .text 1 128 (some resourceVersionPattern)

/-- `POLICIES` -/
inductive Policy where
  | admissionPolicy
  | resourceQuota
  | limitRange
  | serviceAccount
  | rbac
  | networkPolicy
  | mutationBroker
  deriving DecidableEq

namespace Policy

def name : Policy → String
  | admissionPolicy => "admissionPolicy"
  | resourceQuota => "resourceQuota"
  | limitRange => "limitRange"
  | serviceAccount => "serviceAccount"
  | rbac => "rbac"
  | networkPolicy => "networkPolicy"
  | mutationBroker => "mutationBroker"

def all : List Policy := [admissionPolicy, resourceQuota, limitRange, serviceAccount, rbac, networkPolicy, mutationBroker]

theorem mem_all (p : Policy) : p ∈ all := by
  cases p <;> decide

/-- The kind of the reference that has to agree with the policy, for the three that have one. -/
def referenceKind : Policy → Option String
  | resourceQuota => some "ResourceQuota"
  | limitRange => some "LimitRange"
  | serviceAccount => some "ServiceAccount"
  | _ => none

end Policy

def projectionShapes : List (String × Shape) :=
  [("apiVersion", .text 1 128 (some apiVersionPattern)), ("kind", .text 1 128 (some kindPattern)), ("name", nameShape),
    ("namespace", .oneOf [nameShape, .null]), ("uid", uidShape), ("projectionDigest", digestShape)]

def projectionShape : Shape := .obj projectionShapes

def observedProjectionShape : Shape := .obj (projectionShapes ++ [("resourceVersion", resourceVersionShape)])

def pinShapes : List (String × Shape) :=
  [("admissionFenceDigest", digestShape), ("rbacClosureDigest", digestShape), ("networkEnforcementDigest", digestShape),
    ("hostPreflightDigest", digestShape)]

def scopeShapes : List (String × Shape) :=
  [("tenantId", nameShape), ("environmentId", nameShape), ("runNonce", nameShape), ("capacityNonce", nameShape),
    ("endpointId", nameShape), ("namespace", nameShape), ("serviceAccountSubject", subjectShape), ("validFrom", timeShape),
    ("expiresAt", timeShape)]

/-- The members that a request and its answer share. -/
def echoShapes : List (String × Shape) :=
  [("bindingDigest", digestShape), ("runNonce", nameShape), ("challenge", hexShape), ("sequence", .int 1 maxSafe),
    ("previousObservationDigest", digestShape)]

def observationBindingShape : Shape :=
  .obj [("schemaVersion", .const (.str "planeon.internal.policy-observation-binding/v1")), ("profileDigest", digestShape),
    ("scope", .obj scopeShapes), ("observer", .obj [("executableDigest", digestShape), ("manifestDigest", digestShape)]),
    ("namespace", .obj [("name", nameShape), ("uid", uidShape)]),
    ("projections", .obj (Policy.all.map fun p => (p.name, projectionShape))), ("enforcementPins", .obj pinShapes)]

def requestShape : Shape :=
  .obj ([("schemaVersion", .const (.str "planeon.internal.policy-observation-request/v1")),
    ("operation", .const (.str "OBSERVE_POLICY"))] ++ echoShapes)

def enforcementShape : Shape := .obj (("policyGeneration", hexShape) :: pinShapes)

def observedProjectionsShape : Shape := .obj (Policy.all.map fun p => (p.name, observedProjectionShape))

def observationShape : Shape :=
  .obj ([("schemaVersion", .const (.str "planeon.internal.policy-observation/v1"))] ++ echoShapes ++
    [("observerBootId", .text 1 36 (some bootIdPattern)), ("generation", hexShape), ("observedAt", timeShape),
      ("expiresAt", timeShape),
      ("namespace", .obj [("name", nameShape), ("uid", uidShape), ("resourceVersion", resourceVersionShape)]),
      ("projections", observedProjectionsShape), ("quota", .obj [("hard", unitsShape), ("used", unitsShape)]),
      ("enforcement", enforcementShape)])

/-! ## Printable text -/

/-- `require(all(32 <= ord(c) <= 126 for c in item), "OBSERVATION_ASCII_REQUIRED")` -/
def requireAscii (text : String) : Py Unit :=
  require "OBSERVATION_ASCII_REQUIRED" (∀ c ∈ text.toList, 32 ≤ c.toNat ∧ c.toNat ≤ 126)

mutual
/-- `ascii_fields(item)` -/
def asciiFields : Json → Py Unit
  | .str text => requireAscii text
  | .arr items => asciiItems items
  | .obj members => asciiMembers members
  | _ => pure ()
def asciiItems : List Json → Py Unit
  | [] => pure ()
  | item :: items => do
    asciiFields item
    asciiItems items
def asciiMembers : Json.Members → Py Unit
  | [] => pure ()
  | (key, item) :: members => do
    requireAscii key
    asciiFields item
    asciiMembers members
end

variable [Runtime]

/-- `_observation_shape(value, variant, maximum)`, with the shape of the variant. -/
def observationDocument (value : Input) (variant : Shape) (maximum : ℕ) : Py Json := do
  let value ← document value maximum
  asciiFields value
  shape variant value
  pure value

/-! ## The checks on a message -/

/-- The binding is that of the profile, in its scope and its namespace; the scope. -/
def requireProfileBinding (binding profile : Json) : Py Json := do
  require "profile digest" ((← item binding "profileDigest") = .str (← canonicalDigest profile none).text)
  let scope ← without (← item profile "binding") "apiEndpointId"
  require "independent profile scope" (pyEq (← item binding "scope") scope)
  let nameSpace := Json.obj [("name", ← item scope "namespace"), ("uid", ← item (← item profile "policy") "namespaceUid")]
  require "namespace binding" (pyEq (← item binding "namespace") nameSpace)
  pure scope

/-- The projection of a policy that a reference names is the one the reference describes. -/
def requirePolicyIdentity (expected : Json) (references : List Json) (kind : String) : Py Unit := do
  let kinds ← references.mapM fun r => do pure (← item r "kind", r)
  match (kinds.filter fun p => p.1 = .str kind).map Prod.snd with
  | [reference] => do
    let identity ← ["apiVersion", "kind", "namespace", "name", "uid"].mapM fun k => do pure (k, ← item reference k)
    let digest ← item reference "observedDigest"
    require "policy identity" (pyEq expected (.obj (identity ++ [("projectionDigest", digest)])))
  | _ => .error (refusal "required reference")

/-- The body of the loop over `POLICIES`. -/
def requirePolicy (binding observation profile scope : Json) (references : List Json) (policy : Policy) : Py Unit := do
  let expected ← item (← item binding "projections") policy.name
  require "policy digest" ((← item expected "projectionDigest") = (← item (← item profile "policy") (policy.name ++ "Digest")))
  let nameSpace ← item expected "namespace"
  require "foreign policy" (nameSpace = .null ∨ nameSpace = (← item scope "namespace"))
  policy.referenceKind.toList.forM (requirePolicyIdentity expected references)
  let actual ← without (← item (← item observation "projections") policy.name) "resourceVersion"
  require "observed identity or digest" (pyEq actual expected)

/-- The namespace observed is the one bound. -/
def requireNamespace (binding observation : Json) : Py Unit := do
  let observed ← item observation "namespace"
  let identity := Json.obj [("name", ← item observed "name"), ("uid", ← item observed "uid")]
  require "observed namespace" (pyEq identity (← item binding "namespace"))

/-- The members an answer repeats. -/
def echoed : List String := ["bindingDigest", "runNonce", "challenge", "sequence", "previousObservationDigest"]

/-- The answer repeats the request, and the request is for the binding and its run. -/
def requireEcho (binding request observation scope : Json) : Py Unit := do
  require "request binding" ((← item request "bindingDigest") = .str (← canonicalDigest binding none).text ∧
    (← item request "runNonce") = (← item scope "runNonce"))
  echoed.forM fun field => do
    require "response substitution" ((← item observation field) = (← item request field))

/-- What a message is to continue. -/
def requireSuccessor (request observation previous : Json) : Py Unit := do
  require "chain gap" ((← item previous "bindingDigest") = (← item request "bindingDigest") ∧
    (← item previous "runNonce") = (← item request "runNonce") ∧
    (← item request "sequence") = .int ((← intItem previous "sequence") + 1) ∧
    (← item request "previousObservationDigest") = .str (← canonicalDigest previous none).text)
  require "restart, drift or reused challenge" ((← item observation "observerBootId") = (← item previous "observerBootId") ∧
    (← item observation "generation") = (← item previous "generation") ∧
    (← item request "challenge") ≠ (← item previous "challenge"))
  require "clock rollback" ((← time (← item previous "observedAt")) ≤ (← time (← item observation "observedAt")))

/-- The branch on `previous`. -/
def requireChain (request observation : Json) : Option Input → Py Unit
  | none => do
    require "initial chain" ((← item request "sequence") = .int 1 ∧
      (← item request "previousObservationDigest") = .str zero.text)
  | some previous => do
    let _ ← observationDocument previous observationShape 65536
    match previous with
    | .data value => requireSuccessor request observation value
    | _ => .error .typeError

/-- The answer is fresh, and its window lies in that of the profile. -/
def requireWindow (observation scope now : Json) : Py Unit := do
  let start ← time (← item observation "observedAt")
  let stop ← time (← item observation "expiresAt")
  let instant ← time now
  let validFrom ← time (← item scope "validFrom")
  let expiresAt ← time (← item scope "expiresAt")
  require "stale or future" (validFrom ≤ start ∧ start ≤ instant ∧ instant < stop ∧ stop ≤ expiresAt)
  require "freshness window" (start < stop ∧ stop ≤ start + 5000000)

/-- The enforcement proof is that of the generation observed and the pins bound. -/
def requireEnforcement (binding observation : Json) : Py Unit := do
  let enforcement ← item observation "enforcement"
  let generation ← item observation "generation"
  let pins ← membersOf (← item binding "enforcementPins")
  require "enforcement proof mismatch" (pyEq enforcement (.obj (("policyGeneration", generation) :: pins)))

/-- The quota of the profile still fits under what is used. -/
def requireHeadroom (profile observation : Json) : Py Unit := do
  let quota ← membersOf (← item profile "quota")
  let observed ← item observation "quota"
  quota.forM fun (unit, requested) => do
    let hard ← intItem (← item observed "hard") unit
    let used ← intItem (← item observed "used") unit
    match requested with
    | .int n => require "actual quota headroom" (0 ≤ n ∧ n ≤ maxSafe ∧ used ≤ hard ∧ n ≤ hard - used)
    | _ => .error (refusal "actual quota headroom")

/-- The checks after the four documents were read. -/
def requireMessages (binding request observation profile now : Json) (previous : Option Input) : Py Unit := do
  let scope ← requireProfileBinding binding profile
  let references ← iterate (← item (← item profile "capacityEntries") "preexistingResourceRefs")
  Policy.all.forM (requirePolicy binding observation profile scope references)
  requireNamespace binding observation
  requireEcho binding request observation scope
  requireChain request observation previous
  requireWindow observation scope now
  requireEnforcement binding observation
  requireHeadroom profile observation

/-- `validate_messages(binding, request, observation, profile, now, previous)` -/
def validateMessages (binding request observation profile : Input) (now : Json) (previous : Option Input) : Py Json := do
  let binding ← observationDocument binding observationBindingShape 65536
  let request ← observationDocument request requestShape 16384
  let observation ← observationDocument observation observationShape 65536
  let profile ← validateProfile profile
  requireMessages binding request observation profile now previous
  pure observation

/-! ## Plain documents -/

section
omit [Runtime]

theorem requireAscii_plain {text : String} (h : Json.isPlain text = true) : requireAscii text = .ok () := by
  refine require_eq_ok.mpr fun c hc => ?_
  have hchar := List.all_eq_true.mp h c hc
  simp only [Json.isPlainChar, Bool.and_eq_true, decide_eq_true_eq] at hchar
  omega

theorem asciiFields_plain {v : Json} (h : v.Plain) : asciiFields v = .ok () := by
  induction v with
  | str text => exact requireAscii_plain h
  | arr items ih =>
    rw [Json.plain_arr] at h
    rw [asciiFields]
    induction items with
    | nil => rfl
    | cons v vs ihs =>
      rw [List.forall_mem_cons] at h ih
      exact bind_eq_ok.mpr ⟨(), ih.1 h.1, ihs ih.2 h.2⟩
  | obj members ih =>
    rw [Json.plain_obj] at h
    rw [asciiFields]
    induction members with
    | nil => rfl
    | cons m ms ihs =>
      obtain ⟨k, v⟩ := m
      rw [List.forall_mem_cons] at h ih
      rw [asciiMembers, bind_eq_ok]
      exact ⟨(), requireAscii_plain h.1.1, bind_eq_ok.mpr ⟨(), ih.1 h.1.2, ihs ih.2 h.2⟩⟩
  | _ => rfl

end

/-- Plain data of a shape, within the bounds of a document. -/
structure Message (variant : Shape) (maximum : ℕ) (v : Json) : Prop where
  wf : v.Wf
  plain : v.Plain
  valid : Valid v
  height : v.height ≤ 16
  width : v.width ≤ maximum
  accepts : variant.Accepts v

theorem Message.of_slim {variant : Shape} {members : Json.Members} {maximum wide high : ℕ} (hwf : (Json.obj members).Wf)
    (h : ∀ m ∈ members, Slim wide high m)
    (hsize : high < 16 ∧ members.length ≤ maxCollectionItems ∧ wide ≤ maxCollectionItems ∧
      2 + members.length * (wide + 36) ≤ maximum) (haccepts : variant.Accepts (.obj members)) :
    Message variant maximum (.obj members) := by
  obtain ⟨hhigh, hcount, hwide, hfits⟩ := hsize
  have hvalid : Valid (.obj members) := validAt_slim h hcount hwide (Nat.le_trans hhigh (by decide))
  exact ⟨hwf, plain_slim h, hvalid, (height_slim h).trans hhigh, (width_slim h).trans hfits, haccepts⟩

theorem Message.canon {variant : Shape} {maximum : ℕ} {v : Json} (h : Message variant maximum v) :
    Message variant maximum v.canon where
  wf := h.wf.canon
  plain := Json.plain_canon.mpr h.plain
  valid := validAt_canon.mpr h.valid
  height := (Json.height_canon v).trans_le h.height
  width := (Json.width_canon v).trans_le h.width
  accepts := Shape.accepts_canon.mpr h.accepts

/-- A message is accepted and comes back with its members sorted. -/
theorem Message.document {variant : Shape} {maximum : ℕ} {v : Json} (h : Message variant maximum v) (hpinned : Pinned variant)
    (hmaximum : maximum ≤ maxFileBytes) : observationDocument (.data v) variant maximum = .ok v.canon := by
  have hdocument := document_of_width hmaximum h.wf h.valid h.height h.width
  simp only [observationDocument, bind_eq_ok, pure_eq_ok]
  refine ⟨_, hdocument, (), asciiFields_plain h.canon.plain, (), ?_, rfl⟩
  exact (shape_eq_ok hpinned ⟨h.canon.wf, h.canon.valid⟩).mpr h.canon.accepts

/-! ## Textual members -/

section
omit [Runtime]

theorem textual_text {low high : ℕ} {pattern : Option Regex} {v : Json} (h : (Shape.text low high pattern).Accepts v) :
    isTextual v = true := by
  obtain ⟨t, rfl, -⟩ := h
  rfl

theorem textual_obj {properties : List (String × Shape)} (hall : ∀ p ∈ properties, ∀ v, p.2.Accepts v → isTextual v = true)
    {v : Json} (h : (Shape.obj properties).Accepts v) : isTextual v = true := by
  obtain ⟨members, rfl, -, hmembers⟩ := h
  rw [isTextual, areTextualMembers_iff]
  intro m hm
  obtain ⟨s, hs, haccepts⟩ := Shape.acceptsAt_iff.mp (hmembers m hm)
  exact hall _ (Shape.mem_of_lookup hs) _ haccepts

theorem textual_projection {v : Json} (h : projectionShape.Accepts v) : isTextual v = true := by
  refine textual_obj (fun p hp v hv => ?_) h
  simp only [projectionShapes, List.mem_cons, List.not_mem_nil, or_false] at hp
  obtain rfl | rfl | rfl | rfl | rfl | rfl := hp
  case inr.inr.inr.inl =>
    obtain ⟨s, hs, haccepts⟩ := hv.exists
    obtain rfl | rfl : s = nameShape ∨ s = .null := by simpa using hs
    · exact textual_text haccepts
    · obtain rfl : v = .null := haccepts
      rfl
  all_goals exact textual_text hv

theorem textual_enforcement {v : Json} (h : enforcementShape.Accepts v) : isTextual v = true := by
  refine textual_obj (fun p hp v hv => ?_) h
  simp only [pinShapes, List.mem_cons, List.not_mem_nil, or_false] at hp
  obtain rfl | rfl | rfl | rfl | rfl := hp <;> exact textual_text hv

end

/-! ## What an accepted answer says -/

/-- The instant a member names. -/
def momentOf (v : Json) (k : String) : Option Instant :=
  match v.get? k with
  | some w => (time w).toOption
  | none => none

/-- The identity and the digest of a projection, without the version at which it was read. -/
def projectionOf (observation : Json) (policy : Policy) : Option Json :=
  match (observation.get? "projections").bind fun projections => projections.get? policy.name with
  | some (.obj members) => some (.obj (members.filter fun m => m.1 ≠ "resourceVersion"))
  | _ => none

/-- The answer was taken at `now` inside its own window, which lies inside that of the profile. -/
def InWindow (profile observation now : Json) : Prop :=
  ∃ scope validFrom start instant stop expiresAt, profile.get? "binding" = some scope ∧
    momentOf scope "validFrom" = some validFrom ∧ momentOf observation "observedAt" = some start ∧ time now = .ok instant ∧
    momentOf observation "expiresAt" = some stop ∧ momentOf scope "expiresAt" = some expiresAt ∧
    validFrom ≤ start ∧ start ≤ instant ∧ instant < stop ∧ stop ≤ expiresAt ∧ stop ≤ start + 5000000

/-- The answer after another one of the same run. -/
structure Successor (previous observation : Json) : Prop where
  sequence : ∃ n, previous.get? "sequence" = some (.int n) ∧ observation.get? "sequence" = some (.int (n + 1))
  digest : observation.get? "previousObservationDigest" = some (.str (digestOf previous).text)
  runNonce : observation.get? "runNonce" = previous.get? "runNonce"
  observerBootId : observation.get? "observerBootId" = previous.get? "observerBootId"
  generation : observation.get? "generation" = previous.get? "generation"
  challenge : observation.get? "challenge" ≠ previous.get? "challenge"
  clock : ∃ t t', momentOf previous "observedAt" = some t ∧ momentOf observation "observedAt" = some t' ∧ t ≤ t'

/-- A unit of the quota observed, on the side of what is allowed or of what is used. -/
def limitOf (observation : Json) (side : String) (q : Quantity) : Option ℤ :=
  match ((observation.get? "quota").bind fun quota => quota.get? side).bind fun units => units.get? q.name with
  | some (.int n) => some n
  | _ => none

/-- Room for the quota of a unit over what is used already. -/
def Headroom (profile observation : Json) (q : Quantity) : Prop :=
  ∃ quota used hard, quotaOf profile q = some quota ∧ limitOf observation "used" q = some used ∧
    limitOf observation "hard" q = some hard ∧ 0 ≤ used ∧ used + quota ≤ hard ∧ hard ≤ maxSafe

/-- An answer that was accepted. -/
structure Answer (binding profile now : Json) (previous : Option Json) (observation : Json) : Prop where
  canonical : Canonical observation
  shape : observationShape.Accepts observation
  bindingDigest : observation.get? "bindingDigest" = some (.str (digestOf binding).text)
  projection : ∀ policy : Policy, ∃ projections expected, binding.get? "projections" = some projections ∧
    projections.get? policy.name = some expected ∧ projectionOf observation policy = some expected
  enforcement : ∃ generation pins, observation.get? "generation" = some generation ∧
    binding.get? "enforcementPins" = some (.obj pins) ∧
    observation.get? "enforcement" = some (Json.obj (("policyGeneration", generation) :: pins)).canon
  initial : previous = none → observation.get? "sequence" = some (.int 1) ∧
    observation.get? "previousObservationDigest" = some (.str zero.text)
  successor : ∀ p, previous = some p → Successor p observation
  window : InWindow profile observation now
  headroom : ∀ q, Headroom profile observation q

/-! ## From the checks to the answer -/

theorem pinned_observationBinding : Pinned observationBindingShape := pinned_of_flat (by decide +kernel)

theorem pinned_request : Pinned requestShape := pinned_of_flat (by decide +kernel)

theorem pinned_observation : Pinned observationShape := pinned_of_flat (by decide +kernel)

theorem of_observationDocument {value : Input} {variant : Shape} {maximum : ℕ} {v : Json} (hpinned : Pinned variant)
    (h : observationDocument value variant maximum = .ok v) : document value maximum = .ok v ∧ Canonical v ∧ variant.Accepts v := by
  simp only [observationDocument, bind_eq_ok, pure_eq_ok] at h
  obtain ⟨w, hw, _, -, _, hshape, rfl⟩ := h
  have hcanonical := document_canonical hw
  exact ⟨hw, hcanonical, (shape_eq_ok hpinned ⟨hcanonical.wf, hcanonical.valid⟩).mp hshape⟩

omit [Runtime] in
theorem momentOf_eq_some {v : Json} {k : String} {t : Instant} :
    momentOf v k = some t ↔ ∃ w, v.get? k = some w ∧ time w = .ok t := by
  unfold momentOf
  cases v.get? k with
  | none => simp
  | some w => cases h : time w <;> simp [Except.toOption, h]

theorem of_requireProfileBinding {binding profile scope : Json} (h : requireProfileBinding binding profile = .ok scope) :
    ∃ members, profile.get? "binding" = some (.obj members) ∧
      scope = .obj (members.filter fun m => m.1 ≠ "apiEndpointId") := by
  simp only [requireProfileBinding, bind_eq_ok, item_eq_ok, without_eq_ok, pure_eq_ok] at h
  obtain ⟨_, -, _, -, _, -, pb, hpb, w, ⟨members, rfl, rfl⟩, _, -, _, -, _, -, _, -, _, -, _, -, _, -, rfl⟩ := h
  exact ⟨members, hpb, rfl⟩

omit [Runtime] in
/-- A member of a canonical document is canonical. -/
theorem canonical_get? {v w : Json} {k : String} (h : v.Wf ∧ v.canon = v) (hk : v.get? k = some w) : w.Wf ∧ w.canon = w :=
  ⟨h.1.get? hk, Json.canon_get? h.1 h.2 hk⟩

omit [Runtime] in
theorem of_requirePolicy {binding observation profile scope : Json} {references : List Json} {policy : Policy}
    (hbinding : (binding.Wf ∧ binding.canon = binding) ∧ observationBindingShape.Accepts binding)
    (hobservation : observation.Wf ∧ observation.canon = observation)
    (h : requirePolicy binding observation profile scope references policy = .ok ()) :
    ∃ projections expected, binding.get? "projections" = some projections ∧ projections.get? policy.name = some expected ∧
      projectionOf observation policy = some expected := by
  simp only [requirePolicy, bind_eq_ok, item_eq_ok, without_eq_ok, require_eq_ok] at h
  obtain ⟨projections, hprojections, expected, hexpected, _, -, _, -, _, -, _, -, _, -, _, -, _, -, _, -, h⟩ := h
  obtain ⟨observed, hobserved, _, hmembers, actual, ⟨members, rfl, rfl⟩, heq⟩ := h
  have hlookup : (Policy.all.map fun p => (p.name, projectionShape)).lookup policy.name = some projectionShape := by
    cases policy <;> rfl
  obtain ⟨ps, hps, hshape⟩ := hbinding.2.get? (k := "projections") rfl
  obtain rfl := Option.some.inj (hps.symm.trans hprojections)
  obtain ⟨e, he, haccepts⟩ := hshape.get? hlookup
  obtain rfl := Option.some.inj (he.symm.trans hexpected)
  obtain ⟨hewf, hecanon⟩ := canonical_get? (canonical_get? hbinding.1 hprojections) hexpected
  obtain ⟨hmwf, hmcanon⟩ := canonical_get? (canonical_get? hobservation hobserved) hmembers
  obtain ⟨hfwf, hfcanon⟩ := Json.canon_filter hmwf hmcanon fun m => m.1 ≠ "resourceVersion"
  refine ⟨ps, e, hprojections, hexpected, ?_⟩
  have hsame := canon_eq_of_pyEq (textual_projection haccepts) hfwf hewf heq
  rw [hfcanon, hecanon] at hsame
  rw [projectionOf, hobserved, Option.bind_some, hmembers, ← hsame]

theorem of_requireEcho {binding request observation scope : Json} (h : requireEcho binding request observation scope = .ok ()) :
    request.get? "bindingDigest" = some (.str (digestOf binding).text) ∧
      ∀ k ∈ echoed, observation.get? k = request.get? k := by
  simp only [requireEcho, bind_eq_ok, item_eq_ok, canonicalDigest_none, require_eq_ok] at h
  obtain ⟨digest, hdigest, _, ⟨-, rfl⟩, _, -, _, -, _, ⟨rfl, -⟩, hecho⟩ := h
  refine ⟨hdigest, fun k hk => ?_⟩
  have hfield := forM_eq_ok.mp hecho k hk
  simp only [bind_eq_ok, item_eq_ok, require_eq_ok] at hfield
  obtain ⟨v, hv, w, hw, rfl⟩ := hfield
  rw [hv, hw]

omit [Runtime] in
theorem of_requireWindow {observation scope now : Json} (h : requireWindow observation scope now = .ok ()) :
    ∃ validFrom start instant stop expiresAt,
      momentOf scope "validFrom" = some validFrom ∧ momentOf observation "observedAt" = some start ∧ time now = .ok instant ∧
      momentOf observation "expiresAt" = some stop ∧ momentOf scope "expiresAt" = some expiresAt ∧
      validFrom ≤ start ∧ start ≤ instant ∧ instant < stop ∧ stop ≤ expiresAt ∧ stop ≤ start + 5000000 := by
  simp only [requireWindow, bind_eq_ok, item_eq_ok, require_eq_ok] at h
  obtain ⟨_, hs, start, hstart, _, he, stop, hstop, instant, hinstant, h⟩ := h
  obtain ⟨_, hf, validFrom, hvalidFrom, _, hx, expiresAt, hexpiresAt, _, ⟨h1, h2, h3, h4⟩, -, h5⟩ := h
  exact ⟨validFrom, start, instant, stop, expiresAt, momentOf_eq_some.mpr ⟨_, hf, hvalidFrom⟩, momentOf_eq_some.mpr ⟨_, hs, hstart⟩,
    hinstant, momentOf_eq_some.mpr ⟨_, he, hstop⟩, momentOf_eq_some.mpr ⟨_, hx, hexpiresAt⟩, h1, h2, h3, h4, h5⟩

theorem of_requireSuccessor {request observation previous : Json} (hecho : ∀ k ∈ echoed, observation.get? k = request.get? k)
    (h : requireSuccessor request observation previous = .ok ()) : Successor previous observation := by
  simp only [requireSuccessor, bind_eq_ok, item_eq_ok, intItem_eq_ok, canonicalDigest_none, require_eq_ok] at h
  obtain ⟨_, hpb, _, hrb, pn, hpn, rn, hrn, _, hrs, n, hn, _, hrp, _, ⟨-, rfl⟩, _, ⟨rfl, rfl, rfl, rfl⟩, h⟩ := h
  obtain ⟨ob, hob, pb, hpb', og, hog, pg, hpg, c, hc, c', hc', _, ⟨rfl, rfl, hne⟩, h⟩ := h
  obtain ⟨_, ht, t, htime, _, ht', t', htime', hclock⟩ := h
  have field {k : String} {v : Json} (hk : k ∈ echoed) (hv : request.get? k = some v) : observation.get? k = some v :=
    (hecho k hk).trans hv
  refine ⟨⟨n, hn, field (by decide) hrs⟩, field (by decide) hrp, ?_, ?_, ?_, ?_, t, t', ?_, ?_, hclock⟩
  · rw [hpn, field (by decide) hrn]
  · rw [hob, hpb']
  · rw [hog, hpg]
  · rw [field (by decide) hc, hc']
    exact fun heq => hne (Option.some.inj heq)
  · exact momentOf_eq_some.mpr ⟨_, ht, htime⟩
  · exact momentOf_eq_some.mpr ⟨_, ht', htime'⟩

omit [Runtime] in
theorem of_requireEnforcement {binding observation : Json}
    (hbinding : (binding.Wf ∧ binding.canon = binding) ∧ observationBindingShape.Accepts binding)
    (hobservation : (observation.Wf ∧ observation.canon = observation) ∧ observationShape.Accepts observation)
    (h : requireEnforcement binding observation = .ok ()) : ∃ generation pins, observation.get? "generation" = some generation ∧
      binding.get? "enforcementPins" = some (.obj pins) ∧
      observation.get? "enforcement" = some (Json.obj (("policyGeneration", generation) :: pins)).canon := by
  simp only [requireEnforcement, bind_eq_ok, item_eq_ok, membersOf_eq_ok, require_eq_ok] at h
  obtain ⟨enforcement, henforcement, generation, hgeneration, _, hpins, pins, rfl, heq⟩ := h
  refine ⟨generation, pins, hgeneration, hpins, ?_⟩
  obtain ⟨hewf, hecanon⟩ := canonical_get? hobservation.1 henforcement
  obtain ⟨hgwf, -⟩ := canonical_get? hobservation.1 hgeneration
  obtain ⟨hpwf, -⟩ := canonical_get? hbinding.1 hpins
  obtain ⟨g, hg, hgshape⟩ := hobservation.2.get? (k := "generation") rfl
  obtain rfl := Option.some.inj (hg.symm.trans hgeneration)
  obtain ⟨ps, hps, ⟨members, rfl, hkeys, hmembers⟩⟩ := hbinding.2.get? (k := "enforcementPins") rfl
  obtain rfl : members = pins := Json.obj.inj (Option.some.inj (hps.symm.trans hpins))
  have hfresh : "policyGeneration" ∉ Json.keys members := fun hmem => absurd ((hkeys _).mp hmem) (by decide)
  have hwf : (Json.obj (("policyGeneration", g) :: members)).Wf := by
    rw [Json.wf_obj] at hpwf ⊢
    exact ⟨List.nodup_cons.mpr ⟨hfresh, hpwf.1⟩, List.forall_mem_cons.mpr ⟨hgwf, hpwf.2⟩⟩
  have hshape : enforcementShape.Accepts (.obj (("policyGeneration", g) :: members)) := by
    refine ⟨_, rfl, fun k => ?_, List.forall_mem_cons.mpr ⟨.inl ⟨rfl, hgshape⟩, fun m hm => .inr ⟨?_, hmembers m hm⟩⟩⟩
    · rw [Json.keys, List.map_cons, List.mem_cons, List.map_cons, List.mem_cons, ← Json.keys, hkeys]
    · exact fun heq => hfresh (heq ▸ List.mem_map_of_mem hm)
  have hsame := canon_eq_of_pyEq (textual_enforcement hshape) hewf hwf heq
  rw [hecanon] at hsame
  rw [henforcement, hsame]

omit [Runtime] in
theorem limitOf_eq {observation observed units : Json} {side : String} {q : Quantity} {n : ℤ}
    (hobserved : observation.get? "quota" = some observed) (hunits : observed.get? side = some units)
    (hn : units.get? q.name = some (.int n)) : limitOf observation side q = some n := by
  rw [limitOf, hobserved, Option.bind_some, hunits, Option.bind_some, hn]

omit [Runtime] in
theorem of_requireHeadroom {profile observation : Json} (hprofile : profileShape.Accepts profile)
    (hobservation : observationShape.Accepts observation) (h : requireHeadroom profile observation = .ok ()) (q : Quantity) :
    Headroom profile observation q := by
  simp only [requireHeadroom, bind_eq_ok, item_eq_ok, membersOf_eq_ok] at h
  obtain ⟨_, hquota, members, rfl, observed, hobserved, hall⟩ := h
  obtain ⟨units, hunits, hshape⟩ := hprofile.get? (k := "quota") rfl
  obtain rfl := Option.some.inj (hunits.symm.trans hquota)
  obtain ⟨n, hn, -⟩ := units_get? hshape q
  have hunit := forM_eq_ok.mp hall (q.name, .int n) (Json.lookup_mem hn)
  simp only [bind_eq_ok, item_eq_ok, intItem_eq_ok, require_eq_ok] at hunit
  obtain ⟨hard, hhard, hi, hh, used, hused, u, hu, -, -, hle, hroom⟩ := hunit
  obtain ⟨quota', hquota', hsides⟩ := hobservation.get? (k := "quota") rfl
  obtain rfl := Option.some.inj (hquota'.symm.trans hobserved)
  obtain ⟨hard', hhard', hhardShape⟩ := hsides.get? (k := "hard") rfl
  obtain rfl := Option.some.inj (hhard'.symm.trans hhard)
  obtain ⟨used', hused', husedShape⟩ := hsides.get? (k := "used") rfl
  obtain rfl := Option.some.inj (hused'.symm.trans hused)
  obtain ⟨hi', hh', -, hsafe⟩ := units_get? hhardShape q
  obtain rfl : hi = hi' := Json.int.inj (Option.some.inj (hh.symm.trans hh'))
  obtain ⟨u', hu', hpos, -⟩ := units_get? husedShape q
  obtain rfl : u = u' := Json.int.inj (Option.some.inj (hu.symm.trans hu'))
  exact ⟨n, u, hi, quotaOf_eq_some.mpr ⟨_, hquota, hn⟩, limitOf_eq hobserved hused hu, limitOf_eq hobserved hhard hh, hpos,
    by omega, hsafe⟩

/-- An accepted observation answers its request, against documents that were accepted themselves. -/
theorem answer_of_validateMessages {binding request observation profile : Input} {now : Json} {previous : Option Json} {o : Json}
    (h : validateMessages binding request observation profile now (previous.map .data) = .ok o) : ∃ b p,
    observationDocument binding observationBindingShape 65536 = .ok b ∧ validateProfile profile = .ok p ∧
      Answer b p now previous o := by
  simp only [validateMessages, bind_eq_ok, pure_eq_ok] at h
  obtain ⟨b, hb, r, hr, w, hw, p, hp, _, hchecks, rfl⟩ := h
  refine ⟨b, p, hb, hp, ?_⟩
  obtain ⟨-, hbcanonical, hbshape⟩ := of_observationDocument pinned_observationBinding hb
  obtain ⟨-, hocanonical, hoshape⟩ := of_observationDocument pinned_observation hw
  obtain ⟨-, s, hadmitted⟩ := admitted_of_validateProfile hp
  simp only [requireMessages, bind_eq_ok] at hchecks
  obtain ⟨scope, hscope, entries, -, value, -, references, -, _, hpolicies, _, -, _, hecho, h⟩ := hchecks
  obtain ⟨_, hchain, _, hwindow, _, henforcement, hheadroom⟩ := h
  have hcanonb := And.intro hbcanonical.wf hbcanonical.canon
  have hcanono := And.intro hocanonical.wf hocanonical.canon
  obtain ⟨hdigest, hfields⟩ := of_requireEcho hecho
  obtain ⟨members, hmembers, rfl⟩ := of_requireProfileBinding hscope
  have hfield {k : String} (hk : k ∈ echoed) {v : Json} (hv : r.get? k = some v) : w.get? k = some v := (hfields k hk).trans hv
  refine ⟨hocanonical, hoshape, hfield (by decide) hdigest, fun policy => ?_, ?_, ?_, ?_, ?_, fun q => ?_⟩
  · exact of_requirePolicy ⟨hcanonb, hbshape⟩ hcanono (forM_eq_ok.mp hpolicies policy policy.mem_all)
  · exact of_requireEnforcement ⟨hcanonb, hbshape⟩ ⟨hcanono, hoshape⟩ henforcement
  · rintro rfl
    simp only [Option.map_none, requireChain, bind_eq_ok, item_eq_ok, require_eq_ok] at hchain
    obtain ⟨_, hsequence, _, hprevious, rfl, rfl⟩ := hchain
    exact ⟨hfield (by decide) hsequence, hfield (by decide) hprevious⟩
  · rintro previous rfl
    simp only [Option.map_some, requireChain, bind_eq_ok] at hchain
    obtain ⟨_, -, hsuccessor⟩ := hchain
    exact of_requireSuccessor hfields hsuccessor
  · obtain ⟨validFrom, start, instant, stop, expiresAt, hfrom, hstart, hinstant, hstop, hexpires, hbounds⟩ := of_requireWindow hwindow
    have hscopeField {k : String} (hk : k ≠ "apiEndpointId") {t : Instant}
        (h : momentOf (.obj (members.filter fun m => m.1 ≠ "apiEndpointId")) k = some t) : momentOf (.obj members) k = some t := by
      rw [momentOf_eq_some, Json.get?_filter_ne hk] at h
      exact momentOf_eq_some.mpr h
    exact ⟨.obj members, validFrom, start, instant, stop, expiresAt, hmembers, hscopeField (by decide) hfrom, hstart, hinstant,
      hstop, hscopeField (by decide) hexpires, hbounds⟩
  · exact of_requireHeadroom hadmitted.shape hoshape hheadroom q

end HarnessConformance.Admission
