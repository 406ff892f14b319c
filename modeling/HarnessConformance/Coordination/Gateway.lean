import HarnessConformance.Schema

/-! # The tool gateway

`Gateway` of `tests/mas/_sim.py` without a tool overlay and without a bypass: the grants it issues, the checks
before a launch in the order of the source, and the rows of its log. -/

namespace HarnessConformance.Coordination
open Lib Lib.Lines
set_option autoImplicit false

/-! ## Configuration -/

/-- An entry of `manifest`. -/
structure ToolEntry where
  manifestDigest : String
  grantScope : String
  inputSchema : String
  credentialParams : List String
  network : Bool
  artifactPin : Bool

/-- An entry of `inputSchemas`: the type of every field, by its name. -/
structure InputSchema where
  fields : List (String × String)
  plain : ∀ field ∈ fields, ':' ∉ field.2.toList

inductive Role where
  | coordinator
  | verifier
  | worker
  deriving DecidableEq

structure GatewayConfig where
  manifest : List (String × ToolEntry)
  inputSchemas : List (String × InputSchema)
  /-- `profiles[role]["tools"]` -/
  tools : Role → List String
  grantTicks : ℤ
  coordinator : Option String
  verifiers : List String
  /-- `cfg["trustTick"]` is given. -/
  trustTick : Bool
  /-- `sim.store` -/
  store : List (String × Bytes)
  /-- `sim.pins` -/
  pins : List (String × String)

/-- `role_of(agent)` -/
def roleOf (cfg : GatewayConfig) (agent : String) : Role :=
  if some agent = cfg.coordinator then .coordinator else if agent ∈ cfg.verifiers then .verifier else .worker

/-! ## Calls -/

structure Grant where
  grantId : String
  toolId : String
  manifestDigest : String
  scope : String
  expiresAt : ℤ
  deriving DecidableEq

/-- The arguments of `call`, with `sim.trusted` at its tick. -/
structure Call where
  time : ℤ
  agent : String
  tool : String
  input : Json.Members
  grant : Option Grant
  trusted : Bool

inductive CallAnswer where
  | unknownTool
  | beforeTrust
  | notListed
  | noFetch
  | inputInvalid
  | grantReused
  | grantMismatch
  | grantExpired
  | credentialValue
  | digestMismatch
  | launched
  deriving DecidableEq

/-- A row `TOOL_CALL` of the log. -/
structure CallRow where
  call : Call
  answer : CallAnswer
  grant : Option Grant
  inputKeys : Option (List String)
  workDigest : Option String

structure Gateway where
  grants : ℕ
  used : List String
  log : List CallRow

def Gateway.start : Gateway := ⟨0, [], []⟩

/-- `type_name(value)` -/
def typeName : Json → String
  | .int _ => "integer"
  | .str _ => "string"
  | .bool _ => "bool"
  | .null => "NoneType"
  | .arr _ => "list"
  | .obj _ => "dict"

/-- `"%s:%s" % (name, type)` -/
def typedKey (name type : String) : String := name ++ ":" ++ type

def sortedKeys (keys : List String) : List String := keys.insertionSort (· ≤ ·)

/-- The inputs that are not credentials, by name and type. -/
def plainInputs (input : Json.Members) (entry : ToolEntry) : List (String × String) :=
  (input.filter fun m => m.1 ∉ entry.credentialParams).map fun m => (m.1, typeName m.2)

/-- `input_keys(inp, entry)` -/
def inputKeys (input : Json.Members) (entry : ToolEntry) : List String :=
  sortedKeys ((plainInputs input entry).map fun p => typedKey p.1 p.2)

/-- `issue(t, agent, tool, entry)` -/
def issue (cfg : GatewayConfig) (g : Gateway) (t : ℤ) (tool : String) (entry : ToolEntry) : Gateway × Grant :=
  ({ g with grants := g.grants + 1 },
    ⟨"g-" ++ toString (g.grants + 1), tool, entry.manifestDigest, entry.grantScope, t + cfg.grantTicks⟩)

/-- A credential is the reference `{param, brokerRef}`. -/
def isBrokerReference : Option Json → Bool
  | some (.obj members) => sortedKeys (Json.keys members) = ["brokerRef", "param"]
  | _ => false

/-- The digest of the stored bytes that the call names, which has to be the pin. -/
def artifactWork [Runtime] (cfg : GatewayConfig) (input : Json.Members) : Py (String × Bool) :=
  match input.lookup "name" with
  | some (.arr _) | some (.obj _) => .error .typeError
  | some (.str name) =>
    let work := Runtime.hexdigest ((cfg.store.lookup name).getD [])
    .ok (work, some work = cfg.pins.lookup name)
  | _ => .ok (Runtime.hexdigest [], false)

/-- The checks on the presented grant and the input, after the tool was found and listed: the answer, and the digest of
the artefact that is run. -/
def examine [Runtime] (cfg : GatewayConfig) (used : List String) (c : Call) (entry : ToolEntry) (grant : Grant) :
    Py (CallAnswer × Option String) :=
  match cfg.inputSchemas.lookup entry.inputSchema with
  | none => .error (.keyError entry.inputSchema)
  | some schema =>
    if inputKeys c.input entry ≠ sortedKeys (schema.fields.map fun p => typedKey p.1 p.2) then .ok (.inputInvalid, none)
    else if grant.grantId ∈ used then .ok (.grantReused, none)
    else if (grant.toolId, grant.manifestDigest, grant.scope) ≠ (c.tool, entry.manifestDigest, entry.grantScope) then
      .ok (.grantMismatch, none)
    else if grant.expiresAt ≤ c.time then .ok (.grantExpired, none)
    else if entry.credentialParams.any fun param => !isBrokerReference (c.input.lookup param) then .ok (.credentialValue, none)
    else if entry.artifactPin then
      match artifactWork cfg c.input with
      | .error e => .error e
      | .ok (work, pinned) => .ok (if pinned then .launched else .digestMismatch, some work)
    else .ok (.launched, none)

/-- The checks before a grant is looked at. -/
def listing (cfg : GatewayConfig) (c : Call) (entry : ToolEntry) : Option CallAnswer :=
  if cfg.trustTick ∧ !c.trusted then some .beforeTrust
  else if c.tool ∉ cfg.tools (roleOf cfg c.agent) then some .notListed
  else if entry.network then some .noFetch
  else none

/-- The grant that is presented: the given one, or a fresh one. -/
def present (cfg : GatewayConfig) (g : Gateway) (c : Call) (entry : ToolEntry) : Gateway × Grant :=
  match c.grant with
  | some grant => (g, grant)
  | none => issue cfg g c.time c.tool entry

/-- The call with the presented grant. -/
def settle [Runtime] (cfg : GatewayConfig) (g : Gateway) (c : Call) (entry : ToolEntry) (grant : Grant) : Gateway × Py CallRow :=
  match examine cfg g.used c entry grant with
  | .error e => (g, .error e)
  | .ok (answer, work) =>
    let row : CallRow := ⟨c, answer, some grant, some (inputKeys c.input entry), work⟩
    ({ g with used := if answer = .launched then g.used ++ [grant.grantId] else g.used, log := g.log ++ [row] }, .ok row)

/-- `call(t, agent, tool, inp, event, grant)`: the row that is logged, unless a lookup fails. -/
def call [Runtime] (cfg : GatewayConfig) (g : Gateway) (c : Call) : Gateway × Py CallRow :=
  match cfg.manifest.lookup c.tool with
  | none =>
    let row : CallRow := ⟨c, .unknownTool, none, none, none⟩
    ({ g with log := g.log ++ [row] }, .ok row)
  | some entry =>
    match listing cfg c entry with
    | some answer =>
      let row : CallRow := ⟨c, answer, none, some (inputKeys c.input entry), none⟩
      ({ g with log := g.log ++ [row] }, .ok row)
    | none =>
      let (g, grant) := present cfg g c entry
      settle cfg g c entry grant

/-- What is asked of a gateway: a grant for a tool, or a call. -/
inductive Request where
  | issue (time : ℤ) (tool : String)
  | call (c : Call)

/-- One request; `issue` fails for a tool without an entry. -/
def serve [Runtime] (cfg : GatewayConfig) (g : Gateway) : Request → Gateway
  | .issue t tool =>
    match cfg.manifest.lookup tool with
    | none => g
    | some entry => (issue cfg g t tool entry).1
  | .call c => (call cfg g c).1

def serveAll [Runtime] (cfg : GatewayConfig) (g : Gateway) (requests : List Request) : Gateway := requests.foldl (serve cfg) g

/-! ## Keys by name and type -/

/-- The name and the type before and after the last colon. -/
def splitKey (key : String) : String × String :=
  let reversed := key.toList.reverse
  (String.ofList (reversed.dropWhile (· ≠ ':')).tail.reverse, String.ofList (reversed.takeWhile (· ≠ ':')).reverse)

theorem splitKey_typedKey (name : String) {type : String} (h : ':' ∉ type.toList) : splitKey (typedKey name type) = (name, type) := by
  have hplain : ∀ c ∈ type.toList.reverse, decide (c ≠ ':') = true := by
    intro c hc
    have hmem := List.mem_reverse.mp hc
    exact decide_eq_true fun hcolon => h (hcolon ▸ hmem)
  have hreversed : (typedKey name type).toList.reverse = type.toList.reverse ++ ':' :: name.toList.reverse := by
    simp [typedKey]
  have hstop : decide (':' ≠ ':') = false := by decide
  rw [splitKey, hreversed, List.dropWhile_append_of_pos hplain, List.takeWhile_append_of_pos hplain,
    List.dropWhile_cons_of_neg (by simp), List.takeWhile_cons_of_neg (by simp)]
  simp

theorem typeName_plain (v : Json) : ':' ∉ (typeName v).toList := by
  cases v <;> simp [typeName]

theorem sortedKeys_eq_iff {keys names : List String} : sortedKeys keys = sortedKeys names ↔ keys.Perm names := by
  have hkeys := List.perm_insertionSort (· ≤ ·) keys
  have hnames := List.perm_insertionSort (· ≤ ·) names
  constructor
  · intro h
    rw [sortedKeys, sortedKeys] at h
    rw [h] at hkeys
    exact hkeys.symm.trans hnames
  · intro h
    exact (hkeys.trans (h.trans hnames.symm)).eq_of_pairwise' (List.pairwise_insertionSort _ _) (List.pairwise_insertionSort _ _)

theorem map_splitKey {fields : List (String × String)} (h : ∀ field ∈ fields, ':' ∉ field.2.toList) :
    (fields.map fun p => typedKey p.1 p.2).map splitKey = fields := by
  rw [List.map_map]
  refine (List.map_congr_left fun p hp => ?_).trans (List.map_id _)
  exact splitKey_typedKey p.1 (h p hp)

theorem perm_of_keys {fields others : List (String × String)} (hf : ∀ field ∈ fields, ':' ∉ field.2.toList)
    (ho : ∀ field ∈ others, ':' ∉ field.2.toList)
    (h : sortedKeys (fields.map fun p => typedKey p.1 p.2) = sortedKeys (others.map fun p => typedKey p.1 p.2)) :
    fields.Perm others := by
  have hperm := (sortedKeys_eq_iff.mp h).map splitKey
  rwa [map_splitKey hf, map_splitKey ho] at hperm

theorem plainInputs_plain (input : Json.Members) (entry : ToolEntry) : ∀ p ∈ plainInputs input entry, ':' ∉ p.2.toList := by
  intro p hp
  obtain ⟨m, -, rfl⟩ := List.mem_map.mp hp
  exact typeName_plain m.2

theorem isBrokerReference_iff {value : Option Json} :
    isBrokerReference value = true ↔ ∃ reference, value = some (.obj reference) ∧ (Json.keys reference).Perm ["brokerRef", "param"] := by
  have hsorted : sortedKeys ["brokerRef", "param"] = ["brokerRef", "param"] := by decide
  unfold isBrokerReference
  split
  · rename_i members
    rw [decide_eq_true_iff]
    nth_rewrite 1 [← hsorted]
    rw [sortedKeys_eq_iff]
    exact ⟨fun h => ⟨members, rfl, h⟩, fun ⟨_, heq, h⟩ => by cases heq; exact h⟩
  · rename_i hother
    constructor
    · intro h
      cases h
    · rintro ⟨reference, heq, -⟩
      exact absurd heq (hother reference)

/-! ## Launched calls -/

/-- The tool is in the caller's profile, the input is that of its schema, its credentials are references, and the grant
is for this tool as its entry has it and has not expired. -/
def LaunchOk (cfg : GatewayConfig) (c : Call) (grant : Grant) : Prop :=
  ∃ entry schema, cfg.manifest.lookup c.tool = some entry ∧ cfg.inputSchemas.lookup entry.inputSchema = some schema ∧
    c.tool ∈ cfg.tools (roleOf cfg c.agent) ∧ (plainInputs c.input entry).Perm schema.fields ∧
    (∀ param ∈ entry.credentialParams,
      ∃ reference, c.input.lookup param = some (.obj reference) ∧ (Json.keys reference).Perm ["brokerRef", "param"]) ∧
    (grant.toolId = c.tool ∧ grant.manifestDigest = entry.manifestDigest ∧ grant.scope = entry.grantScope) ∧
    c.time < grant.expiresAt

theorem listing_eq_none {cfg : GatewayConfig} {c : Call} {entry : ToolEntry} (h : listing cfg c entry = none) :
    c.tool ∈ cfg.tools (roleOf cfg c.agent) := by
  unfold listing at h
  split_ifs at h with htrust hlisted hnetwork
  exact hlisted

variable [Runtime] {cfg : GatewayConfig} {g : Gateway} {c : Call}

omit [Runtime] in
theorem launchOk_of {entry : ToolEntry} {schema : InputSchema} {grant : Grant} (hentry : cfg.manifest.lookup c.tool = some entry)
    (hlisted : c.tool ∈ cfg.tools (roleOf cfg c.agent)) (hschema : cfg.inputSchemas.lookup entry.inputSchema = some schema)
    (hkeys : inputKeys c.input entry = sortedKeys (schema.fields.map fun p => typedKey p.1 p.2))
    (hmatch : (grant.toolId, grant.manifestDigest, grant.scope) = (c.tool, entry.manifestDigest, entry.grantScope))
    (hexpires : c.time < grant.expiresAt)
    (hcredential : ∀ param ∈ entry.credentialParams, isBrokerReference (c.input.lookup param) = true) : LaunchOk cfg c grant := by
  have hinputs := perm_of_keys (plainInputs_plain c.input entry) schema.plain hkeys
  rw [Prod.mk.injEq, Prod.mk.injEq] at hmatch
  exact ⟨entry, schema, hentry, hschema, hlisted, hinputs, fun param hparam => isBrokerReference_iff.mp (hcredential param hparam),
    hmatch, hexpires⟩

theorem examine_launched {used : List String} {entry : ToolEntry} {grant : Grant} {work : Option String}
    (hentry : cfg.manifest.lookup c.tool = some entry) (hlisted : c.tool ∈ cfg.tools (roleOf cfg c.agent))
    (h : examine cfg used c entry grant = .ok (.launched, work)) : grant.grantId ∉ used ∧ LaunchOk cfg c grant := by
  unfold examine at h
  split at h
  · cases h
  rename_i schema hschema
  by_cases hkeys : inputKeys c.input entry = sortedKeys (schema.fields.map fun p => typedKey p.1 p.2)
  swap
  · rw [if_pos hkeys] at h
    cases h
  by_cases hused : grant.grantId ∈ used
  · rw [if_neg (not_not.mpr hkeys), if_pos hused] at h
    cases h
  by_cases hmatch : (grant.toolId, grant.manifestDigest, grant.scope) = (c.tool, entry.manifestDigest, entry.grantScope)
  swap
  · rw [if_neg (not_not.mpr hkeys), if_neg hused, if_pos hmatch] at h
    cases h
  rw [if_neg (not_not.mpr hkeys), if_neg hused, if_neg (not_not.mpr hmatch)] at h
  by_cases hexpired : grant.expiresAt ≤ c.time
  · rw [if_pos hexpired] at h
    cases h
  rw [if_neg hexpired] at h
  by_cases hcredential : (entry.credentialParams.any fun param => !isBrokerReference (c.input.lookup param)) = true
  · rw [if_pos hcredential] at h
    cases h
  refine ⟨hused, launchOk_of hentry hlisted hschema hkeys hmatch (not_le.mp hexpired) fun param hparam => ?_⟩
  simp only [List.any_eq_true, not_exists, not_and, Bool.not_eq_true', Bool.not_eq_false] at hcredential
  exact hcredential param hparam

/-- What a call does: the used grants stay and no launch is logged, or its own grant is used and its launch is logged. -/
inductive CallStep (cfg : GatewayConfig) (g : Gateway) (c : Call) (after : Gateway) : Prop
  | failed (hused : after.used = g.used) (hlog : after.log = g.log)
  | refused (row : CallRow) (hrow : row.answer ≠ .launched) (hused : after.used = g.used) (hlog : after.log = g.log ++ [row])
  | launched (row : CallRow) (grant : Grant) (hrow : row.answer = .launched) (hcall : row.call = c) (hgrant : row.grant = some grant)
      (hnew : grant.grantId ∉ g.used) (hok : LaunchOk cfg c grant) (hused : after.used = g.used ++ [grant.grantId])
      (hlog : after.log = g.log ++ [row])

theorem settle_step {entry : ToolEntry} {grant : Grant} (hentry : cfg.manifest.lookup c.tool = some entry)
    (hlisted : c.tool ∈ cfg.tools (roleOf cfg c.agent)) : CallStep cfg g c (settle cfg g c entry grant).1 := by
  unfold settle
  split
  · exact .failed rfl rfl
  rename_i answer work hexamine
  by_cases hanswer : answer = .launched
  · rw [hanswer] at hexamine ⊢
    obtain ⟨hnew, hok⟩ := examine_launched hentry hlisted hexamine
    refine .launched _ grant rfl rfl rfl hnew hok ?_ rfl
    dsimp only
    rw [if_pos rfl]
  · refine .refused _ hanswer ?_ rfl
    dsimp only
    rw [if_neg hanswer]

omit [Runtime] in
theorem present_eq (entry : ToolEntry) : (present cfg g c entry).1.used = g.used ∧ (present cfg g c entry).1.log = g.log := by
  unfold present
  cases c.grant with
  | none => exact ⟨rfl, rfl⟩
  | some grant => exact ⟨rfl, rfl⟩

omit [Runtime] in
theorem listing_ne_launched {entry : ToolEntry} {answer : CallAnswer} (h : listing cfg c entry = some answer) :
    answer ≠ .launched := by
  unfold listing at h
  split_ifs at h
  · cases h
    decide
  · cases h
    decide
  · cases h
    decide

theorem call_step (cfg : GatewayConfig) (g : Gateway) (c : Call) : CallStep cfg g c (call cfg g c).1 := by
  unfold call
  split
  · exact .refused ⟨c, .unknownTool, none, none, none⟩ (by simp) rfl rfl
  rename_i entry hentry
  split
  · rename_i answer hlisting
    exact .refused _ (listing_ne_launched hlisting) rfl rfl
  rename_i hlisting
  obtain ⟨hused, hlog⟩ : (present cfg g c entry).1.used = g.used ∧ (present cfg g c entry).1.log = g.log := present_eq entry
  have hstep : CallStep cfg (present cfg g c entry).1 c (settle cfg (present cfg g c entry).1 c entry (present cfg g c entry).2).1 :=
    settle_step hentry (listing_eq_none hlisting)
  cases hstep with
  | failed h h' => exact .failed (h.trans hused) (h'.trans hlog)
  | refused row hrow h h' => exact .refused row hrow (h.trans hused) (hlog ▸ h')
  | launched row grant hrow hcall hgrant hnew hok h h' =>
    exact .launched row grant hrow hcall hgrant (hused ▸ hnew) hok (hused ▸ h) (hlog ▸ h')

/-! ## Runs -/

/-- The identifier of the grant that a row used. -/
def CallRow.uses (row : CallRow) (grantId : String) : Prop := row.answer = .launched ∧ row.grant.map (·.grantId) = some grantId

/-- Every launch is one that is allowed, and has its grant for itself. -/
structure GatewayOk (cfg : GatewayConfig) (g : Gateway) : Prop where
  used : ∀ row ∈ g.log, ∀ grantId, row.uses grantId → grantId ∈ g.used
  single : g.log.Pairwise fun earlier later => ∀ grantId, earlier.uses grantId → ¬ later.uses grantId
  launches : ∀ row ∈ g.log, row.answer = .launched → ∃ grant, row.grant = some grant ∧ LaunchOk cfg row.call grant

omit [Runtime] in
theorem GatewayOk.step {after : Gateway} (h : GatewayOk cfg g) (hstep : CallStep cfg g c after) : GatewayOk cfg after := by
  cases hstep with
  | failed hused hlog => exact ⟨by rw [hused, hlog]; exact h.used, by rw [hlog]; exact h.single, by rw [hlog]; exact h.launches⟩
  | refused row hrow hused hlog =>
    refine ⟨?_, ?_, ?_⟩
    · rw [hused, hlog]
      simp only [List.mem_append, List.mem_singleton]
      rintro r (hr | rfl) grantId huses
      · exact h.used r hr grantId huses
      · exact absurd huses.1 hrow
    · rw [hlog]
      refine List.pairwise_append.mpr ⟨h.single, List.pairwise_singleton _ _, fun r _ s hs grantId _ huses => ?_⟩
      rw [List.mem_singleton.mp hs] at huses
      exact hrow huses.1
    · rw [hlog]
      simp only [List.mem_append, List.mem_singleton]
      rintro r (hr | rfl) hlaunched
      · exact h.launches r hr hlaunched
      · exact absurd hlaunched hrow
  | launched row grant hrow hcall hgrant hnew hok hused hlog =>
    have hown {grantId : String} (huses : row.uses grantId) : grantId = grant.grantId := by
      have hid := huses.2
      rw [hgrant] at hid
      exact (Option.some.inj hid).symm
    refine ⟨?_, ?_, ?_⟩
    · rw [hused, hlog]
      simp only [List.mem_append, List.mem_singleton]
      rintro r (hr | rfl) grantId huses
      · exact .inl (h.used r hr grantId huses)
      · exact .inr (hown huses)
    · rw [hlog]
      refine List.pairwise_append.mpr ⟨h.single, List.pairwise_singleton _ _, fun r hr s hs grantId hbefore huses => ?_⟩
      rw [List.mem_singleton.mp hs] at huses
      exact hnew (hown huses ▸ h.used r hr grantId hbefore)
    · rw [hlog]
      simp only [List.mem_append, List.mem_singleton]
      rintro r (hr | rfl) hlaunched
      · exact h.launches r hr hlaunched
      · exact ⟨grant, hgrant, hcall ▸ hok⟩

theorem serve_ok (h : GatewayOk cfg g) (request : Request) : GatewayOk cfg (serve cfg g request) := by
  cases request with
  | call c => exact h.step (call_step cfg g c)
  | issue t tool =>
    simp only [serve]
    split
    · exact h
    · exact ⟨h.used, h.single, h.launches⟩

theorem serveAll_ok (requests : List Request) (h : GatewayOk cfg g) : GatewayOk cfg (serveAll cfg g requests) := by
  induction requests generalizing g with
  | nil => exact h
  | cons request requests ih => exact ih (serve_ok h request)

/-- A call launches or leaves the used grants as they are. -/
theorem used_of_not_launched (cfg : GatewayConfig) (g : Gateway) (c : Call) (hrow : ∀ row, (call cfg g c).2 = .ok row → row.answer ≠ .launched) :
    (call cfg g c).1.used = g.used := by
  revert hrow
  unfold call
  split
  · exact fun _ => rfl
  split
  · exact fun _ => rfl
  rename_i entry _ _ hlisting
  dsimp only
  unfold settle
  split
  · exact fun _ => (present_eq entry).1
  · rename_i answer work hexamine
    intro hrow
    have hanswer : answer ≠ .launched := hrow _ rfl
    exact (if_neg hanswer).trans (present_eq entry).1

end HarnessConformance.Coordination
