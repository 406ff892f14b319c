import HarnessConformance.Admission.Profile

/-! # Least privilege

What an accepted profile grants is what its resources need: the grants of the API server, the
names of every kind and the images, each compared in both directions. -/

namespace HarnessConformance.Admission
open Lib Lib.Outcome Lib.Lines
set_option autoImplicit false

/-! ## Reading a profile -/

/-- The value at the end of a path of keys. -/
def valueAt (v : Json) (path : List String) : Option Json := path.foldlM Json.get? v

/-- The items of the list at the end of a path. -/
def itemsAt (v : Json) (path : List String) : List Json :=
  match valueAt v path with
  | some (.arr items) => items
  | _ => []

def resourcesOf (profile : Json) : List Json := itemsAt profile ["resources"]

def entryOf (profile : Json) (name : String) : List Json := itemsAt profile ["capacityEntries", name]

def nameAt (row : Json) : Option Json := valueAt row ["manifest", "metadata", "name"]

def namespaceAt (row : Json) : Option Json := valueAt row ["manifest", "metadata", "namespace"]

def kindAt (row : Json) : Option Kind := Kind.all.find? fun k => valueAt row ["manifest", "kind"] = some (.str k.name)

/-- The image of a pod's container. -/
def imageAt (row : Json) : Option Json :=
  (itemsAt row ["manifest", "spec", "containers"]).head?.bind fun container => container.get? "image"

/-- The grants of the API server that a profile lists. -/
def apiGrants (profile : Json) : List (List (Option Json)) :=
  (entryOf profile "kubernetesApiRules").map fun rule =>
    ["endpointId", "verb", "resource", "name", "namespace"].map rule.get?

/-- The grants that the resources need. -/
def apiNeeds (profile : Json) : List (List (Option Json)) :=
  (resourcesOf profile).flatMap fun row => ["create", "get", "delete"].map fun verb =>
    [valueAt profile ["binding", "apiEndpointId"], some (.str verb), (kindAt row).map fun k => .str k.plural, nameAt row,
      valueAt profile ["binding", "namespace"]]

/-- The kinds and names that a profile permits. -/
def gvkGrants (profile : Json) : List (Option Json × Option Json) :=
  (entryOf profile "permittedGvksAndVerbs").flatMap fun rule =>
    (itemsAt rule ["names"]).map fun name => (rule.get? "kind", some name)

def gvkNeeds (profile : Json) : List (Option Json × Option Json) :=
  (resourcesOf profile).map fun row => (valueAt row ["manifest", "kind"], nameAt row)

/-- The images of the pods. -/
def podImages (profile : Json) : List (Option Json) :=
  ((resourcesOf profile).filter fun row => kindAt row = some .pod).map imageAt

/-- What tells a resource from all others. -/
def identityOf (row : Json) : List (Option Json) := [valueAt row ["manifest", "kind"], namespaceAt row, nameAt row]

/-- The labels of the run. -/
def runLabels (profile : Json) : Option Json := do
  let nonce ← valueAt profile ["binding", "runNonce"]
  let tenant ← valueAt profile ["binding", "tenantId"]
  pure (.obj [("planeon.ai/run-nonce", nonce), ("planeon.ai/tenant-id", tenant)])

@[simp] theorem valueAt_nil {v : Json} : valueAt v [] = some v := rfl

@[simp] theorem valueAt_cons {v : Json} {k : String} {path : List String} :
    valueAt v (k :: path) = (v.get? k).bind fun w => valueAt w path := rfl

theorem itemsAt_eq {v : Json} {path : List String} {items : List Json} (h : valueAt v path = some (.arr items)) :
    itemsAt v path = items := by
  rw [itemsAt, h]

theorem kindOf_eq_ok {v : Json} {k : Kind} : kindOf v = .ok k ↔ v = .str k.name := by
  constructor
  · intro h
    unfold kindOf at h
    split at h
    · rename_i l hfind
      obtain rfl := Except.ok.inj h
      simpa using List.find?_some hfind
    · cases h
  · rintro rfl
    cases k <;> rfl

theorem kindAt_eq_some {row : Json} {k : Kind} : kindAt row = some k ↔ valueAt row ["manifest", "kind"] = some (.str k.name) := by
  unfold kindAt
  constructor
  · exact fun h => by simpa using List.find?_some h
  · intro h
    simp only [h]
    cases k <;> rfl

/-! ## One resource -/

variable [Runtime]

/-- What the loop has checked of a resource. -/
structure Listed (binding : Json) (ids : List (List Json)) (row : Json) (kind : Kind) (name : String) : Prop where
  ofKind : kindAt row = some kind
  named : nameAt row = some (.str name)
  scope : namespaceAt row = binding.get? "namespace"
  foreign : ∀ space, namespaceAt row = some space → [.str "v1", .str kind.name, space, .str name] ∉ ids
  labels : ∃ expected labels, expectedLabels binding = .ok expected ∧
    valueAt row ["manifest", "metadata", "labels"] = some labels ∧ pyEq labels expected = true
  digest : ∃ manifest raw, row.get? "manifest" = some manifest ∧ canonicalBytes manifest = .ok raw ∧
    row.get? "manifestDigest" = some (.str (byteDigest raw).text)
  selector : kind = .service → ∃ expected selector, expectedLabels binding = .ok expected ∧
    valueAt row ["manifest", "spec", "selector"] = some selector ∧ pyEq selector expected = true
  image : kind = .pod → ∃ image, imageAt row = some (.str image)

omit [Runtime] in
/-- The names, the grants and the images that one resource adds. -/
theorem surveyManifest_adds {s t : Survey} {kind : Kind} {row manifest labels : Json} {account : String}
    (hrow : row.get? "manifest" = some manifest) (h : surveyManifest s kind manifest labels account = .ok t) :
    (t.names = s.names ∧ t.gvk = s.gvk ∧ t.api = s.api) ∧
      (∀ i, i ∈ t.images ↔ i ∈ s.images ∨ (kind = .pod ∧ imageAt row = some (.str i))) ∧
      (kind = .service → ∃ selector, valueAt row ["manifest", "spec", "selector"] = some selector ∧
        pyEq selector labels = true) ∧ (kind = .pod → ∃ image, imageAt row = some (.str image)) := by
  cases kind with
  | pod =>
    simp only [surveyManifest, bind_eq_ok] at h
    obtain ⟨spec, hspec, _, -, _, -, value, hcontainers, container, hcontainer, quantities, -, h⟩ := h
    obtain ⟨_, -, _, -, _, -, limits, -, units, -, image, himage, h⟩ := h
    obtain rfl := pure_eq_ok.mp h
    obtain ⟨rest, rfl⟩ := firstItem_eq_ok.mp hcontainer
    have hlist : valueAt row ["manifest", "spec", "containers"] = some (.arr (container :: rest)) := by
      simp [hrow, item_eq_ok.mp hspec, item_eq_ok.mp hcontainers]
    have hat : imageAt row = some (.str image) := by
      rw [imageAt, itemsAt_eq hlist]
      exact textItem_eq_ok.mp himage
    refine ⟨⟨rfl, rfl, rfl⟩, fun i => ?_, by simp, fun _ => ⟨image, hat⟩⟩
    simp only [hat, List.mem_cons, Option.some.injEq, Json.str.injEq, true_and]
    exact or_comm.trans (or_congr_right eq_comm)
  | configMap =>
    obtain rfl := pure_eq_ok.mp h
    exact ⟨⟨rfl, rfl, rfl⟩, by simp, by simp, by simp⟩
  | service =>
    simp only [surveyManifest, bind_eq_ok, pure_eq_ok, require_eq_ok, item_eq_ok] at h
    obtain ⟨spec, hspec, selector, hselector, _, heq, rfl⟩ := h
    exact ⟨⟨rfl, rfl, rfl⟩, by simp, fun _ => ⟨selector, by simp [hrow, hspec, hselector], heq⟩, by simp⟩

theorem surveyRow_adds {binding row : Json} {account : String} {ids : List (List Json)} {s t : Survey}
    (h : surveyRow binding account ids s row = .ok t) :
    ∃ kind name endpoint, Listed binding ids row kind name ∧ (kind, name) ∉ s.names ∧
      binding.get? "apiEndpointId" = some endpoint ∧ t.names = (kind, name) :: s.names ∧
      t.gvk = (s.addRow endpoint kind name).gvk ∧ t.api = (s.addRow endpoint kind name).api ∧
      ∀ i, i ∈ t.images ↔ i ∈ s.images ∨ (kind = .pod ∧ imageAt row = some (.str i)) := by
  simp only [surveyRow, bind_eq_ok] at h
  obtain ⟨manifest, hmanifest, _, hdigest, metadata, hmetadata, value, hvalue, kind, hkind, name, hname, h⟩ := h
  obtain ⟨labels, hlabels, _, hidentity, endpoint, hendpoint, h⟩ := h
  simp only [requireManifest, bind_eq_ok, require_eq_ok, item_eq_ok] at hdigest
  obtain ⟨raw, hraw, stated, hstated, -, rfl⟩ := hdigest
  simp only [requireIdentity, bind_eq_ok, require_eq_ok, item_eq_ok] at hidentity
  obtain ⟨space, hspace, bound, hbound, found, hfound, _, ⟨hnew, rfl, heq⟩, htakeover⟩ := hidentity
  have hrow := item_eq_ok.mp hmanifest
  have hmeta := item_eq_ok.mp hmetadata
  have hscope : namespaceAt row = some space := by simp [namespaceAt, hrow, hmeta, hspace]
  have hkindAt : valueAt row ["manifest", "kind"] = some (.str kind.name) := by
    simp [hrow, item_eq_ok.mp hvalue, kindOf_eq_ok.mp hkind]
  obtain ⟨⟨hnames, hgvk, hapi⟩, himages, hselector, hpod⟩ := surveyManifest_adds hrow h
  refine ⟨kind, name, endpoint, ?_, hnew, item_eq_ok.mp hendpoint, hnames, hgvk, hapi, himages⟩
  exact
    { ofKind := kindAt_eq_some.mpr hkindAt
      named := by simp [nameAt, hrow, hmeta, textItem_eq_ok.mp hname]
      scope := hscope.trans hbound.symm
      foreign := fun other hother => by
        obtain rfl := Option.some.inj (hscope.symm.trans hother)
        exact htakeover
      labels := ⟨labels, found, hlabels, by simp [hrow, hmeta, hfound], heq⟩
      digest := ⟨manifest, raw, hrow, hraw, hstated⟩
      selector := fun hservice => by
        obtain ⟨selector, hat, hsame⟩ := hselector hservice
        exact ⟨labels, selector, hlabels, hat, hsame⟩
      image := hpod }

/-! ## All resources -/

/-- What the loop has gathered from the resources behind it. -/
structure Gathered (binding : Json) (ids : List (List Json)) (rows : List Json) (s : Survey) : Prop where
  listed : List.Forall₂ (fun row p => Listed binding ids row p.1 p.2) rows s.names.reverse
  distinct : s.names.Nodup
  gvk : ∀ k name, name ∈ s.gvk k ↔ (k, name) ∈ s.names
  api : ∀ g, g ∈ s.api ↔ ∃ p ∈ s.names, ∃ verb ∈ ["create", "get", "delete"], ∃ endpoint,
    binding.get? "apiEndpointId" = some endpoint ∧ g = (endpoint, verb, p.1.plural, p.2)
  images : ∀ i, i ∈ s.images ↔ ∃ row ∈ rows, kindAt row = some .pod ∧ imageAt row = some (.str i)

theorem Gathered.step {binding row : Json} {account : String} {ids : List (List Json)} {rows : List Json} {s t : Survey}
    (hs : Gathered binding ids rows s) (h : surveyRow binding account ids s row = .ok t) :
    Gathered binding ids (rows ++ [row]) t := by
  obtain ⟨kind, name, endpoint, hlisted, hnew, hendpoint, hnames, hgvk, hapi, himages⟩ := surveyRow_adds h
  refine ⟨?_, ?_, fun k n => ?_, fun g => ?_, fun i => ?_⟩
  · rw [hnames, List.reverse_cons]
    exact List.rel_append hs.listed (.cons hlisted .nil)
  · rw [hnames]
    exact List.nodup_cons.mpr ⟨hnew, hs.distinct⟩
  · rw [hgvk, hnames, List.mem_cons, ← hs.gvk, Survey.addRow, Prod.mk.injEq]
    by_cases hk : k = kind
    · subst hk
      simp
    · simp [hk]
  · rw [hapi, hnames, Survey.addRow, List.mem_append, hs.api, List.exists_mem_cons_iff]
    refine or_congr_left ?_
    simp only [List.mem_map, hendpoint, Option.some.injEq, exists_eq_left']
    exact exists_congr fun verb => and_congr_right fun _ => eq_comm
  · rw [himages, hs.images]
    simp only [List.mem_append, List.mem_singleton, or_and_right, exists_or, exists_eq_left, hlisted.ofKind, Option.some.injEq]

theorem gathered_of_rows {binding : Json} {account : String} {ids : List (List Json)} {rows : List Json} {s : Survey}
    (h : rows.foldlM (surveyRow binding account ids) .start = .ok s) : Gathered binding ids rows s := by
  refine foldlM_history (Gathered binding ids) ?_ (fun _ _ _ _ hs hrow => hs.step hrow) h
  exact ⟨.nil, .nil, by simp [Survey.start], by simp [Survey.start], by simp [Survey.start]⟩

omit [Runtime] in
theorem map_get?_of_mapM {v : Json} {keys : List String} {values : List Json} (h : keys.mapM (item v) = .ok values) :
    keys.map v.get? = values.map some := by
  have hall := mapM_eq_ok.mp h
  clear h
  induction hall with
  | nil => rfl
  | cons hhead _ ih => rw [List.map_cons, List.map_cons, ih, item_eq_ok.mp hhead]

omit [Runtime] in
/-- A rule under which every step adds one key: the keys are those of the rules. -/
theorem keys_of_foldlM {κ : Type} {f : List κ → Json → Py (List κ)} {key : Json → κ → Prop}
    (hf : ∀ seen rule next, f seen rule = .ok next → ∃ k, key rule k ∧ next = k :: seen) {rules : List Json} {seen : List κ}
    (h : rules.foldlM f [] = .ok seen) : List.Forall₂ key rules seen.reverse := by
  refine foldlM_history (fun rules seen => List.Forall₂ key rules seen.reverse) .nil (fun past seen rule next hpast hrule => ?_) h
  obtain ⟨k, hk, rfl⟩ := hf seen rule next hrule
  rw [List.reverse_cons]
  exact List.rel_append hpast (.cons hk .nil)

omit [Runtime] in
theorem referenceId_adds {binding reference : Json} {seen next : List (List Json)}
    (h : referenceId binding seen reference = .ok next) :
    ∃ key, (["apiVersion", "kind", "namespace", "name"].map reference.get? = key.map some) ∧ next = key :: seen := by
  simp only [referenceId, bind_eq_ok, pure_eq_ok] at h
  obtain ⟨key, hkey, -, -, -, -, -, -, rfl⟩ := h
  exact ⟨key, map_get?_of_mapM hkey, rfl⟩

/-! ## Exact grants -/

section
omit [Runtime]

theorem apiRule_adds {binding rule : Json} {seen next : List (List Json)} (h : apiRule binding seen rule = .ok next) :
    ∃ key, (["endpointId", "verb", "resource", "name"].map rule.get? = key.map some ∧
      rule.get? "namespace" = binding.get? "namespace") ∧ next = key :: seen := by
  simp only [apiRule, bind_eq_ok, pure_eq_ok, require_eq_ok, item_eq_ok] at h
  obtain ⟨key, hkey, space, hspace, bound, hbound, _, ⟨rfl, -⟩, rfl⟩ := h
  exact ⟨key, ⟨map_get?_of_mapM hkey, hspace.trans hbound.symm⟩, rfl⟩

theorem gvkRule_adds {rule : Json} {seen next : List (Kind × List Json)} (h : gvkRule seen rule = .ok next) :
    ∃ e : Kind × List Json, (rule.get? "kind" = some (.str e.1.name) ∧
      ∃ names, rule.get? "names" = some names ∧ iterate names = .ok e.2) ∧ next = e :: seen := by
  simp only [gvkRule, bind_eq_ok, pure_eq_ok, item_eq_ok] at h
  obtain ⟨value, hvalue, kind, hkind, _, -, names, hnames, items, hitems, rfl⟩ := h
  exact ⟨(kind, items), ⟨kindOf_eq_ok.mp hkind ▸ hvalue, names, hnames, hitems⟩, rfl⟩

/-- What a list of keys says of the rules it was read from. -/
theorem mem_rules_iff {κ : Type} {key : Json → κ → Prop} {rules : List Json} {seen : List κ}
    (h : List.Forall₂ key rules seen.reverse) {P : Json → Prop} {Q : κ → Prop} (hPQ : ∀ rule k, rule ∈ rules → key rule k → (P rule ↔ Q k)) :
    (∃ rule ∈ rules, P rule) ↔ ∃ k ∈ seen, Q k := by
  constructor
  · rintro ⟨rule, hrule, hP⟩
    obtain ⟨k, hk, hkey⟩ := forall₂_mem_left h hrule
    exact ⟨k, List.mem_reverse.mp hk, (hPQ rule k hrule hkey).mp hP⟩
  · rintro ⟨k, hk, hQ⟩
    obtain ⟨rule, hrule, hkey⟩ := forall₂_mem_right h (List.mem_reverse.mpr hk)
    exact ⟨rule, hrule, (hPQ rule k hrule hkey).mpr hQ⟩

theorem sameSet_iff {α : Type} [DecidableEq α] {xs ys : List α} : sameSet xs ys = true ↔ ∀ a, a ∈ xs ↔ a ∈ ys := by
  simp only [sameSet, Bool.and_eq_true, decide_eq_true_eq, List.subset_def]
  exact ⟨fun h a => ⟨fun ha => h.1 ha, fun ha => h.2 ha⟩, fun h => ⟨fun ha => (h _).mp ha, fun ha => (h _).mpr ha⟩⟩

end

/-- The parts of a profile that the loops read. -/
structure Parts (profile binding entries : Json) (rows : List Json) : Prop where
  binding : profile.get? "binding" = some binding
  entries : profile.get? "capacityEntries" = some entries
  rows : profile.get? "resources" = some (.arr rows)

variable {profile binding entries : Json} {rows : List Json} {ids : List (List Json)} {s : Survey}

omit [Runtime] in
theorem Parts.entryOf (hp : Parts profile binding entries rows) {name : String} {items : List Json}
    (h : entries.get? name = some (.arr items)) : entryOf profile name = items :=
  itemsAt_eq (by simp [hp.entries, h])

omit [Runtime] in
theorem Parts.resourcesOf (hp : Parts profile binding entries rows) : resourcesOf profile = rows :=
  itemsAt_eq (by simp [hp.rows])

omit [Runtime] in
theorem mem_apiGrants (hp : Parts profile binding entries rows) {rules : List Json} {api : List (List Json)}
    (hrules : entries.get? "kubernetesApiRules" = some (.arr rules)) (h : rules.foldlM (apiRule binding) [] = .ok api)
    (g : List (Option Json)) : g ∈ apiGrants profile ↔ ∃ key ∈ api, g = key.map some ++ [binding.get? "namespace"] := by
  rw [apiGrants, hp.entryOf hrules, List.mem_map]
  have hkeys := keys_of_foldlM (fun _ _ _ hrule => apiRule_adds hrule) h
  refine mem_rules_iff hkeys fun rule key _ hrule => ?_
  rw [← hrule.1, ← hrule.2]
  exact eq_comm

theorem mem_apiNeeds (hp : Parts profile binding entries rows) (hs : Gathered binding ids rows s)
    (hendpoint : ∃ endpoint, binding.get? "apiEndpointId" = some endpoint) (g : List (Option Json)) :
    g ∈ apiNeeds profile ↔ ∃ key ∈ s.api.map fun (endpoint, verb, resource, name) => [endpoint, .str verb, .str resource, .str name],
      g = key.map some ++ [binding.get? "namespace"] := by
  obtain ⟨endpoint, hendpoint⟩ := hendpoint
  have hapi : (∃ key ∈ s.api.map fun (endpoint, verb, resource, name) => [endpoint, .str verb, .str resource, .str name],
      g = key.map some ++ [binding.get? "namespace"]) ↔ ∃ p ∈ s.names, ∃ verb ∈ ["create", "get", "delete"],
        g = [some endpoint, some (.str verb), some (.str p.1.plural), some (.str p.2), binding.get? "namespace"] := by
    constructor
    · rintro ⟨_, hkey, rfl⟩
      obtain ⟨q, hq, rfl⟩ := List.mem_map.mp hkey
      obtain ⟨p, hp, verb, hverb, e, he, rfl⟩ := (hs.api q).mp hq
      obtain rfl := Option.some.inj (hendpoint.symm.trans he)
      exact ⟨p, hp, verb, hverb, rfl⟩
    · rintro ⟨p, hp, verb, hverb, rfl⟩
      exact ⟨_, List.mem_map_of_mem ((hs.api _).mpr ⟨p, hp, verb, hverb, endpoint, hendpoint, rfl⟩), rfl⟩
  rw [apiNeeds, hp.resourcesOf, List.mem_flatMap]
  refine (mem_rules_iff hs.listed fun row p _ hrow => ?_).trans hapi.symm
  simp only [List.mem_map, valueAt_cons, valueAt_nil, hp.binding, hendpoint, hrow.ofKind, hrow.named, Option.bind_some,
    Option.map_some, Option.bind_fun_some]
  exact exists_congr fun verb => and_congr_right fun _ => eq_comm

omit [Runtime] in
theorem mem_gvkGrants (hp : Parts profile binding entries rows) {rules : List Json} {observed : List (Kind × List Json)}
    (hrules : entries.get? "permittedGvksAndVerbs" = some (.arr rules)) (hshape : ∀ rule ∈ rules, gvkRuleShape.Accepts rule)
    (h : rules.foldlM gvkRule [] = .ok observed) (g : Option Json × Option Json) :
    g ∈ gvkGrants profile ↔ ∃ e ∈ observed, ∃ name ∈ e.2, g = (some (.str e.1.name), some name) := by
  rw [gvkGrants, hp.entryOf hrules, List.mem_flatMap]
  have hkeys := keys_of_foldlM (fun _ _ _ hrule => gvkRule_adds hrule) h
  refine mem_rules_iff hkeys fun rule e hrule hkey => ?_
  obtain ⟨hkind, names, hnames, hitems⟩ := hkey
  obtain ⟨w, hw, items, rfl, -⟩ := (hshape rule hrule).get? (k := "names") rfl
  obtain rfl := Option.some.inj (hnames.symm.trans hw)
  obtain rfl := Except.ok.inj hitems
  have hat : itemsAt rule ["names"] = e.2 := itemsAt_eq (by simp [hnames])
  rw [hat, List.mem_map, hkind]
  exact exists_congr fun name => and_congr_right fun _ => eq_comm

theorem mem_gvkNeeds (hp : Parts profile binding entries rows) (hs : Gathered binding ids rows s)
    (g : Option Json × Option Json) : g ∈ gvkNeeds profile ↔
      ∃ k, ∃ name ∈ s.gvk k, g = (some (.str k.name), some (.str name)) := by
  have hnames : (∃ k, ∃ name ∈ s.gvk k, g = (some (.str k.name), some (.str name))) ↔
      ∃ p ∈ s.names, g = (some (.str p.1.name), some (.str p.2)) := by
    simp only [hs.gvk, Prod.exists]
  rw [gvkNeeds, hp.resourcesOf, List.mem_map, hnames]
  refine mem_rules_iff hs.listed fun row p _ hrow => ?_
  rw [kindAt_eq_some.mp hrow.ofKind, hrow.named]
  exact eq_comm

theorem mem_podImages (hp : Parts profile binding entries rows) (hs : Gathered binding ids rows s) (i : Option Json) :
    i ∈ podImages profile ↔ ∃ image ∈ s.images, i = some (.str image) := by
  rw [podImages, hp.resourcesOf]
  simp only [List.mem_map, List.mem_filter, decide_eq_true_eq]
  constructor
  · rintro ⟨row, ⟨hmem, hkind⟩, rfl⟩
    obtain ⟨p, -, hrow⟩ := forall₂_mem_left hs.listed hmem
    obtain ⟨image, himage⟩ := hrow.image (Option.some.inj (hrow.ofKind.symm.trans hkind))
    exact ⟨image, (hs.images image).mpr ⟨row, hmem, hkind, himage⟩, himage⟩
  · rintro ⟨image, hmem, rfl⟩
    obtain ⟨row, hrow, hkind, himage⟩ := (hs.images image).mp hmem
    exact ⟨row, ⟨hrow, hkind⟩, himage⟩

/-! ## Identities, labels and credentials -/

theorem nodup_identities (hs : Gathered binding ids rows s) : (rows.map identityOf).Nodup := by
  have hmap : rows.map identityOf =
      s.names.reverse.map fun p => [some (.str p.1.name), binding.get? "namespace", some (.str p.2)] := by
    have hlisted := hs.listed
    generalize s.names.reverse = names at hlisted
    clear hs
    induction hlisted with
    | nil => rfl
    | cons hrow _ ih =>
      rw [List.map_cons, List.map_cons, ih, identityOf, kindAt_eq_some.mp hrow.ofKind, hrow.scope, hrow.named]
  rw [hmap]
  refine (List.nodup_reverse.mpr hs.distinct).map fun p q hpq => ?_
  simp only [List.cons.injEq, Option.some.injEq, Json.str.injEq, true_and, and_true] at hpq
  exact Prod.ext (Kind.name_injective hpq.1) hpq.2

omit [Runtime] in
theorem valueAt_canonical {v w : Json} {path : List String} (hwf : v.Wf) (hcanon : v.canon = v) (h : valueAt v path = some w) :
    w.Wf ∧ w.canon = w := by
  induction path generalizing v with
  | nil =>
    obtain rfl := Option.some.inj h
    exact ⟨hwf, hcanon⟩
  | cons k path ih =>
    rw [valueAt_cons, Option.bind_eq_some_iff] at h
    obtain ⟨u, hu, h⟩ := h
    exact ih (hwf.get? hu) (Json.canon_get? hwf hcanon hu) h

omit [Runtime] in
/-- Two texts under the names of the labels are in canonical order. -/
theorem canon_labels (nonce tenant : String) :
    let labels := Json.obj [("planeon.ai/run-nonce", .str nonce), ("planeon.ai/tenant-id", .str tenant)]
    labels.Wf ∧ labels.canon = labels := by
  have hwf : (Json.obj [("planeon.ai/run-nonce", .str nonce), ("planeon.ai/tenant-id", .str tenant)]).Wf :=
    Json.wf_obj.mpr ⟨(by decide : ["planeon.ai/run-nonce", "planeon.ai/tenant-id"].Nodup), by simp [Json.Wf]⟩
  refine ⟨hwf, (Json.canon_obj_eq_self hwf).mpr ⟨List.pairwise_pair.mpr ?_, by simp [Json.canon]⟩⟩
  exact (by decide : "planeon.ai/run-nonce" ≤ "planeon.ai/tenant-id")

omit [Runtime] in
/-- Canonical labels that equal the expected ones are the labels of the run. -/
theorem runLabels_of_pyEq (hp : Parts profile binding entries rows) (hshape : bindingShape.Accepts binding) {expected labels : Json}
    (hexpected : expectedLabels binding = .ok expected) (hcanonical : labels.Wf ∧ labels.canon = labels)
    (h : pyEq labels expected = true) : runLabels profile = some labels := by
  obtain ⟨_, hnonce, nonce, rfl, -⟩ := hshape.get? (k := "runNonce") rfl
  obtain ⟨_, htenant, tenant, rfl, -⟩ := hshape.get? (k := "tenantId") rfl
  have hnonce' := item_eq_ok.mpr hnonce
  have htenant' := item_eq_ok.mpr htenant
  simp only [expectedLabels, hnonce', htenant', ok_bind] at hexpected
  obtain rfl := pure_eq_ok.mp hexpected
  obtain ⟨hwf, hcanon⟩ := canon_labels nonce tenant
  have heq := canon_eq_of_pyEq rfl hcanonical.1 hwf h
  rw [hcanonical.2, hcanon] at heq
  simp [runLabels, hp.binding, hnonce, htenant, heq]

omit [Runtime] in
theorem purposes_of_inventory {credentials : List Json} {inventory : List (Json × Json)}
    (h : (credentials.mapM fun c => do pure (← item c "endpointId", ← item c "purpose")) = .ok inventory) :
    (credentials.map fun c => c.get? "purpose") = inventory.map fun p => some p.2 := by
  have hall := mapM_eq_ok.mp h
  clear h
  induction hall with
  | nil => rfl
  | cons hhead _ ih =>
    simp only [bind_eq_ok, pure_eq_ok, item_eq_ok] at hhead
    obtain ⟨endpoint, -, purpose, hpurpose, rfl⟩ := hhead
    rw [List.map_cons, List.map_cons, ih, hpurpose]

omit [Runtime] in
theorem nodup_of_field {credentials : List Json} {field : String} (h : (do
      let digests ← credentials.mapM fun c => item c field
      require "client/server credential reuse" (digests.dedup.length = credentials.length)) = .ok ()) :
    (credentials.map fun c => c.get? field).Nodup := by
  simp only [bind_eq_ok, require_eq_ok] at h
  obtain ⟨digests, hdigests, hlength⟩ := h
  have hall := mapM_eq_ok.mp hdigests
  have hmap : (credentials.map fun c => c.get? field) = digests.map some := by
    clear hdigests hlength
    induction hall with
    | nil => rfl
    | cons hhead _ ih => rw [List.map_cons, List.map_cons, ih, item_eq_ok.mp hhead]
  have hself : digests.dedup = digests := (List.dedup_sublist digests).eq_of_length (hlength.trans hall.length_eq)
  rw [hmap]
  exact (List.dedup_eq_self.mp hself).map (Option.some_injective _)

omit [Runtime] in
theorem requireCredentials_eq_ok {hasResources : Bool} {credentials : List Json}
    (h : requireCredentials binding hasResources credentials = .ok ()) :
    (∃ api, binding.get? "apiEndpointId" = some api ∧ (hasResources = false → api = .null)) ∧
      ((credentials.map fun c => c.get? "purpose") = some (.str "CAMPAIGN_PROXY_CLIENT_MTLS") ::
        if hasResources then [some (.str "KUBERNETES_PROXY_SERVER_MTLS")] else []) ∧
      ∀ field ∈ ["certificateDigest", "clientSpkiDigest"], (credentials.map fun c => c.get? field).Nodup := by
  cases hasResources with
  | false =>
    simp only [requireCredentials, Bool.false_eq_true, if_false, bind_eq_ok, require_eq_ok] at h
    obtain ⟨endpoint, -, api, hapi, _, hnull, inventory, hinventory, _, rfl, _, -, hdistinct⟩ := h
    refine ⟨⟨api, item_eq_ok.mp hapi, fun _ => hnull⟩, purposes_of_inventory hinventory, fun field hfield => ?_⟩
    exact nodup_of_field (forM_eq_ok.mp hdistinct field hfield)
  | true =>
    simp only [requireCredentials, if_true, bind_eq_ok, require_eq_ok] at h
    obtain ⟨endpoint, -, api, hapi, _, -, inventory, hinventory, _, rfl, _, -, hdistinct⟩ := h
    refine ⟨⟨api, item_eq_ok.mp hapi, by simp⟩, purposes_of_inventory hinventory, fun field hfield => ?_⟩
    exact nodup_of_field (forM_eq_ok.mp hdistinct field hfield)

/-! ## Accepted profiles -/

/-- An accepted profile grants what its resources need, and its resources are new ones of the run. -/
structure LeastPrivilege (profile : Json) : Prop where
  api : ∀ g, g ∈ apiGrants profile ↔ g ∈ apiNeeds profile
  unused : resourcesOf profile = [] → apiGrants profile = [] ∧ valueAt profile ["binding", "apiEndpointId"] = some .null ∧
    (entryOf profile "credentialIdentities").length = 1
  gvk : ∀ g, g ∈ gvkGrants profile ↔ g ∈ gvkNeeds profile
  images : ∀ i, i ∈ podImages profile ↔ i ∈ (itemsAt profile ["localImages"]).map some
  distinct : ((resourcesOf profile).map identityOf).Nodup
  foreign : ∀ reference ∈ entryOf profile "preexistingResourceRefs", ∀ row ∈ resourcesOf profile,
    ["kind", "namespace", "name"].map reference.get? ≠ identityOf row
  scope : ∀ row ∈ resourcesOf profile, ∃ space, namespaceAt row = some space ∧ valueAt profile ["binding", "namespace"] = some space
  labels : ∀ row ∈ resourcesOf profile, ∃ labels, valueAt row ["manifest", "metadata", "labels"] = some labels ∧
    runLabels profile = some labels
  digest : ∀ row ∈ resourcesOf profile, ∃ manifest raw, row.get? "manifest" = some manifest ∧
    canonicalBytes manifest = .ok raw ∧ row.get? "manifestDigest" = some (.str (byteDigest raw).text)
  selector : ∀ row ∈ resourcesOf profile, kindAt row = some .service → ∃ selector,
    valueAt row ["manifest", "spec", "selector"] = some selector ∧ runLabels profile = some selector
  purposes : ((entryOf profile "credentialIdentities").map fun c => c.get? "purpose") =
    some (.str "CAMPAIGN_PROXY_CLIENT_MTLS") :: if resourcesOf profile ≠ [] then [some (.str "KUBERNETES_PROXY_SERVER_MTLS")] else []
  credentials : ∀ field ∈ ["certificateDigest", "clientSpkiDigest"],
    ((entryOf profile "credentialIdentities").map fun c => c.get? field).Nodup

omit [Runtime] in
/-- The parts of a profile of the pinned shape. -/
theorem parts_of_shape (h : profileShape.Accepts profile) : ∃ binding entries rows, Parts profile binding entries rows ∧
    bindingShape.Accepts binding ∧ ∃ properties, (Shape.obj properties).Accepts entries ∧
      properties.lookup "kubernetesApiRules" = some (.arr 0 256 true apiRuleShape) ∧
      properties.lookup "permittedGvksAndVerbs" = some (.arr 0 3 true gvkRuleShape) ∧
      properties.lookup "preexistingResourceRefs" = some (.arr 0 256 true resourceRefShape) ∧
      properties.lookup "credentialIdentities" = some (.arr 1 2 true credentialShape) := by
  obtain ⟨binding, hbinding, hshape⟩ := h.get? (k := "binding") rfl
  obtain ⟨entries, hentries, hlists⟩ := h.get? (k := "capacityEntries") rfl
  obtain ⟨_, hrows, rows, rfl, -⟩ := h.get? (k := "resources") rfl
  exact ⟨binding, entries, rows, ⟨hbinding, hentries, hrows⟩, hshape, _, hlists, rfl, rfl, rfl, rfl⟩

omit [Runtime] in
/-- A list among the entries, as the loops over it read it. -/
theorem items_of_entry {properties : List (String × Shape)} (h : (Shape.obj properties).Accepts entries) {name : String}
    {low high : ℕ} {unique : Bool} {s : Shape} (hname : properties.lookup name = some (.arr low high unique s)) :
    ∃ items, entries.get? name = some (.arr items) ∧ ∀ v ∈ items, s.Accepts v := by
  obtain ⟨_, hvalues, items, rfl, -, -, -, hitems⟩ := h.get? hname
  exact ⟨items, hvalues, hitems⟩

omit [Runtime] in
theorem iterate_of_get? {v w : Json} {name : String} {xs items : List Json} (h : v.get? name = some (.arr items))
    (hw : item v name = .ok w) (hx : iterate w = .ok xs) : xs = items := by
  obtain rfl := Option.some.inj ((item_eq_ok.mp hw).symm.trans h)
  exact (Except.ok.inj hx).symm

theorem foreign_of_references {account : String} {policy : Json} {references : List Json}
    (h : requireReferences binding policy account references = .ok ids) (hshape : ∀ r ∈ references, resourceRefShape.Accepts r)
    (hs : Gathered binding ids rows s) : ∀ r ∈ references, ∀ row ∈ rows,
      ["kind", "namespace", "name"].map r.get? ≠ identityOf row := by
  simp only [requireReferences, bind_eq_ok, pure_eq_ok] at h
  obtain ⟨found, hfold, -, -, -, -, -, -, rfl⟩ := h
  have hkeys := keys_of_foldlM (fun _ _ _ hstep => referenceId_adds hstep) hfold
  intro r hr row hrow hsame
  obtain ⟨key, hkey, hids⟩ := forall₂_mem_left hkeys hr
  obtain ⟨p, -, hlisted⟩ := forall₂_mem_left hs.listed hrow
  obtain ⟨version, hversion, hconst⟩ := (hshape r hr).get? (k := "apiVersion") rfl
  obtain rfl := Shape.accepts_str.mp hconst
  obtain ⟨space, hspace, -⟩ := (hshape r hr).get? (k := "namespace") rfl
  have hscope : namespaceAt row = some space := by
    simp only [identityOf, List.map_cons, List.cons.injEq] at hsame
    exact hsame.2.1.symm.trans hspace
  rw [List.map_cons, hsame, hversion, identityOf, kindAt_eq_some.mp hlisted.ofKind, hlisted.named, hscope] at hids
  have hkeyEq : key = [.str "v1", .str p.1.name, space, .str p.2] :=
    (List.map_injective_iff.mpr (Option.some_injective Json)) hids.symm
  exact hlisted.foreign space hscope (hkeyEq ▸ List.mem_reverse.mp hkey)

theorem gathered_of_survey (hp : Parts profile binding entries rows) {references : List Json}
    (hreferences : entries.get? "preexistingResourceRefs" = some (.arr references)) (h : surveyProfile profile = .ok s) :
    ∃ account policy ids, requireReferences binding policy account references = .ok ids ∧ Gathered binding ids rows s := by
  simp only [surveyProfile, bind_eq_ok] at h
  obtain ⟨binding', hbinding, subject, -, entries', hentries, value, hvalue, found, hfound, h⟩ := h
  obtain ⟨policy, -, ids, hids, resources, hresources, items, hitems, h⟩ := h
  obtain rfl := Option.some.inj ((item_eq_ok.mp hbinding).symm.trans hp.binding)
  obtain rfl := Option.some.inj ((item_eq_ok.mp hentries).symm.trans hp.entries)
  obtain rfl := iterate_of_get? hreferences hvalue hfound
  obtain rfl := iterate_of_get? hp.rows hresources hitems
  exact ⟨_, policy, ids, hids, gathered_of_rows h⟩

omit [Runtime] in
theorem credentials_of_scope (hp : Parts profile binding entries rows) {credentials : List Json}
    (hcredentials : entries.get? "credentialIdentities" = some (.arr credentials)) (h : requireScope profile = .ok ()) :
    requireCredentials binding (rows ≠ []) credentials = .ok () := by
  simp only [requireScope, bind_eq_ok] at h
  obtain ⟨binding', hbinding, entries', hentries, _, -, _, -, _, -, _, -, _, -, _, -, _, -, _, -, h⟩ := h
  obtain ⟨value, hvalue, resources, hresources, list, hlist, found, hfound, _, hrequired, -⟩ := h
  obtain rfl := Option.some.inj ((item_eq_ok.mp hbinding).symm.trans hp.binding)
  obtain rfl := Option.some.inj ((item_eq_ok.mp hentries).symm.trans hp.entries)
  obtain rfl := iterate_of_get? hp.rows hvalue hresources
  obtain rfl := iterate_of_get? hcredentials hlist hfound
  exact hrequired

theorem api_of_grants (hp : Parts profile binding entries rows) (hs : Gathered binding ids rows s) {rules : List Json}
    (hrules : entries.get? "kubernetesApiRules" = some (.arr rules))
    (hendpoint : ∃ endpoint, binding.get? "apiEndpointId" = some endpoint) (h : requireGrants binding entries s = .ok ())
    (g : List (Option Json)) : g ∈ apiGrants profile ↔ g ∈ apiNeeds profile := by
  simp only [requireGrants, bind_eq_ok, require_eq_ok] at h
  obtain ⟨_, -, _, -, _, -, _, -, value, hvalue, found, hfound, api, hfold, hsame⟩ := h
  obtain rfl := iterate_of_get? hrules hvalue hfound
  rw [mem_apiGrants hp hrules hfold, mem_apiNeeds hp hs hendpoint]
  simp only [sameSet_iff.mp hsame]

theorem gvk_of_grants (hp : Parts profile binding entries rows) (hs : Gathered binding ids rows s) {rules : List Json}
    (hrules : entries.get? "permittedGvksAndVerbs" = some (.arr rules)) (hshape : ∀ rule ∈ rules, gvkRuleShape.Accepts rule)
    (h : requireGrants binding entries s = .ok ()) (g : Option Json × Option Json) :
    g ∈ gvkGrants profile ↔ g ∈ gvkNeeds profile := by
  simp only [requireGrants, bind_eq_ok, require_eq_ok] at h
  obtain ⟨value, hvalue, found, hfound, observed, hfold, _, hexact, -⟩ := h
  obtain rfl := iterate_of_get? hrules hvalue hfound
  rw [mem_gvkGrants hp hrules hshape hfold, mem_gvkNeeds hp hs]
  constructor
  · rintro ⟨e, he, name, hname, rfl⟩
    have hneeded := (sameSet_iff.mp ((hexact e.1 e.1.mem_all).2 e he rfl) name).mp hname
    obtain ⟨text, htext, rfl⟩ := List.mem_map.mp hneeded
    exact ⟨e.1, text, htext, rfl⟩
  · rintro ⟨k, name, hname, rfl⟩
    obtain ⟨hkinds, hnames⟩ := hexact k k.mem_all
    obtain ⟨e, he, rfl⟩ := List.mem_map.mp (hkinds.mpr (List.ne_nil_of_mem hname))
    exact ⟨e, he, .str name, (sameSet_iff.mp (hnames e he rfl) _).mpr (List.mem_map_of_mem hname), rfl⟩

omit [Runtime] in
/-- What stands in a resource of a canonical profile is canonical. -/
theorem row_canonical {profile row w : Json} {path : List String} (h : profile.Wf ∧ profile.canon = profile)
    (hrows : profile.get? "resources" = some (.arr rows)) (hrow : row ∈ rows) (hw : valueAt row path = some w) :
    w.Wf ∧ w.canon = w := by
  have hat : valueAt profile ["resources"] = some (.arr rows) := by simp [hrows]
  obtain ⟨hwf, hcanon⟩ := valueAt_canonical h.1 h.2 hat
  exact valueAt_canonical (Json.wf_arr.mp hwf row hrow) (Json.canon_item hcanon hrow) hw

end HarnessConformance.Admission
