import HarnessConformance.Lib.JsonSame
import HarnessConformance.Lib.Regex

/-! # JSON Schema

Schemas as tables of keywords, and which values they hold of: every keyword asserts something of its own,
and a reference asserts what the definition of its name does. -/

namespace HarnessConformance.Lib
set_option autoImplicit false

/-- The values of `type`. -/
inductive Kind where
  | object
  | array
  | string
  | integer
  | boolean
  | null
  deriving DecidableEq

namespace Kind

/-- A value of the type; `true` and `false` are no integers. -/
def Admits : Kind → Json → Bool
  | object, .obj _ | array, .arr _ | string, .str _ | integer, .int _ | boolean, .bool _ | null, .null => true
  | _, _ => false

end Kind

/-- The value of `pattern`, with or without `^` and `$`. -/
structure Pattern where
  start : Bool
  body : Regex
  stop : Bool

namespace Pattern

/-- The pattern is found somewhere in the text. -/
def Found (p : Pattern) (text : String) : Prop :=
  ∃ before inside after, text.toList = before ++ inside ++ after ∧ p.body.Matches inside ∧
    (p.start = true → before = []) ∧ (p.stop = true → after = [])

/-- `^body$` -/
def whole (body : Regex) : Pattern := ⟨true, body, true⟩

theorem found_of_anchored {p : Pattern} (hstart : p.start = true) (hstop : p.stop = true) {text : String} :
    p.Found text ↔ p.body.fullmatch text = true := by
  rw [Regex.fullmatch_iff]
  constructor
  · rintro ⟨before, inside, after, htext, hinside, hbefore, hafter⟩
    rw [hbefore hstart, hafter hstop, List.nil_append, List.append_nil] at htext
    exact htext ▸ hinside
  · intro htext
    exact ⟨[], text.toList, [], by simp, htext, fun _ => rfl, fun _ => rfl⟩

end Pattern

/-- The keywords that hold no schemas. -/
structure Limits where
  type : Option Kind
  const : Option Json
  enum : Option (List Json)
  required : Option (List String)
  additionalProperties : Option Bool
  minItems : Option ℕ
  maxItems : Option ℕ
  uniqueItems : Option Bool
  minLength : Option ℕ
  maxLength : Option ℕ
  pattern : Option Pattern
  minimum : Option ℤ
  maximum : Option ℤ

/-- No keyword. -/
def Limits.none : Limits := ⟨.none, .none, .none, .none, .none, .none, .none, .none, .none, .none, .none, .none, .none⟩

inductive Spec where
  | mk (ref : Option String) (oneOf : Option (List Spec)) (properties : Option (List (String × Spec))) (items : Option Spec)
      (limits : Limits)

/-- Induction through the schemas nested in a schema. -/
@[elab_as_elim, induction_eliminator]
theorem Spec.induct {P : Spec → Prop}
    (mk : ∀ ref oneOf properties items limits, (∀ options ∈ oneOf, ∀ s ∈ options, P s) →
      (∀ ps ∈ properties, ∀ p ∈ ps, P p.2) → (∀ s ∈ items, P s) → P (.mk ref oneOf properties items limits))
    (s : Spec) : P s := by
  refine Spec.rec (motive_1 := P) (motive_2 := fun oneOf => ∀ options ∈ oneOf, ∀ s ∈ options, P s)
    (motive_3 := fun properties => ∀ ps ∈ properties, ∀ p ∈ ps, P p.2) (motive_4 := fun items => ∀ s ∈ items, P s)
    (motive_5 := fun options => ∀ s ∈ options, P s) (motive_6 := fun ps => ∀ p ∈ ps, P p.2) (motive_7 := fun p => P p.2)
    mk ?_ ?_ ?_ ?_ ?_ ?_ ?_ ?_ ?_ ?_ ?_ s
  · simp
  · intro options h _ ho
    exact Option.some.inj ho ▸ h
  · simp
  · intro ps h _ hp
    exact Option.some.inj hp ▸ h
  · simp
  · intro s h _ hs
    exact Option.some.inj hs ▸ h
  · simp
  · intro s ss hs hss
    exact List.forall_mem_cons.mpr ⟨hs, hss⟩
  · simp
  · intro p ps hp hps
    exact List.forall_mem_cons.mpr ⟨hp, hps⟩
  · intro _ _ hs
    exact hs

namespace Limits

/-- What the keywords without schemas assert, but for `additionalProperties`. -/
structure Hold (l : Limits) (v : Json) : Prop where
  type : ∀ k ∈ l.type, k.Admits v = true
  const : ∀ c ∈ l.const, v.canon = c.canon
  enum : ∀ cs ∈ l.enum, ∃ c ∈ cs, v.canon = c.canon
  required : ∀ names ∈ l.required, ∀ members, v = .obj members → ∀ name ∈ names, name ∈ Json.keys members
  items : ∀ vs, v = .arr vs → (∀ n ∈ l.minItems, n ≤ vs.length) ∧ (∀ n ∈ l.maxItems, vs.length ≤ n) ∧
    (l.uniqueItems = some true → (vs.map Json.canon).Nodup)
  text : ∀ t, v = .str t → (∀ n ∈ l.minLength, n ≤ t.length) ∧ (∀ n ∈ l.maxLength, t.length ≤ n) ∧
    ∀ p ∈ l.pattern, p.Found t
  number : ∀ n, v = .int n → (∀ low ∈ l.minimum, low ≤ n) ∧ ∀ high ∈ l.maximum, n ≤ high

end Limits

namespace Spec

/-- The name that a reference points to. -/
def pointer (ref : String) : Option String :=
  if "#/$defs/".toList <+: ref.toList then some (String.ofList (ref.toList.drop 8)) else none

mutual
/-- The value satisfies the schema, where a name means what `ρ` says. -/
def Valid (ρ : String → Json → Prop) : Spec → Json → Prop
  | mk ref oneOf properties items limits, v =>
    (∀ r ∈ ref, ∃ name, pointer r = some name ∧ ρ name v) ∧ ValidOneOf ρ oneOf v ∧ limits.Hold v ∧
      (∀ members, v = .obj members → (∀ m ∈ members, ValidMember ρ properties m.1 m.2) ∧
        (limits.additionalProperties = some false → ∀ k ∈ Json.keys members, k ∈ (properties.getD []).map Prod.fst)) ∧
      ∀ vs, v = .arr vs → ∀ w ∈ vs, ValidItem ρ items w
def ValidOneOf (ρ : String → Json → Prop) : Option (List Spec) → Json → Prop
  | none, _ => True
  | some options, v => ValidOne ρ options v
def ValidNone (ρ : String → Json → Prop) : List Spec → Json → Prop
  | [], _ => True
  | s :: options, v => ¬ Valid ρ s v ∧ ValidNone ρ options v
/-- Exactly one of the schemas. -/
def ValidOne (ρ : String → Json → Prop) : List Spec → Json → Prop
  | [], _ => False
  | s :: options, v => (Valid ρ s v ∧ ValidNone ρ options v) ∨ (¬ Valid ρ s v ∧ ValidOne ρ options v)
def ValidMember (ρ : String → Json → Prop) : Option (List (String × Spec)) → String → Json → Prop
  | none, _, _ => True
  | some properties, k, v => ValidAt ρ properties k v
/-- The first property of that name, if there is one. -/
def ValidAt (ρ : String → Json → Prop) : List (String × Spec) → String → Json → Prop
  | [], _, _ => True
  | (name, s) :: properties, k, v => (k = name → Valid ρ s v) ∧ (k ≠ name → ValidAt ρ properties k v)
def ValidItem (ρ : String → Json → Prop) : Option Spec → Json → Prop
  | none, _ => True
  | some s, v => Valid ρ s v
end

variable {ρ ρ' : String → Json → Prop} {options : List Spec} {ps : List (String × Spec)} {v : Json} {k : String}

theorem validNone_iff : ValidNone ρ options v ↔ ∀ s ∈ options, ¬ Valid ρ s v := by
  induction options with
  | nil => simp [ValidNone]
  | cons s options ih => rw [ValidNone, ih, List.forall_mem_cons]

theorem validOne_congr (h : ∀ s ∈ options, Valid ρ s v ↔ Valid ρ' s v) : ValidOne ρ options v ↔ ValidOne ρ' options v := by
  induction options with
  | nil => rfl
  | cons s options ih =>
    rw [List.forall_mem_cons] at h
    have hnone : ValidNone ρ options v ↔ ValidNone ρ' options v := by
      rw [validNone_iff, validNone_iff]
      exact forall₂_congr fun t ht => not_congr (h.2 t ht)
    rw [ValidOne, ValidOne, h.1, hnone, ih h.2]

theorem validAt_congr (h : ∀ p ∈ ps, Valid ρ p.2 v ↔ Valid ρ' p.2 v) : ValidAt ρ ps k v ↔ ValidAt ρ' ps k v := by
  induction ps with
  | nil => rfl
  | cons p ps ih =>
    rw [List.forall_mem_cons] at h
    rw [ValidAt, ValidAt, h.1, ih h.2]

/-! ## The schemas inside -/

mutual
/-- A schema and all schemas inside it. -/
def nodes : Spec → List Spec
  | mk ref oneOf properties items limits =>
    mk ref oneOf properties items limits :: (nodesOneOf oneOf ++ nodesProperties properties ++ nodesItems items)
def nodesOneOf : Option (List Spec) → List Spec
  | none => []
  | some options => nodesOptions options
def nodesOptions : List Spec → List Spec
  | [] => []
  | s :: options => nodes s ++ nodesOptions options
def nodesProperties : Option (List (String × Spec)) → List Spec
  | none => []
  | some ps => nodesAt ps
def nodesAt : List (String × Spec) → List Spec
  | [] => []
  | (_, s) :: ps => nodes s ++ nodesAt ps
def nodesItems : Option Spec → List Spec
  | none => []
  | some s => nodes s
end

theorem nodes_option {s t : Spec} (hs : s ∈ options) (ht : t ∈ nodes s) : t ∈ nodesOptions options := by
  induction options with
  | nil => cases hs
  | cons r options ih =>
    rw [nodesOptions, List.mem_append]
    rcases List.mem_cons.mp hs with rfl | hs
    · exact .inl ht
    · exact .inr (ih hs)

theorem nodes_property {p : String × Spec} {t : Spec} (hp : p ∈ ps) (ht : t ∈ nodes p.2) : t ∈ nodesAt ps := by
  induction ps with
  | nil => cases hp
  | cons q ps ih =>
    rw [nodesAt, List.mem_append]
    rcases List.mem_cons.mp hp with rfl | hp
    · exact .inl ht
    · exact .inr (ih hp)

section
variable {ref : Option String} {oneOf : Option (List Spec)} {properties : Option (List (String × Spec))} {items : Option Spec}
  {limits : Limits} {s : Spec}

theorem nodes_self (s : Spec) : s ∈ s.nodes := by
  cases s
  rw [nodes]
  exact List.mem_cons_self

theorem nodes_oneOf {options : List Spec} (ho : options ∈ oneOf) (hs : s ∈ options) :
    s.nodes ⊆ (mk ref oneOf properties items limits).nodes := by
  intro t ht
  obtain rfl := Option.mem_def.mp ho
  rw [nodes, nodesOneOf]
  exact List.mem_cons_of_mem _ (List.mem_append_left _ (List.mem_append_left _ (nodes_option hs ht)))

theorem nodes_properties {ps : List (String × Spec)} (hps : ps ∈ properties) {p : String × Spec} (hp : p ∈ ps) :
    p.2.nodes ⊆ (mk ref oneOf properties items limits).nodes := by
  intro t ht
  obtain rfl := Option.mem_def.mp hps
  rw [nodes, nodesProperties]
  exact List.mem_cons_of_mem _ (List.mem_append_left _ (List.mem_append_right _ (nodes_property hp ht)))

theorem nodes_items (hs : s ∈ items) : s.nodes ⊆ (mk ref oneOf properties items limits).nodes := by
  intro t ht
  obtain rfl := Option.mem_def.mp hs
  rw [nodes, nodesItems]
  exact List.mem_cons_of_mem _ (List.mem_append_right _ ht)

end

def ref : Spec → Option String
  | mk ref _ _ _ _ => ref

def properties : Spec → Option (List (String × Spec))
  | mk _ _ properties _ _ => properties

def limits : Spec → Limits
  | mk _ _ _ _ limits => limits

/-- The references of a schema. -/
def refs (s : Spec) : List String := s.nodes.filterMap ref

theorem refs_subset {s t : Spec} (h : s.nodes ⊆ t.nodes) : s.refs ⊆ t.refs := List.filterMap_subset ref h

theorem mem_refs {ref : Option String} {oneOf : Option (List Spec)} {properties : Option (List (String × Spec))}
    {items : Option Spec} {limits : Limits} {r : String} (h : r ∈ ref) : r ∈ (mk ref oneOf properties items limits).refs :=
  List.mem_filterMap.mpr ⟨_, nodes_self _, h⟩

/-- Schemas whose references mean the same mean the same. -/
theorem valid_congr {s : Spec} (h : ∀ r ∈ s.refs, ∀ name, pointer r = some name → ∀ v, ρ name v ↔ ρ' name v) (v : Json) :
    Valid ρ s v ↔ Valid ρ' s v := by
  induction s generalizing v with
  | mk ref oneOf properties items limits ihOneOf ihProperties ihItems =>
    have hsub {s : Spec} (hs : s.nodes ⊆ (mk ref oneOf properties items limits).nodes) :
        ∀ r ∈ s.refs, ∀ name, pointer r = some name → ∀ v, ρ name v ↔ ρ' name v := fun r hr => h r (refs_subset hs hr)
    have href : (∀ r ∈ ref, ∃ name, pointer r = some name ∧ ρ name v) ↔
        ∀ r ∈ ref, ∃ name, pointer r = some name ∧ ρ' name v :=
      forall₂_congr fun r hr => exists_congr fun name => and_congr_right fun hname => h r (mem_refs hr) name hname v
    have hone : ValidOneOf ρ oneOf v ↔ ValidOneOf ρ' oneOf v := by
      cases oneOf with
      | none => rfl
      | some options => exact validOne_congr fun s hs => ihOneOf options rfl s hs (hsub (nodes_oneOf rfl hs)) v
    have hmember (k : String) (w : Json) : ValidMember ρ properties k w ↔ ValidMember ρ' properties k w := by
      cases properties with
      | none => rfl
      | some ps => exact validAt_congr fun p hp => ihProperties ps rfl p hp (hsub (nodes_properties rfl hp)) w
    have hitem (w : Json) : ValidItem ρ items w ↔ ValidItem ρ' items w := by
      cases items with
      | none => rfl
      | some s => exact ihItems s rfl (hsub (nodes_items rfl)) w
    simp only [Valid, href, hone, hmember, hitem]

/-! ## Definitions -/

/-- `ρ` reads every reference as the definition that it names. -/
def Reads (definitions : List (String × Spec)) (ρ : String → Json → Prop) : Prop :=
  ∀ name s, definitions.lookup name = some s → ∀ v, ρ name v ↔ Valid ρ s v

/-- Following references leads to schemas without references, after so many steps. -/
def grounded (definitions : List (String × Spec)) : ℕ → List String → Bool
  | 0, rs => rs.isEmpty
  | n + 1, rs => rs.all fun r =>
    match (pointer r).bind fun name => definitions.lookup name with
    | none => false
    | some s => grounded definitions n s.refs

theorem grounded_succ {definitions : List (String × Spec)} {n : ℕ} {rs : List String} :
    grounded definitions (n + 1) rs = true ↔ ∀ r ∈ rs, ∃ name s, pointer r = some name ∧
      definitions.lookup name = some s ∧ grounded definitions n s.refs = true := by
  rw [grounded, List.all_eq_true]
  refine forall₂_congr fun r _ => ?_
  cases hpointer : pointer r with
  | none => simp
  | some name =>
    cases hlookup : definitions.lookup name with
    | none => simp [hlookup]
    | some s => simp [hlookup]

theorem mem_of_lookup {definitions : List (String × Spec)} {name : String} {s : Spec} (h : definitions.lookup name = some s) :
    (name, s) ∈ definitions := by
  obtain ⟨before, after, hdefinitions, -⟩ := List.lookup_eq_some_iff.mp h
  rw [hdefinitions]
  exact List.mem_append_right _ List.mem_cons_self

/-- What a name means when only so many references are followed. -/
def reading (definitions : List (String × Spec)) : ℕ → String → Json → Prop
  | 0, _, _ => False
  | n + 1, name, v => ∃ s, definitions.lookup name = some s ∧ Valid (reading definitions n) s v

/-- Past the last reference it makes no difference how many are followed. -/
theorem reading_stable {definitions : List (String × Spec)} {n : ℕ} {rs : List String} (h : grounded definitions n rs = true)
    {a b : ℕ} (ha : n ≤ a) (hb : n ≤ b) : ∀ r ∈ rs, ∀ name, pointer r = some name → ∀ v,
      reading definitions a name v ↔ reading definitions b name v := by
  induction n generalizing rs a b with
  | zero =>
    obtain rfl := List.isEmpty_iff.mp h
    simp
  | succ n ih =>
    intro r hr name hname v
    obtain ⟨a, rfl⟩ := Nat.exists_eq_add_one_of_ne_zero (Nat.ne_zero_of_lt ha)
    obtain ⟨b, rfl⟩ := Nat.exists_eq_add_one_of_ne_zero (Nat.ne_zero_of_lt hb)
    obtain ⟨name', s, hname', hs, hground⟩ := grounded_succ.mp h r hr
    obtain rfl := Option.some.inj (hname'.symm.trans hname)
    have hstable := ih hground (Nat.le_of_succ_le_succ ha) (Nat.le_of_succ_le_succ hb)
    simp only [reading, hs, Option.some.injEq, exists_eq_left']
    exact valid_congr hstable v

/-- Definitions without cycles have a meaning. -/
theorem exists_reads {definitions : List (String × Spec)} {n : ℕ}
    (h : ∀ p ∈ definitions, grounded definitions n p.2.refs = true) : ∃ ρ, Reads definitions ρ := by
  refine ⟨reading definitions (n + 1), fun name s hs v => ?_⟩
  have hground := h (name, s) (mem_of_lookup hs)
  have hstable := reading_stable hground le_rfl (Nat.le_succ n)
  rw [reading]
  simp only [hs, Option.some.injEq, exists_eq_left']
  exact valid_congr hstable v

/-! ## Schemas of one kind -/

/-- `{"$ref": "#/$defs/name"}` -/
def reference (name : String) : Spec := mk (some ("#/$defs/" ++ name)) none none none .none

/-- `{"oneOf": options}` -/
def choice (options : List Spec) : Spec := mk none (some options) none none .none

/-- `{"type": type}` -/
def typed (type : Kind) : Spec := mk none none none none { Limits.none with type }

/-- `{"const": c}` -/
def constant (c : Json) : Spec := mk none none none none { Limits.none with const := some c }

/-- `{"enum": cs}` -/
def enumeration (cs : List Json) : Spec := mk none none none none { Limits.none with enum := some cs }

/-- `{"type": "string", …}`, with an anchored pattern. -/
def string (minLength maxLength : Option ℕ) (body : Option Regex) : Spec :=
  mk none none none none
    { Limits.none with type := some .string, minLength, maxLength, pattern := body.map Pattern.whole }

/-- `{"type": "integer", "minimum": low, "maximum": high}` -/
def integer (low high : ℤ) : Spec :=
  mk none none none none { Limits.none with type := some .integer, minimum := some low, maximum := some high }

/-- `{"type": "array", …}` -/
def array (minItems : Option ℕ) (maxItems : ℕ) (uniqueItems : Option Bool) (items : Option Spec) : Spec :=
  mk none none none items { Limits.none with type := some .array, minItems, maxItems := some maxItems, uniqueItems }

/-- `{"type": "object", "additionalProperties": false, "required": […], "properties": properties}` -/
def object (properties : List (String × Spec)) : Spec :=
  mk none none (some properties) none
    { Limits.none with
      type := some .object, additionalProperties := some false, required := some (properties.map Prod.fst) }

theorem pointer_reference (name : String) : pointer ("#/$defs/" ++ name) = some name := by
  rw [pointer, String.toList_append, if_pos (List.prefix_append _ _)]
  exact congrArg some (by rw [List.drop_append_of_le_length (by decide)]; simp)

theorem hold_none : Limits.none.Hold v := by
  constructor <;> simp [Limits.none]

theorem valid_reference {name : String} : (reference name).Valid ρ v ↔ ρ name v := by
  constructor
  · rintro ⟨href, -⟩
    obtain ⟨name', hname, hvalid⟩ := href _ rfl
    rw [pointer_reference, Option.some.injEq] at hname
    exact hname ▸ hvalid
  · intro h
    refine ⟨fun r hr => ⟨name, ?_, h⟩, trivial, hold_none, fun members _ => ⟨fun _ _ => trivial, nofun⟩, fun _ _ _ _ => trivial⟩
    exact Option.some.inj hr ▸ pointer_reference name

/-- A closed object holds its properties. -/
theorem valid_object {properties : List (String × Spec)} : (object properties).Valid ρ v ↔
    ∃ members, v = .obj members ∧ (∀ k, k ∈ Json.keys members ↔ k ∈ properties.map Prod.fst) ∧
      ∀ m ∈ members, ValidAt ρ properties m.1 m.2 := by
  constructor
  · rintro ⟨-, -, hlimits, hmembers, -⟩
    have hkind := hlimits.type .object rfl
    cases v with
    | obj members =>
      obtain ⟨hvalid, hknown⟩ := hmembers members rfl
      have hrequired := hlimits.required _ rfl members rfl
      exact ⟨members, rfl, fun k => ⟨hknown rfl k, hrequired k⟩, hvalid⟩
    | _ => cases hkind
  · rintro ⟨members, rfl, hkeys, hvalid⟩
    refine ⟨nofun, trivial, ?_, ?_, nofun⟩
    · constructor <;> simp [Limits.none, Kind.Admits]
      exact fun k s hs => (hkeys k).mpr (List.mem_map_of_mem hs)
    · rintro _ ⟨⟩
      exact ⟨hvalid, fun _ k hk => (hkeys k).mp hk⟩

theorem validAt_lookup {properties : List (String × Spec)} {s : Spec} (h : properties.lookup k = some s) :
    ValidAt ρ properties k v ↔ s.Valid ρ v := by
  induction properties with
  | nil => cases h
  | cons p properties ih =>
    obtain ⟨name, t⟩ := p
    rw [ValidAt]
    by_cases hk : k = name
    · subst hk
      rw [List.lookup_cons, beq_self_eq_true] at h
      simp [Option.some.inj h]
    · rw [List.lookup_cons, beq_false_of_ne hk] at h
      simp [hk, ih h]

/-- What a closed object holds under one of its names. -/
theorem Valid.get? {properties : List (String × Spec)} (h : (object properties).Valid ρ v) {s : Spec}
    (hk : properties.lookup k = some s) : ∃ w, v.get? k = some w ∧ s.Valid ρ w := by
  obtain ⟨members, rfl, hkeys, hvalid⟩ := valid_object.mp h
  have hmem : k ∈ Json.keys members := (hkeys k).mpr (List.mem_map_of_mem (mem_of_lookup hk))
  obtain ⟨w, hw⟩ := Option.isSome_iff_exists.mp (Json.lookup_isSome.mpr hmem)
  exact ⟨w, hw, (validAt_lookup hk).mp (hvalid _ (Json.lookup_mem hw))⟩

theorem valid_array {low : Option ℕ} {high : ℕ} {unique : Option Bool} {items : Option Spec} :
    (array low high unique items).Valid ρ v ↔ ∃ vs, v = .arr vs ∧ (∀ n ∈ low, n ≤ vs.length) ∧ vs.length ≤ high ∧
      (unique = some true → (vs.map Json.canon).Nodup) ∧ ∀ w ∈ vs, ValidItem ρ items w := by
  constructor
  · rintro ⟨-, -, hlimits, -, hitems⟩
    have hkind := hlimits.type .array rfl
    cases v with
    | arr vs =>
      obtain ⟨hlow, hhigh, hunique⟩ := hlimits.items vs rfl
      exact ⟨vs, rfl, hlow, hhigh high rfl, hunique, hitems vs rfl⟩
    | _ => cases hkind
  · rintro ⟨vs, rfl, hlow, hhigh, hunique, hitems⟩
    refine ⟨nofun, trivial, ?_, nofun, ?_⟩
    · constructor <;> simp [Limits.none, Kind.Admits]
      exact ⟨hlow, hhigh, hunique⟩
    · rintro _ ⟨⟩
      exact hitems

theorem valid_string {low high : Option ℕ} {body : Option Regex} : (string low high body).Valid ρ v ↔
    ∃ t, v = .str t ∧ (∀ n ∈ low, n ≤ t.length) ∧ (∀ n ∈ high, t.length ≤ n) ∧ ∀ r ∈ body, r.fullmatch t = true := by
  have hpattern (t : String) : (∀ p ∈ body.map Pattern.whole, p.Found t) ↔ ∀ r ∈ body, r.fullmatch t = true := by
    cases body with
    | none => simp
    | some r => simp [Pattern.found_of_anchored, Pattern.whole]
  constructor
  · rintro ⟨-, -, hlimits, -⟩
    have hkind := hlimits.type .string rfl
    cases v with
    | str t =>
      obtain ⟨hlow, hhigh, hbody⟩ := hlimits.text t rfl
      exact ⟨t, rfl, hlow, hhigh, (hpattern t).mp hbody⟩
    | _ => cases hkind
  · rintro ⟨t, rfl, hlow, hhigh, hbody⟩
    refine ⟨nofun, trivial, ?_, nofun, nofun⟩
    constructor <;> simp [Limits.none, Kind.Admits]
    exact ⟨hlow, hhigh, by simpa using (hpattern t).mpr hbody⟩

/-! ## Schemas without booleans -/

/-- Nothing in the schema itself lets a boolean through. -/
def barsBooleans : Spec → Bool
  | mk ref oneOf properties items l =>
    ref.isSome || oneOf.isSome || l.const.any Json.boolFree || l.enum.any (fun cs => cs.all Json.boolFree) ||
      match l.type with
      | some .object => properties.isSome && l.additionalProperties == some false
      | some .array => items.isSome
      | some .boolean | none => false
      | _ => true

theorem ValidOne.exists (h : ValidOne ρ options v) : ∃ s ∈ options, s.Valid ρ v := by
  induction options with
  | nil => exact h.elim
  | cons s options ih =>
    rcases h with ⟨hs, -⟩ | ⟨-, hrest⟩
    · exact ⟨s, List.mem_cons_self, hs⟩
    · obtain ⟨t, ht, hv⟩ := ih hrest
      exact ⟨t, List.mem_cons_of_mem _ ht, hv⟩

theorem ValidAt.exists (h : ValidAt ρ ps k v) (hk : k ∈ ps.map Prod.fst) : ∃ p ∈ ps, p.2.Valid ρ v := by
  induction ps with
  | nil => cases hk
  | cons p ps ih =>
    obtain ⟨hp, hrest⟩ := h
    by_cases hname : k = p.1
    · exact ⟨p, List.mem_cons_self, hp hname⟩
    · obtain ⟨q, hq, hv⟩ := ih (hrest hname) ((List.mem_cons.mp hk).resolve_left hname)
      exact ⟨q, List.mem_cons_of_mem _ hq, hv⟩

/-- What is valid has no booleans inside, when no schema inside lets one through. -/
theorem boolFree_of_valid {s : Spec} (hbars : ∀ t ∈ s.nodes, t.barsBooleans = true)
    (href : ∀ r ∈ s.refs, ∀ name, pointer r = some name → ∀ v, ρ name v → v.boolFree = true) {v : Json} (h : s.Valid ρ v) :
    v.boolFree = true := by
  induction s generalizing v with
  | mk ref oneOf properties items limits ihOneOf ihProperties ihItems =>
    have hsub {s : Spec} (hs : s.nodes ⊆ (mk ref oneOf properties items limits).nodes)
        (ih : (∀ t ∈ s.nodes, t.barsBooleans = true) →
          (∀ r ∈ s.refs, ∀ name, pointer r = some name → ∀ v, ρ name v → v.boolFree = true) →
          ∀ {v : Json}, s.Valid ρ v → v.boolFree = true) {v : Json} (hv : s.Valid ρ v) : v.boolFree = true :=
      ih (fun t ht => hbars t (hs ht)) (fun r hr => href r (refs_subset hs hr)) hv
    obtain ⟨hr, hone, hlimits, hmembers, hitems⟩ := h
    have hcanon {c : Json} (hc : c.boolFree = true) (heq : v.canon = c.canon) : v.boolFree = true := by
      rw [← Json.boolFree_canon, heq, Json.boolFree_canon, hc]
    have hself := hbars _ (nodes_self _)
    simp only [barsBooleans, Bool.or_eq_true, Option.isSome_iff_exists, Option.any_eq_true, List.all_eq_true] at hself
    rcases hself with (((⟨r, rfl⟩ | ⟨options, rfl⟩) | ⟨c, hc, hfree⟩) | ⟨cs, hcs, hfree⟩) | htype
    · obtain ⟨name, hname, hv⟩ := hr r rfl
      exact href r (mem_refs rfl) name hname v hv
    · obtain ⟨s, hs, hv⟩ := ValidOne.exists hone
      exact hsub (nodes_oneOf rfl hs) (ihOneOf options rfl s hs) hv
    · exact hcanon hfree (hlimits.const c hc)
    · obtain ⟨c, hc, heq⟩ := hlimits.enum cs hcs
      exact hcanon (hfree c hc) heq
    · cases hkind : limits.type with
      | none => simp [hkind] at htype
      | some kind =>
        have hadmits := hlimits.type kind hkind
        cases v with
        | bool b => cases kind <;> simp [Kind.Admits, hkind] at hadmits htype
        | arr vs =>
          cases kind with
          | array =>
            obtain ⟨s, rfl⟩ := Option.isSome_iff_exists.mp (by simpa [hkind] using htype)
            exact Json.boolFree_arr.mpr fun w hw => hsub (nodes_items rfl) (ihItems s rfl) (hitems vs rfl w hw)
          | _ => cases hadmits
        | obj members =>
          cases kind with
          | object =>
            simp only [hkind, Bool.and_eq_true, Option.isSome_iff_exists, beq_iff_eq] at htype
            obtain ⟨⟨ps, rfl⟩, hclosed⟩ := htype
            obtain ⟨hvalid, hknown⟩ := hmembers members rfl
            refine Json.boolFree_obj.mpr fun m hm => ?_
            obtain ⟨p, hp, hv⟩ := ValidAt.exists (hvalid m hm) (hknown hclosed m.1 (List.mem_map_of_mem hm))
            exact hsub (nodes_properties rfl hp) (ihProperties ps rfl p hp) hv
          | _ => cases hadmits
        | _ => rfl

/-- So have the values that a definition reads. -/
theorem boolFree_of_reads {definitions : List (String × Spec)} (hreads : Reads definitions ρ)
    (hbars : ∀ p ∈ definitions, ∀ t ∈ p.2.nodes, t.barsBooleans = true) {n : ℕ} {rs : List String}
    (hground : grounded definitions n rs = true) : ∀ r ∈ rs, ∀ name, pointer r = some name → ∀ v, ρ name v → v.boolFree = true := by
  induction n generalizing rs with
  | zero =>
    obtain rfl := List.isEmpty_iff.mp hground
    simp
  | succ n ih =>
    intro r hr name hname v hv
    obtain ⟨name', s, hname', hlookup, hs⟩ := grounded_succ.mp hground r hr
    obtain rfl := Option.some.inj (hname'.symm.trans hname)
    exact boolFree_of_valid (hbars _ (mem_of_lookup hlookup)) (ih hs) ((hreads _ s hlookup v).mp hv)

end Spec
end HarnessConformance.Lib
