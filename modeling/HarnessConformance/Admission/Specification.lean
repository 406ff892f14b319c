import HarnessConformance.Lib.JsonSchema
import HarnessConformance.Admission.Shape

/-! # The evaluator of specifications

`_shape` of `live_mutation_admission.py` over specifications as tables of keywords, references and defaults
included. On documents it accepts what the specification means as a JSON Schema. -/

namespace HarnessConformance.Admission
open Lib Lib.Outcome Lib.Lines
set_option autoImplicit false

variable [Runtime]

/-! ## The evaluator -/

/-- `if "$ref" in spec` -/
def requireRef (look : String → Json → Py Unit) (ref : Option String) (value : Json) : Py Unit :=
  match ref with
  | none => pure ()
  | some ref =>
    match Spec.pointer ref with
    | none => .error (refusal "PROXY_SPEC_INVALID")
    | some name => look name value

def requireType (type : Option Lib.Kind) (value : Json) : Py Unit :=
  match type with
  | none => pure ()
  | some kind => require "PROXY_SHAPE_INVALID" (kind.Admits value)

def requireConst (const : Option Json) (value : Json) : Py Unit :=
  match const with
  | none => pure ()
  | some c => do require "PROXY_CONSTANT_INVALID" ((← canonicalBytes value) = (← canonicalBytes c))

def requireEnum (enum : Option (List Json)) (value : Json) : Py Unit :=
  match enum with
  | none => pure ()
  | some cs => do
    let found ← cs.anyM fun c => do pure (decide ((← canonicalBytes value) = (← canonicalBytes c)))
    require "PROXY_ENUM_INVALID" found

/-- `if type(value) is list`, with what is asked of every item. -/
def requireArray (limits : Limits) (item : Json → Py Unit) (value : Json) : Py Unit :=
  match value with
  | .arr vs => do
    require "PROXY_COLLECTION_SIZE" (limits.minItems.getD 0 ≤ vs.length ∧ vs.length ≤ limits.maxItems.getD 4096)
    requireUnique (limits.uniqueItems.getD false) vs
    vs.forM item
  | _ => pure ()

/-- `if type(value) is str` -/
def requireString (limits : Limits) (value : Json) : Py Unit :=
  match value with
  | .str text => do
    require "PROXY_STRING_SIZE" (limits.minLength.getD 0 ≤ text.length ∧ text.length ≤ limits.maxLength.getD 262144)
    match limits.pattern with
    | none => pure ()
    | some pattern => require "PROXY_STRING_INVALID" (pattern.body.fullmatch text)
  | _ => pure ()

/-- `if type(value) is int` -/
def requireNumber (limits : Limits) (value : Json) : Py Unit :=
  match value with
  | .int n => require "PROXY_INTEGER_RANGE" (limits.minimum.getD (-9007199254740991) ≤ n ∧
      n ≤ limits.maximum.getD 9007199254740991)
  | _ => pure ()

mutual
/-- `_shape(value, spec, definitions)`, where `look` evaluates a named definition. -/
def shapeSpec (look : String → Json → Py Unit) : Spec → Json → Py Unit
  | .mk ref oneOf properties items limits, value => do
    requireRef look ref value
    shapeOneOf look oneOf value
    requireType limits.type value
    requireConst limits.const value
    requireEnum limits.enum value
    shapeObject look limits properties value
    requireArray limits (fun v => shapeItem look items v) value
    requireString limits value
    requireNumber limits value
/-- `if "oneOf" in spec` -/
def shapeOneOf (look : String → Json → Py Unit) : Option (List Spec) → Json → Py Unit
  | none, _ => pure ()
  | some options, value => do
    let count ← countSpec look options value
    require "PROXY_SHAPE_INVALID" (count = 1)
/-- The options that raise no `ConformanceError`. -/
def countSpec (look : String → Json → Py Unit) : List Spec → Json → Py ℕ
  | [], _ => pure 0
  | s :: options, value =>
    match shapeSpec look s value with
    | .ok _ => do pure ((← countSpec look options value) + 1)
    | .error (.conformance _ _) => countSpec look options value
    | .error e => .error e
/-- `if type(value) is dict and "properties" in spec` -/
def shapeObject (look : String → Json → Py Unit) (limits : Limits) : Option (List (String × Spec)) → Json → Py Unit
  | some properties, .obj members => do
    require "PROXY_FIELD_MISSING" (∀ k ∈ limits.required.getD [], k ∈ Json.keys members)
    require "PROXY_FIELD_UNKNOWN" (limits.additionalProperties = some false ∧
      ∀ k ∈ Json.keys members, k ∈ properties.map Prod.fst)
    members.forM fun m => shapeProperty look properties m.1 m.2
  | _, _ => pure ()
/-- `_shape(item, spec["properties"][key], definitions)` -/
def shapeProperty (look : String → Json → Py Unit) : List (String × Spec) → String → Json → Py Unit
  | [], k, _ => .error (.keyError k)
  | (name, s) :: properties, k, value => if k = name then shapeSpec look s value else shapeProperty look properties k value
/-- `if "items" in spec` -/
def shapeItem (look : String → Json → Py Unit) : Option Spec → Json → Py Unit
  | none, _ => pure ()
  | some s, value => shapeSpec look s value
end

/-- A definition of that name, entered while the interpreter has calls left. -/
def shapeDefinition (definitions : List (String × Spec)) : ℕ → String → Json → Py Unit
  | 0, _, _ => .error .recursionError
  | n + 1, name, value =>
    match definitions.lookup name with
    | none => .error (refusal "PROXY_SPEC_INVALID")
    | some s => shapeSpec (shapeDefinition definitions n) s value

/-- `_shape(value, spec, definitions)`, with the calls that a pinned specification takes. -/
def shapeIn (definitions : List (String × Spec)) (spec : Spec) (value : Json) : Py Unit :=
  shapeSpec (shapeDefinition definitions 4) spec value

/-! ## Documents -/

/-- What the sources check a specification on. -/
structure IsDocument (v : Json) : Prop where
  wf : v.Wf
  valid : Valid v
  width : v.width ≤ 262144

theorem IsDocument.items {vs : List Json} (h : IsDocument (.arr vs)) : ∀ v ∈ vs, IsDocument v := by
  intro v hv
  obtain ⟨hwf, hvalid⟩ := valid_items ⟨h.wf, h.valid⟩ v hv
  have hle := List.single_le_sum (fun _ _ => Nat.zero_le _) _ (List.mem_map_of_mem hv : v.width ∈ vs.map Json.width)
  have hwidth := h.width
  rw [Json.width, Json.widthItems_eq] at hwidth
  exact ⟨hwf, hvalid, by omega⟩

theorem IsDocument.members {members : Json.Members} (h : IsDocument (.obj members)) : ∀ m ∈ members, IsDocument m.2 := by
  intro m hm
  obtain ⟨hwf, hvalid⟩ := valid_members ⟨h.wf, h.valid⟩ m hm
  have hle := List.single_le_sum (fun _ _ => Nat.zero_le _) _
    (List.mem_map_of_mem hm : Json.textWidth m.1 + 2 + m.2.width ∈ members.map fun m => Json.textWidth m.1 + 2 + m.2.width)
  have hwidth := h.width
  rw [Json.width, Json.widthMembers_eq] at hwidth
  exact ⟨hwf, hvalid, by omega⟩

theorem IsDocument.array {vs : List Json} (h : IsDocument (.arr vs)) : vs.length ≤ 4096 := (validAt_arr.mp h.valid).2.1

theorem IsDocument.text {t : String} (h : IsDocument (.str t)) : t.length ≤ 262144 := by
  have hlength := Json.length_le_textWidth t
  have hwidth := h.width
  rw [Json.width] at hwidth
  omega

theorem IsDocument.number {n : ℤ} (h : IsDocument (.int n)) : -9007199254740991 ≤ n ∧ n ≤ 9007199254740991 := by
  have hsafe : n.natAbs ≤ maxSafeInteger := by
    have hvalid : validateValue 0 (.int n) = .ok () := h.valid
    simp only [validateValue, bind_eq_ok, conform_eq_ok] at hvalid
    obtain ⟨_, -, hsafe⟩ := hvalid
    exact hsafe
  have hmax : maxSafeInteger = 9007199254740991 := rfl
  omega

/-- Constants that are documents. -/
def DocumentConstants (limits : Limits) : Prop :=
  (∀ c ∈ limits.const, IsDocument c) ∧ ∀ cs ∈ limits.enum, ∀ c ∈ cs, IsDocument c

/-! ## Keywords without schemas -/

section
variable {limits : Limits} {v c : Json} {u : Unit}

theorem canonicalBytes_document (hv : IsDocument v) : canonicalBytes v = .ok (canonicalText v) :=
  canonicalBytes_eq_ok.mpr ⟨hv.valid, rfl⟩

theorem sameText_iff (hv : IsDocument v) (hc : IsDocument c) : canonicalText v = canonicalText c ↔ v.canon = c.canon :=
  canonicalText_injective hv.wf hc.wf

theorem requireConst_eq_ok {const : Option Json} (hv : IsDocument v) (hconst : ∀ c ∈ const, IsDocument c) :
    requireConst const v = .ok u ↔ ∀ c ∈ const, v.canon = c.canon := by
  cases const with
  | none => simp [requireConst, pure_eq_ok]
  | some c =>
    have hc := hconst c rfl
    simp only [requireConst, canonicalBytes_document hv, canonicalBytes_document hc, ok_bind, require_eq_ok, sameText_iff hv hc,
      Option.mem_def, Option.some.injEq, forall_eq']

omit [Runtime] in
theorem anyM_eq_ok {α : Type} {f : α → Py Bool} {g : α → Bool} {xs : List α} (h : ∀ x ∈ xs, f x = .ok (g x)) :
    xs.anyM f = .ok (xs.any g) := by
  induction xs with
  | nil => rfl
  | cons x xs ih =>
    rw [List.forall_mem_cons] at h
    rw [List.anyM, h.1, ok_bind, List.any_cons]
    cases g x with
    | true => rfl
    | false => exact ih h.2

theorem requireEnum_eq_ok {enum : Option (List Json)} (hv : IsDocument v) (henum : ∀ cs ∈ enum, ∀ c ∈ cs, IsDocument c) :
    requireEnum enum v = .ok u ↔ ∀ cs ∈ enum, ∃ c ∈ cs, v.canon = c.canon := by
  cases enum with
  | none => simp [requireEnum, pure_eq_ok]
  | some cs =>
    have hcs := henum cs rfl
    have hany : (cs.anyM fun c => do pure (decide ((← canonicalBytes v) = (← canonicalBytes c)))) =
        .ok (cs.any fun c => decide (canonicalText v = canonicalText c)) :=
      anyM_eq_ok fun c hc => by rw [canonicalBytes_document hv, canonicalBytes_document (hcs c hc)]; rfl
    simp only [requireEnum, hany, ok_bind, require_eq_ok, List.any_eq_true, decide_eq_true_eq, Option.mem_def, Option.some.injEq,
      forall_eq']
    exact exists_congr fun c => and_congr_right fun hc => sameText_iff hv (hcs c hc)

omit [Runtime] in
theorem requireType_eq_ok {type : Option Lib.Kind} : requireType type v = .ok u ↔ ∀ k ∈ type, k.Admits v = true := by
  cases type with
  | none => simp [requireType, pure_eq_ok]
  | some k => simp [requireType]

omit [Runtime] in
/-- A default bound that no document passes is no bound. -/
theorem getD_le_iff {α : Type} [LE α] {low x : α} {bound : Option α} (h : low ≤ x) :
    bound.getD low ≤ x ↔ ∀ n ∈ bound, n ≤ x := by
  cases bound <;> simp [h]

omit [Runtime] in
theorem le_getD_iff {α : Type} [LE α] {high x : α} {bound : Option α} (h : x ≤ high) :
    x ≤ bound.getD high ↔ ∀ n ∈ bound, x ≤ n := by
  cases bound <;> simp [h]

/-- Patterns are tried from end to end, which is what an anchored one asks. -/
def Anchored (limits : Limits) : Prop := ∀ p ∈ limits.pattern, p.start = true ∧ p.stop = true

theorem requireString_eq_ok (hv : IsDocument v) (hanchored : Anchored limits) : requireString limits v = .ok u ↔
    ∀ t, v = .str t → (∀ n ∈ limits.minLength, n ≤ t.length) ∧ (∀ n ∈ limits.maxLength, t.length ≤ n) ∧
      ∀ p ∈ limits.pattern, p.Found t := by
  cases v with
  | str t =>
    have hpattern : (match limits.pattern with
        | none => pure ()
        | some pattern => require "PROXY_STRING_INVALID" (pattern.body.fullmatch t)) = .ok u ↔ ∀ p ∈ limits.pattern, p.Found t := by
      cases hp : limits.pattern with
      | none => simp [pure_eq_ok]
      | some p =>
        obtain ⟨hstart, hstop⟩ := hanchored p hp
        simp [Pattern.found_of_anchored hstart hstop]
    simp only [requireString, bind_eq_ok, require_eq_ok, exists_const, hpattern, getD_le_iff (Nat.zero_le t.length),
      le_getD_iff hv.text, Json.str.injEq, forall_eq', and_assoc]
  | _ => simp [requireString, pure_eq_ok]

theorem requireNumber_eq_ok (hv : IsDocument v) : requireNumber limits v = .ok u ↔
    ∀ n, v = .int n → (∀ low ∈ limits.minimum, low ≤ n) ∧ ∀ high ∈ limits.maximum, n ≤ high := by
  cases v with
  | int n =>
    simp only [requireNumber, require_eq_ok, getD_le_iff hv.number.1, le_getD_iff hv.number.2, Json.int.injEq, forall_eq']
  | _ => simp [requireNumber, pure_eq_ok]

theorem requireArray_eq_ok {item : Json → Py Unit} {P : Json → Prop} (hv : IsDocument v)
    (hitem : ∀ w, IsDocument w → (item w = .ok u ↔ P w)) : requireArray limits item v = .ok u ↔
      (∀ vs, v = .arr vs → (∀ n ∈ limits.minItems, n ≤ vs.length) ∧ (∀ n ∈ limits.maxItems, vs.length ≤ n) ∧
        (limits.uniqueItems = some true → (vs.map Json.canon).Nodup)) ∧ ∀ vs, v = .arr vs → ∀ w ∈ vs, P w := by
  cases v with
  | arr vs =>
    have hvs := hv.items
    have hunique : limits.uniqueItems.getD false = true ↔ limits.uniqueItems = some true := by
      cases limits.uniqueItems <;> simp
    have hall : vs.forM item = .ok u ↔ ∀ w ∈ vs, P w := by
      rw [forM_eq_ok]
      exact forall₂_congr fun w hw => hitem w (hvs w hw)
    simp only [requireArray, bind_eq_ok, require_eq_ok, exists_const, hall, getD_le_iff (Nat.zero_le vs.length),
      le_getD_iff hv.array, requireUnique_eq_ok fun w hw => ⟨(hvs w hw).wf, (hvs w hw).valid⟩, hunique, Json.arr.injEq,
      forall_eq', and_assoc]
  | _ => simp [requireArray, pure_eq_ok]

end

/-! ## Refusals -/

section
variable {limits : Limits} {v : Json}

omit [Runtime] in
theorem conforms_requireType {type : Option Lib.Kind} : Conforms (requireType type v) := by
  cases type with
  | none => exact conforms_ok
  | some k => exact conforms_require

theorem conforms_requireConst {const : Option Json} : Conforms (requireConst const v) := by
  cases const with
  | none => exact conforms_ok
  | some c =>
    exact (conforms_canonicalBytes v).bind fun _ _ => (conforms_canonicalBytes c).bind fun _ _ => conforms_require

omit [Runtime] in
theorem conforms_anyM {α : Type} {f : α → Py Bool} {xs : List α} (h : ∀ x ∈ xs, Conforms (f x)) : Conforms (xs.anyM f) := by
  induction xs with
  | nil => exact conforms_ok
  | cons x xs ih =>
    rw [List.forall_mem_cons] at h
    rw [List.anyM]
    refine h.1.bind fun b _ => ?_
    cases b with
    | true => exact conforms_ok
    | false => exact ih h.2

theorem conforms_requireEnum {enum : Option (List Json)} : Conforms (requireEnum enum v) := by
  cases enum with
  | none => exact conforms_ok
  | some cs =>
    refine Conforms.bind (conforms_anyM fun c _ => ?_) fun _ _ => conforms_require
    exact (conforms_canonicalBytes v).bind fun _ _ => (conforms_canonicalBytes c).bind fun _ _ => conforms_ok

omit [Runtime] in
theorem conforms_requireString : Conforms (requireString limits v) := by
  cases v with
  | str t =>
    refine conforms_require.bind fun _ _ => ?_
    cases limits.pattern with
    | none => exact conforms_ok
    | some p => exact conforms_require
  | _ => exact conforms_ok

omit [Runtime] in
theorem conforms_requireNumber : Conforms (requireNumber limits v) := by
  cases v with
  | int n => exact conforms_require
  | _ => exact conforms_ok

theorem conforms_requireUnique {unique : Bool} {items : List Json} : Conforms (requireUnique unique items) := by
  unfold requireUnique
  split
  · exact (conforms_mapM fun v _ => conforms_canonicalBytes v).bind fun _ _ => conforms_require
  · exact conforms_ok

theorem conforms_requireArray {item : Json → Py Unit} (hv : IsDocument v) (hitem : ∀ w, IsDocument w → Conforms (item w)) :
    Conforms (requireArray limits item v) := by
  cases v with
  | arr vs =>
    exact conforms_require.bind fun _ _ => conforms_requireUnique.bind fun _ _ =>
      conforms_forM fun w hw => hitem w (hv.items w hw)
  | _ => exact conforms_ok

end

/-! ## The meaning of a specification -/

/-- What a table of keywords must be like for the evaluator to read it as the standard does. -/
structure Regular (s : Spec) : Prop where
  constants : DocumentConstants s.limits
  anchored : Anchored s.limits
  closed : s.properties ≠ none → s.limits.additionalProperties = some false
  open_ : s.properties = none → s.limits.required = none ∧ s.limits.additionalProperties = none

/-- On documents, `x` refuses in its own way only, and accepts what `P` says. -/
def Decides (x : Json → Py Unit) (P : Json → Prop) : Prop := ∀ v, IsDocument v → Conforms (x v) ∧ (x v = .ok () ↔ P v)

section
variable {look : String → Json → Py Unit} {ρ : String → Json → Prop}

theorem countSpec_eq {options : List Spec} (h : ∀ s ∈ options, Decides (shapeSpec look s) (s.Valid ρ)) {v : Json}
    (hv : IsDocument v) : ∃ n, countSpec look options v = .ok n ∧ (n = 0 ↔ Spec.ValidNone ρ options v) ∧
      (n = 1 ↔ Spec.ValidOne ρ options v) := by
  induction options with
  | nil => exact ⟨0, rfl, by simp [Spec.ValidNone], by simp [Spec.ValidOne]⟩
  | cons s options ih =>
    rw [List.forall_mem_cons] at h
    obtain ⟨n, hn, hnone, hone⟩ := ih h.2
    obtain ⟨hconforms, hs⟩ := h.1 v hv
    rw [Spec.ValidNone, Spec.ValidOne, ← hs, ← hnone, ← hone, countSpec]
    cases hshape : shapeSpec look s v with
    | ok u => exact ⟨n + 1, by rw [hn]; rfl, by simp, by simp⟩
    | error e =>
      obtain ⟨reason, message, rfl⟩ := hconforms e hshape
      exact ⟨n, hn, by simp, by simp⟩

theorem shapeProperty_decides {properties : List (String × Spec)} (h : ∀ p ∈ properties, Decides (shapeSpec look p.2) (p.2.Valid ρ))
    {k : String} (hk : k ∈ properties.map Prod.fst) : Decides (shapeProperty look properties k) (Spec.ValidAt ρ properties k) := by
  induction properties with
  | nil => cases hk
  | cons p properties ih =>
    obtain ⟨name, s⟩ := p
    rw [List.forall_mem_cons] at h
    intro v hv
    rw [shapeProperty, Spec.ValidAt]
    by_cases hname : k = name
    · rw [if_pos hname]
      simpa [hname] using h.1 v hv
    · rw [if_neg hname]
      have hrest : k ∈ properties.map Prod.fst := (List.mem_cons.mp hk).resolve_left hname
      simpa [hname] using ih h.2 hrest v hv

theorem requireRef_decides {ref : Option String} (h : ∀ r ∈ ref, ∃ name, Spec.pointer r = some name ∧ Decides (look name) (ρ name)) :
    Decides (requireRef look ref) fun v => ∀ r ∈ ref, ∃ name, Spec.pointer r = some name ∧ ρ name v := by
  intro v hv
  cases ref with
  | none => exact ⟨conforms_ok, by simp [requireRef, pure_eq_ok]⟩
  | some r =>
    obtain ⟨name, hname, hdecides⟩ := h r rfl
    simpa [requireRef, hname] using hdecides v hv

theorem shapeOneOf_decides {oneOf : Option (List Spec)}
    (h : ∀ options ∈ oneOf, ∀ s ∈ options, Decides (shapeSpec look s) (s.Valid ρ)) :
    Decides (shapeOneOf look oneOf) (Spec.ValidOneOf ρ oneOf) := by
  intro v hv
  cases oneOf with
  | none => exact ⟨conforms_ok, by simp [shapeOneOf, Spec.ValidOneOf, pure_eq_ok]⟩
  | some options =>
    obtain ⟨n, hn, -, hone⟩ := countSpec_eq (h options rfl) hv
    rw [shapeOneOf, Spec.ValidOneOf, hn, ok_bind, ← hone]
    exact ⟨conforms_require, require_eq_ok⟩

/-- What the object rules of the evaluator come to. -/
theorem shapeObject_decides {limits : Limits} {properties : Option (List (String × Spec))}
    (h : ∀ ps ∈ properties, ∀ p ∈ ps, Decides (shapeSpec look p.2) (p.2.Valid ρ))
    (hclosed : properties ≠ none → limits.additionalProperties = some false)
    (hopen : properties = none → limits.required = none ∧ limits.additionalProperties = none) :
    Decides (shapeObject look limits properties) fun v =>
      (∀ names ∈ limits.required, ∀ members, v = .obj members → ∀ name ∈ names, name ∈ Json.keys members) ∧
      ∀ members, v = .obj members → (∀ m ∈ members, Spec.ValidMember ρ properties m.1 m.2) ∧
        (limits.additionalProperties = some false → ∀ k ∈ Json.keys members, k ∈ (properties.getD []).map Prod.fst) := by
  intro v hv
  cases properties with
  | none =>
    obtain ⟨hrequired, hadditional⟩ := hopen rfl
    exact ⟨by cases v <;> exact conforms_ok,
      by cases v <;> simp [shapeObject, hrequired, hadditional, Spec.ValidMember, pure_eq_ok]⟩
  | some ps =>
    have hadditional := hclosed (Option.some_ne_none ps)
    cases v with
    | obj members =>
      have hmember (hkeys : ∀ k ∈ Json.keys members, k ∈ ps.map Prod.fst) (m : String × Json) (hm : m ∈ members) :
          Conforms (shapeProperty look ps m.1 m.2) ∧
            (shapeProperty look ps m.1 m.2 = .ok () ↔ Spec.ValidAt ρ ps m.1 m.2) :=
        shapeProperty_decides (h ps rfl) (hkeys m.1 (List.mem_map_of_mem hm)) m.2 (hv.members m hm)
      constructor
      · refine conforms_require.bind fun _ _ => conforms_require.bind fun _ hknown => conforms_forM fun m hm => ?_
        exact (hmember (require_eq_ok.mp hknown).2 m hm).1
      · simp only [shapeObject, bind_eq_ok, require_eq_ok, exists_const, forM_eq_ok, hadditional, true_and, Json.obj.injEq,
          forall_eq', Spec.ValidMember, Option.getD_some, forall_const]
        have hrequired : (∀ k ∈ limits.required.getD [], k ∈ Json.keys members) ↔
            ∀ names ∈ limits.required, ∀ name ∈ names, name ∈ Json.keys members := by
          cases limits.required <;> simp
        rw [hrequired]
        refine and_congr_right fun _ => ?_
        constructor
        · rintro ⟨hkeys, hall⟩
          exact ⟨fun m hm => (hmember hkeys m hm).2.mp (hall m hm), hkeys⟩
        · rintro ⟨hall, hkeys⟩
          exact ⟨hkeys, fun m hm => (hmember hkeys m hm).2.mpr (hall m hm)⟩
    | _ => exact ⟨conforms_ok, by simp [shapeObject, pure_eq_ok]⟩

theorem shapeItem_decides {items : Option Spec} (h : ∀ s ∈ items, Decides (shapeSpec look s) (s.Valid ρ)) :
    Decides (shapeItem look items) (Spec.ValidItem ρ items) := by
  intro v hv
  cases items with
  | none => exact ⟨conforms_ok, by simp [shapeItem, Spec.ValidItem, pure_eq_ok]⟩
  | some s => exact h s rfl v hv

/-- The evaluator decides the meaning of a schema, once it decides that of the names in it. -/
theorem shapeSpec_decides {spec : Spec} (hregular : ∀ t ∈ spec.nodes, Regular t)
    (hlook : ∀ r ∈ spec.refs, ∃ name, Spec.pointer r = some name ∧ Decides (look name) (ρ name)) :
    Decides (shapeSpec look spec) (spec.Valid ρ) := by
  induction spec with
  | mk ref oneOf properties items limits ihOneOf ihProperties ihItems =>
    have hsub {s : Spec} (hs : s.nodes ⊆ (Spec.mk ref oneOf properties items limits).nodes)
        (ih : (∀ t ∈ s.nodes, Regular t) → (∀ r ∈ s.refs, ∃ name, Spec.pointer r = some name ∧ Decides (look name) (ρ name)) →
          Decides (shapeSpec look s) (s.Valid ρ)) : Decides (shapeSpec look s) (s.Valid ρ) :=
      ih (fun t ht => hregular t (hs ht)) fun r hr => hlook r (Spec.refs_subset hs hr)
    have hself := hregular _ (Spec.nodes_self _)
    have href := requireRef_decides fun r hr => hlook r (Spec.mem_refs hr)
    have hone := shapeOneOf_decides fun options ho s hs => hsub (Spec.nodes_oneOf ho hs) (ihOneOf options ho s hs)
    have hobject := @shapeObject_decides _ look ρ limits properties
      (fun ps hps p hp => hsub (Spec.nodes_properties hps hp) (ihProperties ps hps p hp)) hself.closed hself.open_
    have hitem := shapeItem_decides fun s hs => hsub (Spec.nodes_items hs) (ihItems s hs)
    intro v hv
    constructor
    · rw [shapeSpec]
      exact (href v hv).1.bind fun _ _ => (hone v hv).1.bind fun _ _ => conforms_requireType.bind fun _ _ =>
        conforms_requireConst.bind fun _ _ => conforms_requireEnum.bind fun _ _ => (hobject v hv).1.bind fun _ _ =>
        (conforms_requireArray hv fun w hw => (hitem w hw).1).bind fun _ _ => conforms_requireString.bind fun _ _ =>
        conforms_requireNumber
    · have hconst : requireConst limits.const v = .ok () ↔ _ := requireConst_eq_ok hv hself.constants.1
      have henum : requireEnum limits.enum v = .ok () ↔ _ := requireEnum_eq_ok hv hself.constants.2
      have htext : requireString limits v = .ok () ↔ _ := requireString_eq_ok hv hself.anchored
      have hnumber : requireNumber limits v = .ok () ↔ _ := requireNumber_eq_ok hv
      have harray : requireArray limits (fun w => shapeItem look items w) v = .ok () ↔ _ :=
        requireArray_eq_ok hv fun w hw => (hitem w hw).2
      rw [shapeSpec, Spec.Valid]
      simp only [bind_eq_ok, exists_const, (href v hv).2, (hone v hv).2, requireType_eq_ok, hconst, henum, (hobject v hv).2,
        harray, htext, hnumber]
      constructor
      · rintro ⟨hr, ho, ht, hc, he, ⟨hreq, hm⟩, ⟨ha, hi⟩, hs, hn⟩
        exact ⟨hr, ho, ⟨ht, hc, he, hreq, ha, hs, hn⟩, hm, hi⟩
      · rintro ⟨hr, ho, ⟨ht, hc, he, hreq, ha, hs, hn⟩, hm, hi⟩
        exact ⟨hr, ho, ht, hc, he, ⟨hreq, hm⟩, ⟨ha, hi⟩, hs, hn⟩

/-- So does a definition, once the calls left are enough for the references that it leads to. -/
theorem shapeDefinition_decides {definitions : List (String × Spec)} {ρ : String → Json → Prop}
    (hreads : Spec.Reads definitions ρ) (hregular : ∀ p ∈ definitions, ∀ t ∈ p.2.nodes, Regular t) {n : ℕ} {rs : List String}
    (hground : Spec.grounded definitions n rs = true) {depth : ℕ} (hdepth : n ≤ depth) :
    ∀ r ∈ rs, ∃ name, Spec.pointer r = some name ∧ Decides (shapeDefinition definitions depth name) (ρ name) := by
  induction n generalizing rs depth with
  | zero =>
    obtain rfl := List.isEmpty_iff.mp hground
    simp
  | succ n ih =>
    intro r hr
    obtain ⟨depth, rfl⟩ := Nat.exists_eq_add_one_of_ne_zero (Nat.ne_zero_of_lt hdepth)
    obtain ⟨name, s, hname, hlookup, hs⟩ := Spec.grounded_succ.mp hground r hr
    have hspec := shapeSpec_decides (hregular _ (Spec.mem_of_lookup hlookup)) (ih hs (Nat.le_of_succ_le_succ hdepth))
    refine ⟨name, hname, fun v hv => ?_⟩
    rw [hreads name s hlookup v, shapeDefinition, hlookup]
    exact hspec v hv

end

end HarnessConformance.Admission
