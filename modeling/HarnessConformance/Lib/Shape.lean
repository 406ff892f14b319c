import HarnessConformance.Lib.Json
import HarnessConformance.Lib.Regex

/-! # Closed shapes of JSON values

A shape is a schema with closed objects whose members are all required; `Accepts` is its meaning.
Equality with a constant is equality of documents, so member order does not count. -/

namespace HarnessConformance.Lib
set_option autoImplicit false

inductive Shape where
  | any
  | null
  | const (value : Json)
  | enum (values : List Json)
  | text (low high : ℕ) (pattern : Option Regex)
  | int (low high : ℤ)
  | arr (low high : ℕ) (unique : Bool) (items : Shape)
  | obj (properties : List (String × Shape))
  | oneOf (options : List Shape)

namespace Shape

/-- Induction through the lists nested in a shape. -/
@[elab_as_elim, induction_eliminator]
theorem induct {P : Shape → Prop} (any : P any) (null : P null) (const : ∀ c, P (const c)) (enum : ∀ cs, P (enum cs))
    (text : ∀ low high pattern, P (text low high pattern)) (int : ∀ low high, P (int low high))
    (arr : ∀ low high unique items, P items → P (arr low high unique items))
    (obj : ∀ properties : List (String × Shape), (∀ p ∈ properties, P p.2) → P (obj properties))
    (oneOf : ∀ options : List Shape, (∀ s ∈ options, P s) → P (oneOf options)) (s : Shape) : P s := by
  refine Shape.rec (motive_1 := P) (motive_2 := fun properties => ∀ p ∈ properties, P p.2)
    (motive_3 := fun options => ∀ s ∈ options, P s) (motive_4 := fun p => P p.2)
    any null const enum text int arr obj oneOf ?_ ?_ ?_ ?_ ?_ s
  · simp
  · intro p ps hp hps
    exact List.forall_mem_cons.mpr ⟨hp, hps⟩
  · simp
  · intro s ss hs hss
    exact List.forall_mem_cons.mpr ⟨hs, hss⟩
  · intro _ _ hs
    exact hs

/-! ## Constants -/

mutual
/-- The constants a shape compares with. -/
def constants : Shape → List Json
  | const c => [c]
  | enum cs => cs
  | arr _ _ _ items => items.constants
  | obj properties => propertyConstants properties
  | oneOf options => optionConstants options
  | _ => []
def propertyConstants : List (String × Shape) → List Json
  | [] => []
  | (_, s) :: properties => s.constants ++ propertyConstants properties
def optionConstants : List Shape → List Json
  | [] => []
  | s :: options => s.constants ++ optionConstants options
end

attribute [grind =] constants propertyConstants optionConstants

theorem mem_propertyConstants {properties : List (String × Shape)} {p : String × Shape} (hp : p ∈ properties) {c : Json}
    (hc : c ∈ p.2.constants) : c ∈ propertyConstants properties := by
  induction properties with
  | nil => cases hp
  | cons q properties ih =>
    rw [propertyConstants, List.mem_append]
    rcases List.mem_cons.mp hp with rfl | hp
    · exact .inl hc
    · exact .inr (ih hp)

theorem mem_optionConstants {options : List Shape} {s : Shape} (hs : s ∈ options) {c : Json} (hc : c ∈ s.constants) :
    c ∈ optionConstants options := by
  induction options with
  | nil => cases hs
  | cons t options ih =>
    rw [optionConstants, List.mem_append]
    rcases List.mem_cons.mp hs with rfl | hs
    · exact .inl hc
    · exact .inr (ih hs)

/-! ## Meaning -/

mutual
def Accepts : Shape → Json → Prop
  | any, _ => True
  | null, v => v = .null
  | const c, v => v.canon = c.canon
  | enum cs, v => ∃ c ∈ cs, v.canon = c.canon
  | text low high pattern, v =>
    ∃ t, v = .str t ∧ low ≤ t.length ∧ t.length ≤ high ∧ ∀ r ∈ pattern, r.fullmatch t = true
  | int low high, v => ∃ n, v = .int n ∧ low ≤ n ∧ n ≤ high
  | arr low high unique items, v => ∃ vs, v = .arr vs ∧ low ≤ vs.length ∧ vs.length ≤ high ∧
      (unique = true → (vs.map Json.canon).Nodup) ∧ ∀ w ∈ vs, items.Accepts w
  | obj properties, v => ∃ members, v = .obj members ∧ (∀ k, k ∈ Json.keys members ↔ k ∈ properties.map Prod.fst) ∧
      ∀ m ∈ members, AcceptsAt properties m.1 m.2
  | oneOf options, v => AcceptsOne options v
/-- The value is one the first property of that name accepts. -/
def AcceptsAt : List (String × Shape) → String → Json → Prop
  | [], _, _ => False
  | (name, s) :: properties, k, v => (k = name ∧ s.Accepts v) ∨ (k ≠ name ∧ AcceptsAt properties k v)
def AcceptsNone : List Shape → Json → Prop
  | [], _ => True
  | s :: options, v => ¬ s.Accepts v ∧ AcceptsNone options v
/-- Exactly one of the options accepts the value. -/
def AcceptsOne : List Shape → Json → Prop
  | [], _ => False
  | s :: options, v => (s.Accepts v ∧ AcceptsNone options v) ∨ (¬ s.Accepts v ∧ AcceptsOne options v)
end

attribute [grind =] Accepts AcceptsAt AcceptsNone AcceptsOne

theorem acceptsAt_iff {properties : List (String × Shape)} {k : String} {v : Json} :
    AcceptsAt properties k v ↔ ∃ s, properties.lookup k = some s ∧ s.Accepts v := by
  induction properties with
  | nil => simp [AcceptsAt]
  | cons p properties ih =>
    obtain ⟨name, s⟩ := p
    rw [AcceptsAt, ih, List.lookup_cons]
    by_cases hk : k = name
    · simp [hk]
    · simp [hk, beq_false_of_ne hk]

theorem acceptsNone_iff {options : List Shape} {v : Json} : AcceptsNone options v ↔ ∀ s ∈ options, ¬ s.Accepts v := by
  induction options with
  | nil => simp [AcceptsNone]
  | cons s options ih => rw [AcceptsNone, ih, List.forall_mem_cons]

theorem AcceptsOne.exists {options : List Shape} {v : Json} (h : AcceptsOne options v) : ∃ s ∈ options, s.Accepts v := by
  induction options with
  | nil => exact h.elim
  | cons s options ih =>
    rcases h with ⟨hs, -⟩ | ⟨-, hrest⟩
    · exact ⟨s, List.mem_cons_self, hs⟩
    · obtain ⟨t, ht, haccepts⟩ := ih hrest
      exact ⟨t, List.mem_cons_of_mem _ ht, haccepts⟩

/-! ## Members and items -/

theorem mem_of_lookup {properties : List (String × Shape)} {k : String} {s : Shape} (h : properties.lookup k = some s) :
    (k, s) ∈ properties := by
  obtain ⟨before, after, rfl, -⟩ := List.lookup_eq_some_iff.mp h
  simp

theorem lookup_of_mem {properties : List (String × Shape)} (hnd : (properties.map Prod.fst).Nodup) {k : String} {s : Shape}
    (h : (k, s) ∈ properties) : properties.lookup k = some s := by
  obtain ⟨before, after, rfl⟩ := List.append_of_mem h
  refine List.lookup_eq_some_iff.mpr ⟨before, after, rfl, fun p hp => ?_⟩
  rw [List.map_append, List.map_cons, List.nodup_append] at hnd
  have hne := hnd.2.2 p.1 (List.mem_map_of_mem hp) k List.mem_cons_self
  simpa using Ne.symm hne

/-- An accepted object holds every property, each as its shape says. -/
theorem Accepts.get? {properties : List (String × Shape)} {v : Json} (h : (obj properties).Accepts v) {k : String} {s : Shape}
    (hs : properties.lookup k = some s) : ∃ w, v.get? k = some w ∧ s.Accepts w := by
  obtain ⟨members, rfl, hkeys, hall⟩ := h
  have hmem : k ∈ Json.keys members := (hkeys k).mpr (List.mem_map_of_mem (mem_of_lookup hs))
  obtain ⟨w, hw⟩ := Option.isSome_iff_exists.mp (Json.lookup_isSome.mpr hmem)
  obtain ⟨t, ht, haccepts⟩ := acceptsAt_iff.mp (hall _ (Json.lookup_mem hw))
  rw [hs] at ht
  exact ⟨w, hw, Option.some.inj ht ▸ haccepts⟩

/-- An object written member by member. -/
theorem accepts_obj {properties : List (String × Shape)} {members : Json.Members} (hnd : (properties.map Prod.fst).Nodup)
    (h : List.Forall₂ (fun p m => p.1 = m.1 ∧ p.2.Accepts m.2) properties members) : (obj properties).Accepts (.obj members) := by
  have hkeys : Json.keys members = properties.map Prod.fst := by
    clear hnd
    induction h with
    | nil => rfl
    | cons hhead _ ih =>
      rw [List.map_cons, ← ih, hhead.1]
      rfl
  refine ⟨members, rfl, fun k => by rw [hkeys], fun m hm => acceptsAt_iff.mpr ?_⟩
  obtain ⟨i, hi, rfl⟩ := List.mem_iff_getElem.mp hm
  have hlength := h.length_eq
  obtain ⟨hname, haccepts⟩ := List.forall₂_iff_get.mp h |>.2 i (hlength ▸ hi) hi
  refine ⟨_, lookup_of_mem hnd ?_, haccepts⟩
  rw [List.get_eq_getElem, List.get_eq_getElem] at *
  rw [← hname]
  exact List.getElem_mem _

/-- Some members of an accepted object may hold anything else their shapes accept. -/
theorem Accepts.replace {properties : List (String × Shape)} {ms ms' ns : Json.Members}
    (h : (obj properties).Accepts (.obj (ms ++ ns))) (hkeys : Json.keys ms' = Json.keys ms)
    (hms : ∀ m ∈ ms', ∃ s, properties.lookup m.1 = some s ∧ s.Accepts m.2) : (obj properties).Accepts (.obj (ms' ++ ns)) := by
  obtain ⟨_, ⟨⟩, hall, hmembers⟩ := h
  refine ⟨_, rfl, fun k => ?_, fun m hm => ?_⟩
  · rw [← hall k, Json.keys, Json.keys, List.map_append, List.map_append, ← Json.keys, hkeys, Json.keys]
  · rcases List.mem_append.mp hm with hm | hm
    · exact acceptsAt_iff.mpr (hms m hm)
    · exact hmembers m (List.mem_append_right ms hm)

/-! ## Constants and member order -/

theorem accepts_str {c : String} {v : Json} : (const (.str c)).Accepts v ↔ v = .str c := by
  cases v <;> simp [Accepts, Json.canon]

theorem accepts_int {c : ℤ} {v : Json} : (const (.int c)).Accepts v ↔ v = .int c := by
  cases v <;> simp [Accepts, Json.canon]

theorem accepts_bool {c : Bool} {v : Json} : (const (.bool c)).Accepts v ↔ v = .bool c := by
  cases v <;> simp [Accepts, Json.canon]

theorem accepts_enum {names : List String} {v : Json} :
    (enum (names.map .str)).Accepts v ↔ ∃ name ∈ names, v = .str name := by
  constructor
  · rintro ⟨c, hc, hcanon⟩
    obtain ⟨name, hname, rfl⟩ := List.mem_map.mp hc
    exact ⟨name, hname, accepts_str.mp hcanon⟩
  · rintro ⟨name, hname, rfl⟩
    exact ⟨_, List.mem_map_of_mem hname, rfl⟩

theorem acceptsOne_congr {options : List Shape} {v w : Json} (h : ∀ s ∈ options, s.Accepts v ↔ s.Accepts w) :
    AcceptsOne options v ↔ AcceptsOne options w := by
  induction options with
  | nil => rfl
  | cons s options ih =>
    rw [List.forall_mem_cons] at h
    have hnone : AcceptsNone options v ↔ AcceptsNone options w := by
      rw [acceptsNone_iff, acceptsNone_iff]
      exact forall₂_congr fun t ht => not_congr (h.2 t ht)
    rw [AcceptsOne, AcceptsOne, h.1, hnone, ih h.2]

/-- The order of members does not matter to a shape. -/
theorem accepts_canon {s : Shape} {v : Json} : s.Accepts v.canon ↔ s.Accepts v := by
  induction s generalizing v with
  | any => rfl
  | null => cases v <;> simp [Accepts, Json.canon]
  | const c => simp only [Accepts, Json.canon_canon]
  | enum cs => simp only [Accepts, Json.canon_canon]
  | text low high pattern => cases v <;> simp [Accepts, Json.canon]
  | int low high => cases v <;> simp [Accepts, Json.canon]
  | arr low high unique items ih =>
    cases v with
    | arr vs =>
      simp only [Accepts, Json.canon_arr, Json.arr.injEq, exists_eq_left', List.length_map, List.map_map, List.forall_mem_map, ih]
      have hcanon : Json.canon ∘ Json.canon = Json.canon := funext Json.canon_canon
      rw [hcanon]
    | _ => simp [Accepts, Json.canon]
  | obj properties ih =>
    cases v with
    | obj members =>
      have hkeys (k : String) : k ∈ Json.keys (Json.sortMembers (members.map Json.canonMember)) ↔ k ∈ Json.keys members := by
        rw [Json.keys, ((Json.sortMembers_perm _).map Prod.fst).mem_iff, ← Json.keys, Json.keys_canonMember]
      have hat (m : String × Json) : AcceptsAt properties m.1 m.2.canon ↔ AcceptsAt properties m.1 m.2 := by
        rw [acceptsAt_iff, acceptsAt_iff]
        exact exists_congr fun s => and_congr_right fun hs => ih _ (mem_of_lookup hs)
      have hmem (m : String × Json) : m ∈ Json.sortMembers (members.map Json.canonMember) ↔ m ∈ members.map Json.canonMember :=
        (Json.sortMembers_perm _).mem_iff
      simp only [Accepts, Json.canon_obj, Json.obj.injEq, exists_eq_left', hkeys, hmem, List.forall_mem_map, Json.canonMember, hat]
    | arr vs => simp [Accepts, Json.canon_arr]
    | _ => rfl
  | oneOf options ih =>
    rw [Accepts, Accepts]
    exact acceptsOne_congr fun s hs => ih s hs

/-- A dictionary is accepted field by field. -/
theorem accepts_obj_iff {properties : List (String × Shape)} (hnd : (properties.map Prod.fst).Nodup) {v : Json} (hv : v.Wf) :
    (obj properties).Accepts v ↔ (∃ members, v = .obj members ∧ ∀ k, k ∈ Json.keys members ↔ k ∈ properties.map Prod.fst) ∧
      ∀ p ∈ properties, ∃ w, v.get? p.1 = some w ∧ p.2.Accepts w := by
  constructor
  · intro h
    obtain ⟨members, rfl, hkeys, -⟩ := id h
    exact ⟨⟨members, rfl, hkeys⟩, fun p hp => h.get? (lookup_of_mem hnd hp)⟩
  · rintro ⟨⟨members, rfl, hkeys⟩, hall⟩
    refine ⟨members, rfl, hkeys, fun m hm => acceptsAt_iff.mpr ?_⟩
    obtain ⟨p, hp, hname⟩ := List.mem_map.mp ((hkeys m.1).mp (List.mem_map_of_mem hm))
    obtain ⟨w, hw, haccepts⟩ := hall p hp
    rw [hname] at hw
    obtain rfl := Option.some.inj (hw.symm.trans (Json.lookup_of_mem (Json.wf_obj.mp hv).1 hm))
    exact ⟨p.2, lookup_of_mem hnd (hname ▸ hp), haccepts⟩

theorem acceptsNone_map {α : Type} {f : α → Shape} {xs : List α} {v : Json} :
    AcceptsNone (xs.map f) v ↔ ∀ x ∈ xs, ¬ (f x).Accepts v := by
  rw [acceptsNone_iff, List.forall_mem_map]

/-- One option that accepts, where no other does. -/
theorem acceptsOne_map {α : Type} {f : α → Shape} {xs : List α} (hnd : xs.Nodup) {x : α} (hx : x ∈ xs) {v : Json}
    (h : (f x).Accepts v) (hother : ∀ y, y ≠ x → ¬ (f y).Accepts v) : AcceptsOne (xs.map f) v := by
  induction xs with
  | nil => cases hx
  | cons y xs ih =>
    rw [List.nodup_cons] at hnd
    rw [List.map_cons, AcceptsOne]
    rcases List.mem_cons.mp hx with rfl | hx
    · exact .inl ⟨h, acceptsNone_map.mpr fun z hz => hother z fun heq => hnd.1 (heq ▸ hz)⟩
    · exact .inr ⟨hother y fun heq => hnd.1 (heq ▸ hx), ih hnd.2 hx⟩

end Shape
end HarnessConformance.Lib
