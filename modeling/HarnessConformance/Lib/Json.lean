import Mathlib

/-! # JSON values without fractions

An object is a list of members in insertion order; it denotes a dictionary when its keys are
distinct (`Wf`). `canon` puts the members of every object in key order, so two dictionaries are
equal up to member order exactly when their `canon` agree. -/

namespace HarnessConformance.Lib
set_option autoImplicit false

inductive Json where
  | null
  | bool (b : Bool)
  | int (n : Int)
  | str (s : String)
  | arr (items : List Json)
  | obj (members : List (String × Json))

namespace Json

abbrev Members := List (String × Json)

/-- Induction through the lists nested in a value. -/
@[elab_as_elim, induction_eliminator]
theorem induct {P : Json → Prop} (null : P null) (bool : ∀ b, P (bool b)) (int : ∀ n, P (int n))
    (str : ∀ s, P (str s)) (arr : ∀ items, (∀ v ∈ items, P v) → P (arr items))
    (obj : ∀ members : Members, (∀ m ∈ members, P m.2) → P (obj members)) (v : Json) : P v := by
  refine Json.rec (motive_1 := P) (motive_2 := fun items => ∀ v ∈ items, P v)
    (motive_3 := fun members => ∀ m ∈ members, P m.2) (motive_4 := fun m => P m.2)
    null bool int str arr obj ?_ ?_ ?_ ?_ ?_ v
  · simp
  · intro v vs hv hvs
    exact List.forall_mem_cons.mpr ⟨hv, hvs⟩
  · simp
  · intro m ms hm hms
    exact List.forall_mem_cons.mpr ⟨hm, hms⟩
  · intro _ _ hv
    exact hv

/-! ## Decidable equality -/

mutual
def beq : Json → Json → Bool
  | null, null => true
  | bool a, bool b => a == b
  | int a, int b => a == b
  | str a, str b => a == b
  | arr a, arr b => beqItems a b
  | obj a, obj b => beqMembers a b
  | _, _ => false
def beqItems : List Json → List Json → Bool
  | [], [] => true
  | v :: vs, w :: ws => beq v w && beqItems vs ws
  | _, _ => false
def beqMembers : Members → Members → Bool
  | [], [] => true
  | (k, v) :: ms, (l, w) :: ns => k == l && beq v w && beqMembers ms ns
  | _, _ => false
end

theorem beqItems_iff {vs ws : List Json} (h : ∀ v ∈ vs, ∀ w, beq v w = true ↔ v = w) :
    beqItems vs ws = true ↔ vs = ws := by
  induction vs generalizing ws with
  | nil => cases ws <;> simp [beqItems]
  | cons v vs ih =>
    rw [List.forall_mem_cons] at h
    cases ws with
    | nil => simp [beqItems]
    | cons w ws => simp [beqItems, h.1, ih h.2]

theorem beqMembers_iff {ms ns : Members} (h : ∀ m ∈ ms, ∀ w, beq m.2 w = true ↔ m.2 = w) :
    beqMembers ms ns = true ↔ ms = ns := by
  induction ms generalizing ns with
  | nil => cases ns <;> simp [beqMembers]
  | cons m ms ih =>
    rw [List.forall_mem_cons] at h
    cases ns with
    | nil => simp [beqMembers]
    | cons n ns => simp [beqMembers, h.1, ih h.2, Prod.ext_iff]

theorem beq_iff {v w : Json} : beq v w = true ↔ v = w := by
  induction v generalizing w with
  | null => cases w <;> simp [beq]
  | bool b => cases w <;> simp [beq]
  | int n => cases w <;> simp [beq]
  | str s => cases w <;> simp [beq]
  | arr items ih =>
    cases w <;> simp [beq]
    exact beqItems_iff fun v hv w => ih v hv
  | obj members ih =>
    cases w <;> simp [beq]
    exact beqMembers_iff fun m hm w => ih m hm

instance : DecidableEq Json := fun v w => decidable_of_iff (beq v w = true) beq_iff

instance : LawfulBEq (List Json) := inferInstance

/-! ## Members -/

def keys (members : Members) : List String := members.map Prod.fst

/-- `value[key]` where it exists. -/
def get? : Json → String → Option Json
  | obj members, k => members.lookup k
  | _, _ => none

theorem lookup_mem {members : Members} {k : String} {v : Json} (h : members.lookup k = some v) :
    (k, v) ∈ members := by
  induction members with
  | nil => cases h
  | cons m members ih =>
    obtain ⟨l, w⟩ := m
    rw [List.lookup_cons] at h
    split at h
    · simp_all
    · exact List.mem_cons_of_mem _ (ih h)

theorem lookup_of_mem {members : Members} (hnd : (keys members).Nodup) {k : String} {v : Json}
    (h : (k, v) ∈ members) : members.lookup k = some v := by
  induction members with
  | nil => cases h
  | cons m members ih =>
    obtain ⟨l, w⟩ := m
    rw [keys, List.map_cons, List.nodup_cons] at hnd
    rw [List.lookup_cons]
    rcases List.mem_cons.mp h with heq | hmem
    · simp_all
    · have hne : k ≠ l := by
        rintro rfl
        exact hnd.1 (List.mem_map.mpr ⟨(k, v), hmem, rfl⟩)
      have hne' : (k == l) = false := by simpa using hne
      simp only [hne']
      exact ih hnd.2 hmem

theorem lookup_isSome {members : Members} {k : String} : (members.lookup k).isSome ↔ k ∈ keys members := by
  induction members with
  | nil => simp [keys]
  | cons m members ih =>
    obtain ⟨l, w⟩ := m
    rw [List.lookup_cons, keys, List.map_cons, List.mem_cons]
    by_cases hkl : k = l
    · simp [hkl]
    · have hne' : (k == l) = false := by simpa using hkl
      simp only [hne', hkl, false_or]
      exact ih

/-! ## Well-formed values -/

mutual
def Wf : Json → Prop
  | arr items => WfItems items
  | obj members => (keys members).Nodup ∧ WfMembers members
  | _ => True
def WfItems : List Json → Prop
  | [] => True
  | v :: vs => Wf v ∧ WfItems vs
def WfMembers : Members → Prop
  | [] => True
  | (_, v) :: ms => Wf v ∧ WfMembers ms
end

attribute [grind =] Wf WfItems WfMembers

@[simp] theorem wfItems_iff {items : List Json} : WfItems items ↔ ∀ v ∈ items, Wf v := by
  induction items with
  | nil => simp [WfItems]
  | cons v vs ih => simp [WfItems, ih]

@[simp] theorem wfMembers_iff {members : Members} : WfMembers members ↔ ∀ m ∈ members, Wf m.2 := by
  induction members with
  | nil => simp [WfMembers]
  | cons m ms ih => simp [WfMembers, ih]

theorem wf_null : Wf null := trivial

theorem wf_int (n : ℤ) : Wf (int n) := trivial

theorem wf_str (s : String) : Wf (str s) := trivial

theorem wf_arr {items : List Json} : Wf (arr items) ↔ ∀ v ∈ items, Wf v := by
  rw [Wf, wfItems_iff]

theorem wf_obj {members : Members} :
    Wf (obj members) ↔ (keys members).Nodup ∧ ∀ m ∈ members, Wf m.2 := by
  rw [Wf, wfMembers_iff]

mutual
def decidableWf : (v : Json) → Decidable (Wf v)
  | arr items => decidableWfItems items
  | obj members =>
    have := decidableWfMembers members
    inferInstanceAs (Decidable ((keys members).Nodup ∧ WfMembers members))
  | null | bool _ | int _ | str _ => inferInstanceAs (Decidable True)
def decidableWfItems : (items : List Json) → Decidable (WfItems items)
  | [] => inferInstanceAs (Decidable True)
  | v :: vs =>
    have := decidableWf v
    have := decidableWfItems vs
    inferInstanceAs (Decidable (Wf v ∧ WfItems vs))
def decidableWfMembers : (members : Members) → Decidable (WfMembers members)
  | [] => inferInstanceAs (Decidable True)
  | (_, v) :: ms =>
    have := decidableWf v
    have := decidableWfMembers ms
    inferInstanceAs (Decidable (Wf v ∧ WfMembers ms))
end

instance (v : Json) : Decidable (Wf v) := decidableWf v

theorem Wf.get? {v w : Json} {k : String} (h : v.Wf) (hk : v.get? k = some w) : w.Wf := by
  cases v with
  | obj members => exact (wf_obj.mp h).2 _ (lookup_mem hk)
  | _ => cases hk

/-! ## Key order -/

def sortMembers (members : Members) : Members := members.insertionSort fun a b => a.1 ≤ b.1

mutual
def canon : Json → Json
  | null => null
  | bool b => bool b
  | int n => int n
  | str s => str s
  | arr items => arr (canonItems items)
  | obj members => obj (sortMembers (canonMembers members))
def canonItems : List Json → List Json
  | [] => []
  | v :: vs => canon v :: canonItems vs
def canonMembers : Members → Members
  | [] => []
  | (k, v) :: ms => (k, canon v) :: canonMembers ms
end

attribute [grind =] canon canonItems canonMembers

def canonMember (m : String × Json) : String × Json := (m.1, canon m.2)

theorem canonItems_eq (items : List Json) : canonItems items = items.map canon := by
  induction items with
  | nil => rfl
  | cons v vs ih => rw [canonItems, ih, List.map_cons]

theorem canonMembers_eq (members : Members) : canonMembers members = members.map canonMember := by
  induction members with
  | nil => rfl
  | cons m ms ih => rw [canonMembers, ih, List.map_cons, canonMember]

@[simp] theorem canon_arr (items : List Json) : canon (arr items) = arr (items.map canon) := by
  rw [canon, canonItems_eq]

@[simp] theorem canon_obj (members : Members) :
    canon (obj members) = obj (sortMembers (members.map canonMember)) := by
  rw [canon, canonMembers_eq]

theorem sortMembers_perm (members : Members) : (sortMembers members).Perm members :=
  List.perm_insertionSort _ members

theorem sortMembers_sorted (members : Members) : (sortMembers members).Pairwise fun a b => a.1 ≤ b.1 := by
  have htotal : Std.Total (fun a b : String × Json => a.1 ≤ b.1) := ⟨fun a b => le_total a.1 b.1⟩
  have htrans : IsTrans (String × Json) (fun a b => a.1 ≤ b.1) := ⟨fun _ _ _ h h' => le_trans h h'⟩
  exact List.pairwise_insertionSort _ members

theorem sortMembers_of_sorted {members : Members} (h : members.Pairwise fun a b => a.1 ≤ b.1) :
    sortMembers members = members :=
  h.insertionSort_eq

theorem keys_canonMember (members : Members) : keys (members.map canonMember) = keys members := by
  simp [keys, canonMember, Function.comp_def]

theorem keys_map (names : List String) (f : String → Json) : keys (names.map fun name => (name, f name)) = names := by
  simp [keys, Function.comp_def]

theorem Nodup.keys_perm {ms ns : Members} (h : ms.Perm ns) (hnd : (keys ms).Nodup) : (keys ns).Nodup :=
  (h.map Prod.fst).nodup_iff.mp hnd

/-- Sorting forgets the order of members with distinct keys, and nothing else. -/
theorem sortMembers_eq_of_perm {ms ns : Members} (h : ms.Perm ns) (hnd : (keys ms).Nodup) :
    sortMembers ms = sortMembers ns := by
  have hp : (sortMembers ms).Perm (sortMembers ns) :=
    (sortMembers_perm ms).trans (h.trans (sortMembers_perm ns).symm)
  refine List.Perm.eq_of_pairwise ?_ (sortMembers_sorted ms) (sortMembers_sorted ns) hp
  intro a b ha hb hab hba
  have ha' : a ∈ ms := (sortMembers_perm ms).mem_iff.mp ha
  have hb' : b ∈ ms := h.mem_iff.mpr ((sortMembers_perm ns).mem_iff.mp hb)
  exact List.inj_on_of_nodup_map hnd ha' hb' (le_antisymm hab hba)

theorem canon_canon (v : Json) : canon (canon v) = canon v := by
  induction v with
  | arr items ih =>
    rw [canon_arr, canon_arr, List.map_map]
    exact congrArg arr (List.map_congr_left fun v hv => ih v hv)
  | obj members ih =>
    rw [canon_obj, canon_obj]
    have hfix : (sortMembers (members.map canonMember)).map canonMember =
        sortMembers (members.map canonMember) := by
      conv_rhs => rw [← List.map_id (sortMembers (members.map canonMember))]
      refine List.map_congr_left fun m hm => ?_
      obtain ⟨m', hm', rfl⟩ := List.mem_map.mp ((sortMembers_perm _).mem_iff.mp hm)
      simp [canonMember, ih m' hm']
    rw [hfix, sortMembers_of_sorted (sortMembers_sorted _)]
  | _ => rfl

theorem Wf.canon {v : Json} (h : v.Wf) : v.canon.Wf := by
  induction v with
  | arr items ih =>
    rw [wf_arr] at h
    rw [canon_arr, wf_arr]
    exact List.forall_mem_map.mpr fun v hv => ih v hv (h v hv)
  | obj members ih =>
    rw [wf_obj] at h
    rw [canon_obj, wf_obj]
    refine ⟨Nodup.keys_perm (sortMembers_perm _).symm (by rw [keys_canonMember]; exact h.1), ?_⟩
    intro m hm
    obtain ⟨m', hm', rfl⟩ := List.mem_map.mp ((sortMembers_perm _).mem_iff.mp hm)
    exact ih m' hm' (h.2 m' hm')
  | _ => exact h

/-- Permuting the members of a dictionary does not change its canonical form. -/
theorem canon_obj_perm {ms ns : Members} (h : ms.Perm ns) (hnd : (keys ms).Nodup) :
    canon (obj ms) = canon (obj ns) := by
  rw [canon_obj, canon_obj, sortMembers_eq_of_perm (h.map canonMember)]
  rw [keys_canonMember]
  exact hnd

theorem lookup_eq_none {members : Members} {k : String} : members.lookup k = none ↔ k ∉ keys members := by
  rw [← lookup_isSome]
  cases members.lookup k <;> simp

theorem get?_canon {v : Json} (h : v.Wf) (k : String) : v.canon.get? k = (v.get? k).map canon := by
  cases v with
  | obj members =>
    have hnd := (wf_obj.mp h).1
    rw [← keys_canonMember] at hnd
    rw [canon_obj, get?, get?]
    cases hk : members.lookup k with
    | none =>
      rw [lookup_eq_none] at hk
      rw [Option.map_none, lookup_eq_none, keys, ((sortMembers_perm _).map Prod.fst).mem_iff, ← keys, keys_canonMember]
      exact hk
    | some w =>
      refine lookup_of_mem (Nodup.keys_perm (sortMembers_perm _).symm hnd) ?_
      rw [(sortMembers_perm _).mem_iff]
      exact List.mem_map.mpr ⟨(k, w), lookup_mem hk, rfl⟩
  | arr items => simp [get?]
  | _ => rfl

/-- Dictionaries equal up to member order agree at every key. -/
theorem canon_get?_eq {v w : Json} (hv : v.Wf) (hw : w.Wf) (h : v.canon = w.canon) {k : String} {a b : Json}
    (ha : v.get? k = some a) (hb : w.get? k = some b) : a.canon = b.canon := by
  have hget := get?_canon hv k
  rw [h, get?_canon hw, ha, hb] at hget
  exact (Option.some.inj hget).symm

/-- The members of a canonical value are canonical. -/
theorem canon_get? {v w : Json} (h : v.Wf) (hcanon : v.canon = v) {k : String} (hk : v.get? k = some w) :
    w.canon = w := by
  have hget := get?_canon h k
  rw [hcanon, hk] at hget
  exact (Option.some.inj hget).symm

theorem canon_item {items : List Json} (hcanon : (arr items).canon = arr items) {v : Json} (hv : v ∈ items) :
    v.canon = v := by
  rw [canon_arr, arr.injEq] at hcanon
  obtain ⟨i, hi, rfl⟩ := List.mem_iff_getElem.mp hv
  have hget := congrArg (·[i]?) hcanon
  simpa [hi] using hget

theorem canon_obj_eq_self {members : Members} (h : (obj members).Wf) : (obj members).canon = obj members ↔
    (members.Pairwise fun a b => a.1 ≤ b.1) ∧ ∀ m ∈ members, m.2.canon = m.2 := by
  constructor
  · intro hcanon
    have hsorted := sortMembers_sorted (members.map canonMember)
    rw [canon_obj, obj.injEq] at hcanon
    rw [hcanon] at hsorted
    have hself : (obj members).canon = obj members := by rw [canon_obj, hcanon]
    exact ⟨hsorted, fun m hm => canon_get? h hself (lookup_of_mem (wf_obj.mp h).1 hm)⟩
  · rintro ⟨hsorted, hmembers⟩
    have hmap : members.map canonMember = members := by
      conv_rhs => rw [← List.map_id members]
      exact List.map_congr_left fun m hm => by rw [canonMember, hmembers m hm]; rfl
    rw [canon_obj, hmap, sortMembers_of_sorted hsorted]

/-- Some of the members of a canonical dictionary are canonical. -/
theorem canon_filter {members : Members} (h : (obj members).Wf) (hcanon : (obj members).canon = obj members)
    (p : String × Json → Bool) : (obj (members.filter p)).Wf ∧ (obj (members.filter p)).canon = obj (members.filter p) := by
  obtain ⟨hsorted, hmembers⟩ := (canon_obj_eq_self h).mp hcanon
  obtain ⟨hnd, hwf⟩ := wf_obj.mp h
  have hfilter : (obj (members.filter p)).Wf :=
    wf_obj.mpr ⟨hnd.sublist (List.filter_sublist.map Prod.fst), fun m hm => hwf m (List.mem_filter.mp hm).1⟩
  refine ⟨hfilter, (canon_obj_eq_self hfilter).mpr ⟨hsorted.sublist List.filter_sublist, fun m hm => ?_⟩⟩
  exact hmembers m (List.mem_filter.mp hm).1

/-- Dropping one key keeps what the others hold. -/
theorem get?_filter_ne {members : Members} {k k' : String} (h : k' ≠ k) :
    (obj (members.filter fun m => m.1 ≠ k)).get? k' = (obj members).get? k' := by
  rw [get?, get?]
  induction members with
  | nil => rfl
  | cons m ms ih =>
    by_cases hm : m.1 = k
    · rw [List.filter_cons_of_neg (by simpa using hm), ih, List.lookup_cons, hm, beq_false_of_ne h]
    · rw [List.filter_cons_of_pos (by simpa using hm), List.lookup_cons, List.lookup_cons, ih]

/-- A canonical dictionary with the keys and lookups of `ms` is the canonical form of `ms`. -/
theorem eq_canon_of_lookups {members ms : Members} (h : (obj members).Wf) (hcanon : (obj members).canon = obj members)
    (hnd : (keys ms).Nodup) (hkeys : ∀ k, k ∈ keys members ↔ k ∈ keys ms)
    (hlookup : ∀ m ∈ ms, members.lookup m.1 = some m.2) : obj members = canon (obj ms) := by
  have hnd' := (wf_obj.mp h).1
  have hlength : members.length = ms.length := by
    have hp := ((List.perm_ext_iff_of_nodup hnd' hnd).mpr hkeys).length_eq
    simpa [keys] using hp
  have hsub : ms ⊆ members := fun m hm => lookup_mem (hlookup m hm)
  have hperm := ((List.Nodup.of_map _ hnd).subperm hsub).perm_of_length_le hlength.le
  rw [canon_obj_perm hperm hnd, hcanon]

end Json
end HarnessConformance.Lib
