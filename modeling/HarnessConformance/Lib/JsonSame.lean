import HarnessConformance.Lib.Json

/-! # Values up to member order

`Same v w`: the values agree in types and contents, whatever the order of members. It is what the
canonical form decides (`same_iff`). -/

namespace HarnessConformance.Lib.Json
set_option autoImplicit false

mutual
/-- The same types and contents; members may stand in any order. -/
def Same : Json → Json → Prop
  | null, null => True
  | bool a, bool b => a = b
  | int m, int n => m = n
  | str s, str t => s = t
  | arr xs, arr ys => SameItems xs ys
  | obj ms, obj ns => ms.length = ns.length ∧ SameMembers ms ns
  | _, _ => False
def SameItems : List Json → List Json → Prop
  | [], [] => True
  | x :: xs, y :: ys => Same x y ∧ SameItems xs ys
  | _, _ => False
def SameMembers : Members → Members → Prop
  | [], _ => True
  | (k, v) :: ms, ns => (∃ w, ns.lookup k = some w ∧ Same v w) ∧ SameMembers ms ns
end

attribute [grind =] Same SameItems SameMembers

theorem sameItems_iff {xs ys : List Json} : SameItems xs ys ↔ List.Forall₂ Same xs ys := by
  induction xs generalizing ys with
  | nil => cases ys <;> simp [SameItems]
  | cons x xs ih => cases ys <;> simp [SameItems, ih]

theorem sameMembers_iff {ms ns : Members} : SameMembers ms ns ↔ ∀ m ∈ ms, ∃ w, ns.lookup m.1 = some w ∧ Same m.2 w := by
  induction ms with
  | nil => simp [SameMembers]
  | cons m ms ih =>
    obtain ⟨k, v⟩ := m
    rw [SameMembers, ih, List.forall_mem_cons]

/-- Two dictionaries are the same exactly when their sorted forms are. -/
theorem same_obj_iff {ms ns : Members} (hms : (obj ms).Wf) (hns : (obj ns).Wf)
    (ih : ∀ m ∈ ms, ∀ n ∈ ns, m.2.Same n.2 ↔ m.2.canon = n.2.canon) :
    (obj ms).Same (obj ns) ↔ (obj ms).canon = (obj ns).canon := by
  rw [Same, sameMembers_iff, canon_obj, canon_obj, obj.injEq]
  obtain ⟨hmnd, -⟩ := wf_obj.mp hms
  obtain ⟨hnnd, -⟩ := wf_obj.mp hns
  have hnd : (keys (ms.map canonMember)).Nodup := by
    rw [keys_canonMember]
    exact hmnd
  constructor
  · rintro ⟨hlength, hmembers⟩
    have hsub : ms.map canonMember ⊆ ns.map canonMember := by
      intro c hc
      obtain ⟨m, hm, rfl⟩ := List.mem_map.mp hc
      obtain ⟨w, hlookup, hsame⟩ := hmembers m hm
      have hn := lookup_mem hlookup
      exact List.mem_map.mpr ⟨(m.1, w), hn, by rw [canonMember, canonMember, (ih m hm _ hn).mp hsame]⟩
    have hperm : (ms.map canonMember).Perm (ns.map canonMember) :=
      ((List.Nodup.of_map _ hnd).subperm hsub).perm_of_length_le (by simp [hlength])
    exact sortMembers_eq_of_perm hperm hnd
  · intro heq
    have hperm : (ms.map canonMember).Perm (ns.map canonMember) :=
      ((sortMembers_perm _).symm.trans (List.Perm.of_eq heq)).trans (sortMembers_perm _)
    refine ⟨by simpa using hperm.length_eq, fun m hm => ?_⟩
    obtain ⟨n, hn, hcanon⟩ := List.mem_map.mp (hperm.subset (List.mem_map_of_mem hm))
    obtain ⟨hkey, hvalue⟩ := Prod.mk.inj hcanon
    exact ⟨n.2, hkey ▸ lookup_of_mem hnnd hn, (ih m hm n hn).mpr hvalue.symm⟩

theorem same_iff {v w : Json} (hv : v.Wf) (hw : w.Wf) : v.Same w ↔ v.canon = w.canon := by
  induction v generalizing w with
  | arr xs ih =>
    cases w with
    | arr ys =>
      rw [Same, sameItems_iff, canon_arr, canon_arr, arr.injEq]
      rw [wf_arr] at hv hw
      induction xs generalizing ys with
      | nil => cases ys <;> simp
      | cons x xs ihs =>
        cases ys with
        | nil => simp
        | cons y ys =>
          rw [List.forall_mem_cons] at hv hw ih
          rw [List.forall₂_cons, List.map_cons, List.map_cons, List.cons.injEq, ih.1 hv.1 hw.1, ihs ih.2 hv.2 ys hw.2]
    | _ => simp [Same, canon]
  | obj ms ih =>
    cases w with
    | obj ns =>
      have hmembers := (wf_obj.mp hv).2
      exact same_obj_iff hv hw fun m hm n hn => ih m hm (hmembers m hm) ((wf_obj.mp hw).2 n hn)
    | _ => simp [Same, canon]
  | _ => cases w <;> simp [Same, canon]

theorem same_canon {v : Json} (h : v.Wf) : v.canon.Same v :=
  (same_iff h.canon h).mpr (canon_canon v)

/-- The same values hold the same under every key. -/
theorem Same.get? {v w : Json} (h : v.Same w) (hv : v.Wf) (hw : w.Wf) (k : String) : Option.Rel Same (v.get? k) (w.get? k) := by
  have hcanon := (same_iff hv hw).mp h
  have hget : (v.get? k).map canon = (w.get? k).map canon := by rw [← get?_canon hv, hcanon, get?_canon hw]
  cases ha : v.get? k with
  | none =>
    cases hb : w.get? k with
    | none => exact .none
    | some b => simp [ha, hb] at hget
  | some a =>
    cases hb : w.get? k with
    | none => simp [ha, hb] at hget
    | some b =>
      rw [ha, hb] at hget
      exact .some ((same_iff (hv.get? ha) (hw.get? hb)).mpr (Option.some.inj hget))

/-- Some keys left out, the others hold what they held. -/
theorem get?_filter {members : Members} {p : String → Bool} {k : String} (hk : p k = true) :
    (obj (members.filter fun m => p m.1)).get? k = (obj members).get? k := by
  rw [get?, get?]
  induction members with
  | nil => rfl
  | cons m ms ih =>
    by_cases hm : p m.1 = true
    · rw [List.filter_cons_of_pos (by exact hm), List.lookup_cons, List.lookup_cons, ih]
    · have hne : k ≠ m.1 := fun heq => hm (heq ▸ hk)
      rw [List.filter_cons_of_neg (by exact hm), ih, List.lookup_cons, beq_false_of_ne hne]

/-! ## Values without booleans -/

mutual
/-- No boolean inside. -/
def boolFree : Json → Bool
  | bool _ => false
  | null | int _ | str _ => true
  | arr items => boolFreeItems items
  | obj members => boolFreeMembers members
def boolFreeItems : List Json → Bool
  | [] => true
  | v :: vs => boolFree v && boolFreeItems vs
def boolFreeMembers : Members → Bool
  | [] => true
  | (_, v) :: ms => boolFree v && boolFreeMembers ms
end

theorem boolFree_arr {items : List Json} : (arr items).boolFree = true ↔ ∀ v ∈ items, v.boolFree = true := by
  rw [boolFree]
  induction items with
  | nil => simp [boolFreeItems]
  | cons v vs ih => rw [boolFreeItems, Bool.and_eq_true, ih, List.forall_mem_cons]

theorem boolFree_obj {members : Members} : (obj members).boolFree = true ↔ ∀ m ∈ members, m.2.boolFree = true := by
  rw [boolFree]
  induction members with
  | nil => simp [boolFreeMembers]
  | cons m ms ih => rw [boolFreeMembers, Bool.and_eq_true, ih, List.forall_mem_cons]

theorem boolFree_canon (v : Json) : v.canon.boolFree = v.boolFree := by
  induction v with
  | arr items ih =>
    rw [canon_arr, Bool.eq_iff_iff, boolFree_arr, boolFree_arr, List.forall_mem_map]
    exact forall₂_congr fun v hv => by rw [ih v hv]
  | obj members ih =>
    have hmem (m : String × Json) : m ∈ sortMembers (members.map canonMember) ↔ m ∈ members.map canonMember :=
      (sortMembers_perm _).mem_iff
    rw [canon_obj, Bool.eq_iff_iff, boolFree_obj, boolFree_obj]
    simp only [hmem, List.forall_mem_map]
    exact forall₂_congr fun m hm => by rw [canonMember, ih m hm]
  | _ => rfl

end HarnessConformance.Lib.Json
