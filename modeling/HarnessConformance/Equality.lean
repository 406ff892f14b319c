import HarnessConformance.Python
import HarnessConformance.Lib.JsonSame

/-! # Python's equality

`==` takes a boolean for the integer it counts as. It tells values apart as their contents do where no boolean
stands against an integer. -/

namespace HarnessConformance
open Lib Lib.Json
set_option autoImplicit false

mutual
/-- A boolean of one value stands against an integer of the other. -/
def boolAgainstInt : Json → Json → Bool
  | .bool _, .int _ | .int _, .bool _ => true
  | .arr xs, .arr ys => boolAgainstIntItems xs ys
  | .obj ms, .obj ns => boolAgainstIntMembers ms ns
  | _, _ => false
def boolAgainstIntItems : List Json → List Json → Bool
  | x :: xs, y :: ys => boolAgainstInt x y || boolAgainstIntItems xs ys
  | _, _ => false
def boolAgainstIntMembers : Json.Members → Json.Members → Bool
  | [], _ => false
  | (k, v) :: ms, ns => (match ns.lookup k with | some w => boolAgainstInt v w | none => false) || boolAgainstIntMembers ms ns
end

theorem boolAgainstIntMembers_eq_false {ms ns : Json.Members} :
    boolAgainstIntMembers ms ns = false ↔ ∀ m ∈ ms, ∀ w, ns.lookup m.1 = some w → boolAgainstInt m.2 w = false := by
  induction ms with
  | nil => simp [boolAgainstIntMembers]
  | cons m ms ih =>
    obtain ⟨k, v⟩ := m
    rw [boolAgainstIntMembers, Bool.or_eq_false_iff, ih, List.forall_mem_cons]
    cases ns.lookup k <;> simp

theorem same_iff_pyEq {v w : Json} : v.Same w ↔ pyEq v w = true ∧ boolAgainstInt v w = false := by
  induction v generalizing w with
  | null => cases w <;> simp [Same, pyEq, boolAgainstInt]
  | bool a => cases w <;> simp [Same, pyEq, boolAgainstInt]
  | int n => cases w <;> simp [Same, pyEq, boolAgainstInt]
  | str s => cases w <;> simp [Same, pyEq, boolAgainstInt]
  | arr xs ih =>
    cases w with
    | arr ys =>
      rw [Same, pyEq, boolAgainstInt]
      induction xs generalizing ys with
      | nil => cases ys <;> simp [SameItems, pyEqItems, boolAgainstIntItems]
      | cons x xs ihs =>
        cases ys with
        | nil => simp [SameItems, pyEqItems]
        | cons y ys =>
          rw [List.forall_mem_cons] at ih
          rw [SameItems, pyEqItems, boolAgainstIntItems, ih.1, ihs ih.2 ys, Bool.and_eq_true, Bool.or_eq_false_iff,
            and_and_and_comm]
    | _ => simp [Same, pyEq]
  | obj ms ih =>
    cases w with
    | obj ns =>
      rw [Same, pyEq, boolAgainstInt, Bool.and_eq_true, beq_iff_eq, sameMembers_iff, pyEqMembers_iff,
        boolAgainstIntMembers_eq_false, and_assoc, ← forall₂_and]
      refine and_congr_right' (forall₂_congr fun m hm => ?_)
      cases ns.lookup m.1 with
      | none => simp
      | some w => simpa using ih m hm
    | _ => simp [Same, pyEq]

theorem boolAgainstInt_eq_false {v w : Json} (hv : v.boolFree = true) (hw : w.boolFree = true) : boolAgainstInt v w = false := by
  induction v generalizing w with
  | bool b => cases hv
  | int n =>
    cases w with
    | bool b => cases hw
    | _ => rfl
  | arr xs ih =>
    cases w with
    | arr ys =>
      rw [boolFree_arr] at hv hw
      rw [boolAgainstInt]
      induction xs generalizing ys with
      | nil => rfl
      | cons x xs ihs =>
        cases ys with
        | nil => rfl
        | cons y ys =>
          rw [List.forall_mem_cons] at hv hw ih
          rw [boolAgainstIntItems, ih.1 hv.1 hw.1, ihs ih.2 hv.2 ys hw.2, Bool.or_self]
    | _ => rfl
  | obj ms ih =>
    cases w with
    | obj ns =>
      rw [boolFree_obj] at hv hw
      rw [boolAgainstInt, boolAgainstIntMembers_eq_false]
      exact fun m hm w hlookup => ih m hm (hv m hm) (hw _ (lookup_mem hlookup))
    | _ => rfl
  | _ => rfl

/-- Values without booleans that are equal hold the same. -/
theorem canon_eq_of_boolFree {v w : Json} (hv : v.boolFree = true) (hw : w.boolFree = true) (hvd : v.Wf) (hwd : w.Wf)
    (h : pyEq v w = true) : v.canon = w.canon :=
  (same_iff hvd hwd).mp (same_iff_pyEq.mpr ⟨h, boolAgainstInt_eq_false hv hw⟩)

end HarnessConformance
