import HarnessConformance.Canonical

/-! # Closed objects and identifiers

The field checks of `schema.py` that every reader and writer of the development shares. -/

namespace HarnessConformance
open Lib Lib.Outcome Lib.Lines
set_option autoImplicit false

/-! ## Closed objects -/

/-- A set of field names as the sorted list that an error text joins. -/
def sortedNames (names : List String) : List String := names.dedup.insertionSort (· ≤ ·)

/-- `closed(value, required, optional)` -/
def closedWith (value : Json) (required optional : List String) : Py Unit :=
  match value with
  | .obj members => do
    let missing := sortedNames (required.filter fun k => k ∉ Json.keys members)
    let extra := sortedNames ((Json.keys members).filter fun k => k ∉ required ++ optional)
    conform "MISSING_FIELD" ("missing fields: " ++ ", ".intercalate missing) (missing = [])
    conform "UNKNOWN_FIELD" ("unknown fields: " ++ ", ".intercalate extra) (extra = [])
  | _ => .error .attributeError

def closed (value : Json) (fields : List String) : Py Unit := closedWith value fields []

theorem sortedNames_eq_nil {names : List String} : sortedNames names = [] ↔ names = [] := by
  unfold sortedNames
  rw [← List.length_eq_zero_iff, List.length_insertionSort, List.length_eq_zero_iff, List.dedup_eq_nil]

theorem closed_eq_ok {value : Json} {fields : List String} {u : Unit} : closed value fields = .ok u ↔
    ∃ members, value = .obj members ∧ ∀ k, k ∈ Json.keys members ↔ k ∈ fields := by
  cases value with
  | obj members =>
    simp only [closed, closedWith, bind_eq_ok, conform_eq_ok, exists_const, sortedNames_eq_nil, List.append_nil,
      List.filter_eq_nil_iff, decide_eq_true_eq, not_not, Json.obj.injEq, exists_eq_left']
    exact ⟨fun ⟨h, h'⟩ k => ⟨h' k, h k⟩, fun h => ⟨fun k => (h k).mpr, fun k => (h k).mp⟩⟩
  | _ => simp [closed, closedWith]

theorem closed_canon {value : Json} {fields : List String} {u : Unit} :
    closed value.canon fields = .ok u ↔ closed value fields = .ok u := by
  rw [closed_eq_ok, closed_eq_ok]
  cases value with
  | obj members =>
    have hkeys (k : String) : k ∈ Json.keys (Json.sortMembers (members.map Json.canonMember)) ↔ k ∈ Json.keys members := by
      rw [Json.keys, ((Json.sortMembers_perm _).map Prod.fst).mem_iff, ← Json.keys, Json.keys_canonMember]
    simp only [Json.canon_obj, Json.obj.injEq, exists_eq_left', hkeys]
  | arr items => simp
  | _ => rfl

/-- A canonical closed object, rebuilt from what its fields hold. -/
theorem eq_canon_of_closed {v : Json} (hwf : v.Wf) (hcanon : v.canon = v) {fields : List String} {u : Unit}
    (h : closed v fields = .ok u) (hnd : fields.Nodup) {members : Json.Members} (hfields : Json.keys members = fields)
    (hget : ∀ m ∈ members, v.get? m.1 = some m.2) : v = Json.canon (.obj members) := by
  subst hfields
  obtain ⟨ms, rfl, hkeys⟩ := closed_eq_ok.mp h
  exact Json.eq_canon_of_lookups hwf hcanon hnd hkeys hget

/-- The same where the fields hold canonical forms. -/
theorem eq_canon_of_closed_canon {v : Json} (hwf : v.Wf) (hcanon : v.canon = v) {fields : List String} {u : Unit}
    (h : closed v fields = .ok u) (hnd : fields.Nodup) {members : Json.Members} (hfields : Json.keys members = fields)
    (hget : ∀ m ∈ members, v.get? m.1 = some m.2.canon) : v = Json.canon (.obj members) := by
  have hv : v = Json.canon (.obj (members.map Json.canonMember)) :=
    eq_canon_of_closed hwf hcanon h hnd ((Json.keys_canonMember members).trans hfields) (List.forall_mem_map.mpr hget)
  rw [hv, Json.canon_obj, Json.canon_obj, List.map_map]
  refine congrArg (fun ms => Json.obj (Json.sortMembers ms)) (List.map_congr_left fun m _ => ?_)
  simp only [Function.comp_apply, Json.canonMember, Json.canon_canon]

/-! ## Identifiers and digests -/

def lowerAlnum : Regex := .one fun c => ('a' ≤ c && c ≤ 'z') || c.isDigit

/-- `^[a-z][a-z0-9]*(?:[.-][a-z0-9]+)*$` -/
def idPattern : Regex :=
  .chain [.one fun c => 'a' ≤ c && c ≤ 'z', .star lowerAlnum,
    .star (.seq (.one fun c => c == '.' || c == '-') (.plus lowerAlnum))]

abbrev Identifier := Text fun s => s.length ≤ 128 && idPattern.fullmatch s

def requireId (value : Json) (name : String) : Py Identifier :=
  requireText (.conformance "INVALID_IDENTIFIER" (name ++ " is not a canonical identifier")) _ value

def requireDigest (value : Json) (name : String) : Py Digest :=
  requireText (.conformance "INVALID_DIGEST" (name ++ " must be lowercase sha256")) _ value

@[simp] theorem requireId_eq_ok {value : Json} {name : String} {id : Identifier} :
    requireId value name = .ok id ↔ value = .str id.text := requireText_eq_ok

@[simp] theorem requireDigest_eq_ok {value : Json} {name : String} {digest : Digest} :
    requireDigest value name = .ok digest ↔ value = .str digest.text := requireText_eq_ok

end HarnessConformance
