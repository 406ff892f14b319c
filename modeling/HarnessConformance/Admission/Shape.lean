import HarnessConformance.Lib.Shape
import HarnessConformance.Admission.Document
import HarnessConformance.PlainData

/-! # The private shape check

`_shape` of `live_mutation_admission.py` over the pinned specifications, whose references are the
definitions they name. On documents it accepts what the shape means. -/

namespace HarnessConformance.Admission
open Lib Lib.Outcome Lib.Lines
set_option autoImplicit false

variable [Runtime]

/-- `len({canonical_bytes(v) for v in value}) == len(value)`, under `uniqueItems`. -/
def requireUnique (unique : Bool) (items : List Json) : Py Unit :=
  if unique then do
    let texts ← items.mapM canonicalBytes
    require "PROXY_DUPLICATE" (texts.dedup.length = items.length)
  else pure ()

mutual
/-- `_shape(value, spec, definitions)` -/
def shape : Shape → Json → Py Unit
  | .any, _ => pure ()
  | .null, value => require "PROXY_SHAPE_INVALID" (value = .null)
  | .const c, value => do
    let text ← canonicalBytes value
    let expected ← canonicalBytes c
    require "PROXY_CONSTANT_INVALID" (text = expected)
  | .enum cs, value => do
    let text ← canonicalBytes value
    let expected ← cs.mapM canonicalBytes
    require "PROXY_ENUM_INVALID" (text ∈ expected)
  | .text low high pattern, value =>
    match value with
    | .str t => do
      require "PROXY_STRING_SIZE" (low ≤ t.length ∧ t.length ≤ high)
      require "PROXY_STRING_INVALID" (∀ r ∈ pattern, r.fullmatch t = true)
    | _ => .error (refusal "PROXY_SHAPE_INVALID")
  | .int low high, value =>
    match value with
    | .int n => require "PROXY_INTEGER_RANGE" (low ≤ n ∧ n ≤ high)
    | _ => .error (refusal "PROXY_SHAPE_INVALID")
  | .arr low high unique items, value =>
    match value with
    | .arr vs => do
      require "PROXY_COLLECTION_SIZE" (low ≤ vs.length ∧ vs.length ≤ high)
      requireUnique unique vs
      vs.forM fun v => shape items v
    | _ => .error (refusal "PROXY_SHAPE_INVALID")
  | .obj properties, value =>
    match value with
    | .obj members => do
      require "PROXY_FIELD_MISSING" (∀ k ∈ properties.map Prod.fst, k ∈ Json.keys members)
      require "PROXY_FIELD_UNKNOWN" (∀ k ∈ Json.keys members, k ∈ properties.map Prod.fst)
      members.forM fun m => shapeAt properties m.1 m.2
    | _ => .error (refusal "PROXY_SHAPE_INVALID")
  | .oneOf options, value => do
    let count ← shapeCount options value
    require "PROXY_SHAPE_INVALID" (count = 1)
/-- `_shape(item, spec["properties"][key], definitions)` -/
def shapeAt : List (String × Shape) → String → Json → Py Unit
  | [], k, _ => .error (.keyError k)
  | (name, s) :: properties, k, value => if k = name then shape s value else shapeAt properties k value
/-- The options that raise no `ConformanceError`. -/
def shapeCount : List Shape → Json → Py ℕ
  | [], _ => pure 0
  | s :: options, value =>
    match shape s value with
    | .ok _ => do pure ((← shapeCount options value) + 1)
    | .error (.conformance _ _) => shapeCount options value
    | .error e => .error e
end

/-! ## Refusals -/

omit [Runtime] in
theorem conforms_require {reason : String} {p : Prop} [Decidable p] : Conforms (require reason p) := conforms_conform

omit [Runtime] in
theorem conforms_refusal {α : Type} {reason : String} : Conforms (.error (refusal reason) : Py α) := conforms_conformance

theorem conforms_shapeAt {properties : List (String × Shape)} (h : ∀ p ∈ properties, ∀ v, Conforms (shape p.2 v)) {k : String}
    (hk : k ∈ properties.map Prod.fst) (v : Json) : Conforms (shapeAt properties k v) := by
  induction properties with
  | nil => cases hk
  | cons p properties ih =>
    rw [List.forall_mem_cons] at h
    rw [shapeAt]
    split
    · exact h.1 v
    · rename_i hne
      exact ih h.2 ((List.mem_cons.mp hk).resolve_left hne)

theorem conforms_shapeCount {options : List Shape} (h : ∀ s ∈ options, ∀ v, Conforms (shape s v)) (v : Json) :
    Conforms (shapeCount options v) := by
  induction options with
  | nil => exact conforms_ok
  | cons s options ih =>
    rw [List.forall_mem_cons] at h
    have hrest := ih h.2
    rw [shapeCount]
    split
    · exact hrest.bind fun _ _ => conforms_ok
    · exact hrest
    · rename_i e hother heq
      obtain ⟨reason, message, rfl⟩ := h.1 v e heq
      exact absurd rfl (hother reason message)

/-- The shape check refuses in its own way only. -/
theorem conforms_shape (s : Shape) (v : Json) : Conforms (shape s v) := by
  induction s generalizing v with
  | any => exact conforms_ok
  | null => exact conforms_require
  | const c =>
    exact (conforms_canonicalBytes v).bind fun _ _ => (conforms_canonicalBytes c).bind fun _ _ => conforms_require
  | enum cs =>
    exact (conforms_canonicalBytes v).bind fun _ _ =>
      (conforms_mapM fun c _ => conforms_canonicalBytes c).bind fun _ _ => conforms_require
  | text low high pattern =>
    cases v with
    | str t => exact conforms_require.bind fun _ _ => conforms_require
    | _ => exact conforms_refusal
  | int low high =>
    cases v with
    | int n => exact conforms_require
    | _ => exact conforms_refusal
  | arr low high unique items ih =>
    cases v with
    | arr vs =>
      have hunique : Conforms (requireUnique unique vs) := by
        unfold requireUnique
        split
        · exact (conforms_mapM fun v _ => conforms_canonicalBytes v).bind fun _ _ => conforms_require
        · exact conforms_ok
      exact conforms_require.bind fun _ _ => hunique.bind fun _ _ => conforms_forM fun v _ => ih v
    | _ => exact conforms_refusal
  | obj properties ih =>
    cases v with
    | obj members =>
      refine conforms_require.bind fun _ _ => conforms_require.bind fun _ hknown => conforms_forM fun m hm => ?_
      exact conforms_shapeAt ih (require_eq_ok.mp hknown m.1 (List.mem_map_of_mem hm)) m.2
    | _ => exact conforms_refusal
  | oneOf options ih => exact (conforms_shapeCount ih v).bind fun _ _ => conforms_require

/-! ## What is accepted -/

/-- A short plain text, a safe number, or another value without parts. -/
def isScalar : Json → Bool
  | .null | .bool _ => true
  | .int n => n.natAbs ≤ maxSafeInteger
  | .str text => Json.isPlain text && text.length ≤ 128
  | _ => false

/-- A scalar or a short list of scalars. -/
def isFlat : Json → Bool
  | .arr items => items.length ≤ 16 && items.all isScalar
  | v => isScalar v

/-- Constants that are documents. -/
def Pinned (s : Shape) : Prop := ∀ c ∈ s.constants, c.Wf ∧ Valid c

theorem valid_scalar {v : Json} (h : isScalar v = true) {depth : ℕ} (hdepth : depth ≤ maxDepth) : v.Wf ∧ ValidAt depth v := by
  cases v with
  | null => exact ⟨trivial, checkDepth_eq_ok.mpr hdepth⟩
  | bool b => exact ⟨trivial, checkDepth_eq_ok.mpr hdepth⟩
  | int n =>
    refine ⟨trivial, ?_⟩
    simp only [ValidAt, validateValue, bind_eq_ok, checkDepth_eq_ok, conform_eq_ok, exists_const]
    exact ⟨hdepth, of_decide_eq_true h⟩
  | str text =>
    rw [isScalar, Bool.and_eq_true, decide_eq_true_eq] at h
    exact ⟨trivial, validAt_str.mpr ⟨hdepth, textValid_plain h.1 (h.2.trans (by decide))⟩⟩
  | arr items => cases h
  | obj members => cases h

theorem pinned_of_flat {s : Shape} (h : s.constants.all isFlat = true) : Pinned s := by
  intro c hc
  have hflat := List.all_eq_true.mp h c hc
  cases c with
  | arr items =>
    rw [isFlat, Bool.and_eq_true, decide_eq_true_eq, List.all_eq_true] at hflat
    refine ⟨Json.wf_arr.mpr fun v hv => (valid_scalar (hflat.2 v hv) (Nat.zero_le _)).1, ?_⟩
    exact validAt_arr.mpr ⟨Nat.zero_le _, hflat.1.trans (by decide), fun v hv => (valid_scalar (hflat.2 v hv) (by decide)).2⟩
  | _ =>
    rw [isFlat] at hflat
    · exact valid_scalar hflat (Nat.zero_le _)
    · nofun

theorem requireUnique_eq_ok {unique : Bool} {items : List Json} {u : Unit} (h : ∀ v ∈ items, v.Wf ∧ Valid v) :
    requireUnique unique items = .ok u ↔ (unique = true → (items.map Json.canon).Nodup) := by
  cases unique with
  | false => simp [requireUnique, pure_eq_ok]
  | true =>
    have htexts : items.mapM canonicalBytes = .ok (items.map canonicalText) := by
      refine mapM_eq_ok.mpr (List.forall₂_map_right_iff.mpr (List.forall₂_same.mpr fun v hv => ?_))
      exact canonicalBytes_eq_ok.mpr ⟨(h v hv).2, rfl⟩
    have hinj : ∀ v ∈ items, ∀ w ∈ items, canonicalText v = canonicalText w ↔ v.canon = w.canon := fun v hv w hw =>
      canonicalText_injective (h v hv).1 (h w hw).1
    have hnodup : (items.map canonicalText).Nodup ↔ (items.map Json.canon).Nodup := by
      rw [List.Nodup, List.Nodup, List.pairwise_map, List.pairwise_map]
      exact List.Pairwise.iff_of_mem fun {v w} hv hw => not_congr (hinj v hv w hw)
    have hdedup : (items.map canonicalText).dedup.length = items.length ↔ (items.map canonicalText).Nodup := by
      rw [← List.dedup_eq_self, ← @List.length_map _ _ items canonicalText]
      exact ⟨fun hlength => (List.dedup_sublist _).eq_of_length hlength, fun heq => congrArg List.length heq⟩
    simp only [requireUnique, if_true, htexts, bind_eq_ok, require_eq_ok, Except.ok.injEq, exists_eq_left', hdedup, hnodup,
      forall_const]

theorem valid_items {vs : List Json} (hv : (Json.arr vs).Wf ∧ Valid (.arr vs)) : ∀ v ∈ vs, v.Wf ∧ Valid v := fun v hmem =>
  ⟨Json.wf_arr.mp hv.1 v hmem, ((validAt_arr.mp hv.2).2.2 v hmem).mono (Nat.zero_le _)⟩

theorem valid_members {members : Json.Members} (hv : (Json.obj members).Wf ∧ Valid (.obj members)) :
    ∀ m ∈ members, m.2.Wf ∧ Valid m.2 := fun m hmem =>
  ⟨(Json.wf_obj.mp hv.1).2 m hmem, ((validAt_obj.mp hv.2).2.2 m hmem).2.2.mono (Nat.zero_le _)⟩

theorem shapeAt_eq_ok {properties : List (String × Shape)} {k : String} {v : Json} {u : Unit}
    (h : ∀ p ∈ properties, shape p.2 v = .ok u ↔ p.2.Accepts v) :
    shapeAt properties k v = .ok u ↔ Shape.AcceptsAt properties k v := by
  induction properties with
  | nil => simp [shapeAt, Shape.AcceptsAt]
  | cons p properties ih =>
    rw [List.forall_mem_cons] at h
    rw [shapeAt, Shape.AcceptsAt]
    by_cases hk : k = p.1
    · simp [hk, h.1]
    · simp [hk, ih h.2]

/-- The options counted are those that accept. -/
theorem shapeCount_eq_ok {options : List Shape} {v : Json} (h : ∀ s ∈ options, shape s v = .ok () ↔ s.Accepts v) :
    ∃ n, shapeCount options v = .ok n ∧ (n = 0 ↔ Shape.AcceptsNone options v) ∧ (n = 1 ↔ Shape.AcceptsOne options v) := by
  induction options with
  | nil => exact ⟨0, rfl, by simp [Shape.AcceptsNone], by simp [Shape.AcceptsOne]⟩
  | cons s options ih =>
    rw [List.forall_mem_cons] at h
    obtain ⟨n, hn, hnone, hone⟩ := ih h.2
    rw [Shape.AcceptsNone, Shape.AcceptsOne, ← h.1, ← hnone, ← hone, shapeCount]
    cases hs : shape s v with
    | ok u => exact ⟨n + 1, by rw [hn]; rfl, by simp, by simp⟩
    | error e =>
      obtain ⟨reason, message, rfl⟩ := conforms_shape s v e hs
      exact ⟨n, hn, by simp, by simp⟩

theorem shape_eq_ok {s : Shape} (hs : Pinned s) {v : Json} (hv : v.Wf ∧ Valid v) {u : Unit} : shape s v = .ok u ↔ s.Accepts v := by
  have hconst {c : Json} (hc : c.Wf ∧ Valid c) {v : Json} (hv : v.Wf ∧ Valid v) :
      canonicalText v = canonicalText c ↔ v.canon = c.canon := canonicalText_injective hv.1 hc.1
  induction s generalizing v with
  | any => exact iff_of_true rfl trivial
  | null => exact require_eq_ok
  | const c =>
    have hc := hs c (List.mem_singleton_self c)
    simp only [shape, bind_eq_ok, canonicalBytes_eq_ok, require_eq_ok, hv.2, hc.2, true_and, exists_eq_left', Shape.Accepts]
    exact hconst hc hv
  | enum cs =>
    have htexts : cs.mapM canonicalBytes = .ok (cs.map canonicalText) := by
      refine mapM_eq_ok.mpr (List.forall₂_map_right_iff.mpr (List.forall₂_same.mpr fun c hc => ?_))
      exact canonicalBytes_eq_ok.mpr ⟨(hs c hc).2, rfl⟩
    simp only [shape, htexts, bind_eq_ok, canonicalBytes_eq_ok, require_eq_ok, hv.2, true_and, exists_eq_left', Shape.Accepts,
      Except.ok.injEq, List.mem_map]
    exact exists_congr fun c => and_congr_right fun hc => eq_comm.trans (hconst (hs c hc) hv)
  | text low high pattern =>
    cases v with
    | str t => simp [shape, Shape.Accepts, bind_eq_ok, and_assoc]
    | _ => simp [shape, Shape.Accepts]
  | int low high =>
    cases v with
    | int n => simp [shape, Shape.Accepts]
    | _ => simp [shape, Shape.Accepts]
  | arr low high unique items ih =>
    cases v with
    | arr vs =>
      have hitems := valid_items hv
      have hall : vs.forM (fun v => shape items v) = .ok u ↔ ∀ v ∈ vs, items.Accepts v := by
        rw [forM_eq_ok]
        exact forall₂_congr fun v hmem => ih hs (hitems v hmem)
      simp only [shape, Shape.Accepts, bind_eq_ok, require_eq_ok, requireUnique_eq_ok hitems, exists_const, hall, Json.arr.injEq,
        exists_eq_left', and_assoc]
    | _ => simp [shape, Shape.Accepts]
  | obj properties ih =>
    cases v with
    | obj members =>
      have hmembers := valid_members hv
      have hat : ∀ m ∈ members, shapeAt properties m.1 m.2 = .ok u ↔ Shape.AcceptsAt properties m.1 m.2 := fun m hm =>
        shapeAt_eq_ok fun p hp => ih p hp (fun c hc => hs c (Shape.mem_propertyConstants hp hc)) (hmembers m hm)
      have hall : members.forM (fun m => shapeAt properties m.1 m.2) = .ok u ↔
          ∀ m ∈ members, Shape.AcceptsAt properties m.1 m.2 := by
        rw [forM_eq_ok]
        exact forall₂_congr hat
      simp only [shape, Shape.Accepts, bind_eq_ok, require_eq_ok, exists_const, hall, Json.obj.injEq, exists_eq_left']
      constructor
      · rintro ⟨h, h', hm⟩
        exact ⟨fun k => ⟨h' k, h k⟩, hm⟩
      · rintro ⟨h, hm⟩
        exact ⟨fun k => (h k).mpr, fun k => (h k).mp, hm⟩
    | _ => simp [shape, Shape.Accepts]
  | oneOf options ih =>
    obtain ⟨n, hn, -, hone⟩ := shapeCount_eq_ok fun s hmem =>
      ih s hmem (fun c hc => hs c (Shape.mem_optionConstants hmem hc)) hv
    simp only [shape, hn, bind_eq_ok, require_eq_ok, Except.ok.injEq, exists_eq_left', Shape.Accepts]
    exact hone

omit [Runtime] in
/-- A closed message has the shape that the check finds. -/
theorem accepts_of_slim {s : Shape} {members : Json.Members} (hpinned : @Pinned .ascii s) (hwf : (Json.obj members).Wf)
    (h : ∀ m ∈ members, Slim 2000 3 m) (hcount : members.length ≤ maxCollectionItems)
    (hshape : @shape .ascii s (.obj members) = .ok ()) : s.Accepts (.obj members) := by
  let _ := Runtime.ascii
  exact (shape_eq_ok hpinned ⟨hwf, validAt_slim h hcount (by decide) (by decide)⟩).mp hshape

end HarnessConformance.Admission
