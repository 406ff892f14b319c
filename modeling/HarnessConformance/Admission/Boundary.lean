import HarnessConformance.Lib.JsonSame
import HarnessConformance.Lib.Traversal
import HarnessConformance.Admission.Document

/-! # The data boundary

A value and its canonical bytes pass `document` alike. The budgets of `_bounded`, here and in `live_session.py`, charge no
more than the text is long and stop every traversal early, however its input shares its parts. -/

namespace HarnessConformance.Admission
open Lib Lib.Outcome Lib.Lines
set_option autoImplicit false

variable [Runtime]

/-! ## Both entries -/

/-- `document(canonical_bytes(value), maximum)` -/
def documentBytes (value : Json) (maximum : ℕ) : Py Json := do
  let raw ← canonicalBytes value
  document (.bytes raw) maximum

/-- A value and its bytes are accepted alike and read as one value, and no other bytes are read as it. -/
theorem entries_agree {v : Json} (hv : v.Wf) (maximum : ℕ) :
    (∀ r, document (.data v) maximum = .ok r ↔ documentBytes v maximum = .ok r) ∧
    (∀ r, document (.data v) maximum = .ok r → r.Same v) ∧
    ∀ raw r, document (.bytes raw) maximum = .ok r → canonicalBytes r = .ok raw := by
  refine ⟨fun r => ?_, fun r h => ?_, fun raw r h => ?_⟩
  · rw [document_data_iff hv, documentBytes]
    simp only [bind_eq_ok, canonicalBytes_eq_ok, document_bytes_iff]
    constructor
    · rintro ⟨hvalid, hheight, hwidth, rfl⟩
      refine ⟨_, ⟨hvalid, rfl⟩, canonical_canon hv hvalid, (canonicalText_canon v).symm, ?_⟩
      rw [Json.height_canon, Json.width_canon]
      exact ⟨hheight, hwidth⟩
    · rintro ⟨_, ⟨hvalid, rfl⟩, hcanonical, htext, hheight, hwidth⟩
      have hr : r = v.canon := by
        rw [← hcanonical.canon]
        exact ((canonicalText_injective hv hcanonical.wf).mp htext).symm
      rw [hr, Json.height_canon] at hheight
      rw [hr, Json.width_canon] at hwidth
      exact ⟨hvalid, hheight, hwidth, hr⟩
  · rw [document_data_wf hv h]
    exact Json.same_canon hv
  · obtain ⟨hcanonical, rfl, -⟩ := document_bytes_iff.mp h
    exact canonicalBytes_eq_ok.mpr ⟨hcanonical.valid, rfl⟩

omit [Runtime] in
/-- The value `{"b":1,"a":[null]}` under its exact size. -/
theorem entries_agree_sample : let _ := Runtime.ascii
    ∃ r, document (.data (.obj [("b", .int 1), ("a", .arr [.null])])) 18 = .ok r ∧
      documentBytes (.obj [("b", .int 1), ("a", .arr [.null])]) 18 = .ok r := by
  intro _
  have hwf : (Json.obj [("b", .int 1), ("a", .arr [.null])]).Wf := by decide
  have hok := (document_data_iff hwf).mpr ⟨by decide +kernel, by decide, (by decide : 18 ≤ 18 ∧ 18 ≤ maxFileBytes), rfl⟩
  exact ⟨_, hok, ((entries_agree hwf 18).1 _).mp hok⟩

/-! ## Budgets -/

section
omit [Runtime]
variable {ρ : Type}

/-- How `_bounded` of `live_mutation_admission.py` charges objects. -/
def scheme (ρ : Type) (maximum : ℕ) : Scheme ρ PyError where
  budget := maximum
  levels := 17
  deep := refusal "PROXY_DATA_TYPE"
  admits
    | .foreign => .error (refusal "PROXY_DATA_TYPE")
    | _ => .ok ()
  cost
    | .str text => text.length + 1
    | .list items => items.length + 1
    | .dict members => members.length + 1
    | _ => 1
  large := refusal "PROXY_DATA_SIZE"
  settle
    | .int n => require "PROXY_INTEGER_RANGE" (n.natAbs ≤ 9007199254740991)
    | _ => .ok ()
  key := refusal "PROXY_DATA_KEY"

def reader : Reader PyError := ⟨bounded, boundedItems, boundedMembers⟩

theorem follows (heap : Heap ρ) (maximum : ℕ) : (scheme ρ maximum).Follows heap reader where
  deep left v := by
    have hcharge (cost : ℤ) : charge 17 left cost = .error (refusal "PROXY_DATA_TYPE") := rfl
    change bounded 17 left v = .error (refusal "PROXY_DATA_TYPE")
    cases v <;> rw [bounded, hcharge] <;> rfl
  value {v ref depth} h hdepth charged := by
    have hcharge (cost : ℕ) : charge depth (maximum - charged) cost =
        (require "PROXY_DATA_SIZE" (charged + cost ≤ maximum) >>= fun _ => pure ((maximum : ℤ) - (charged + cost : ℕ))) := by
      have hfits : (0 : ℤ) ≤ maximum - charged - cost ↔ charged + cost ≤ maximum := by omega
      have hleft : (maximum : ℤ) - charged - cost = maximum - (charged + cost : ℕ) := by
        push_cast
        ring
      have hdeep : require "PROXY_DATA_TYPE" (depth ≤ 16) = .ok () := require_eq_ok.mpr (Nat.lt_succ_iff.mp hdepth)
      rw [charge, hdeep, ok_bind, hleft]
      simp only [require, conform, guardWith, ← hleft, hfits]
    have hone : charge depth (maximum - charged) 1 = _ := hcharge 1
    change bounded depth (maximum - charged) v = _
    cases v with
    | null | bool b =>
      have hcell : heap ref = _ := h
      rw [bounded, hcell, hone]
      rfl
    | int n =>
      have hcell : heap ref = _ := h
      rw [bounded, hcell, hone, bind_assoc]
      rfl
    | str text =>
      have hcell : heap ref = _ := h
      have hcost := hcharge (text.length + 1)
      push_cast at hcost
      rw [bounded, hcell, hcost]
      rfl
    | arr vs =>
      obtain ⟨items, hcell, hitems⟩ := h
      have hcost := hcharge (vs.length + 1)
      push_cast at hcost
      rw [bounded, hcell, hcost, bind_assoc, ← hitems.length]
      rfl
    | obj ms =>
      obtain ⟨members, hcell, hmembers⟩ := h
      have hcost := hcharge (ms.length + 1)
      push_cast at hcost
      rw [bounded, hcell, hcost, bind_assoc, ← hmembers.length]
      rfl
  items_nil depth left := rfl
  items_cons depth left v vs := rfl
  members_nil depth left := rfl
  members_cons depth left k v ms := by
    have hkey : charge depth left (k.length + 1) = bounded depth left (.str k) := by rw [bounded]
    change boundedMembers depth left ((k, v) :: ms) = _
    rw [boundedMembers, hkey]
    rfl

theorem length_le_width (s : String) : s.length + 2 ≤ (Json.str s).width := by
  rw [Json.width]
  exact Nat.add_le_add_right (Json.length_le_textWidth s) 2

theorem width_members (ms : Json.Members) : (ms.map fun m => (Json.str m.1).width + m.2.width).sum = Json.widthMembers ms := by
  rw [Json.widthMembers_eq]
  simp only [Json.width]

theorem weighs (heap : Heap ρ) (maximum : ℕ) : (scheme ρ maximum).Weighs heap Json.width where
  cost ref v h := by
    cases v with
    | null | bool b | int n =>
      have hcell : heap ref = _ := h
      rw [hcell]
      exact one_le_width _
    | str text =>
      have hcell : heap ref = _ := h
      rw [hcell]
      exact Nat.le_of_succ_le (length_le_width text)
    | arr vs =>
      obtain ⟨items, hcell, hitems⟩ := h
      rw [hcell, Json.width, Json.widthItems_eq, Scheme.partsWeight]
      change items.length + 1 + _ ≤ _
      rw [hitems.length]
      omega
    | obj ms =>
      obtain ⟨members, hcell, hmembers⟩ := h
      rw [hcell, Json.width, Scheme.partsWeight, width_members]
      change members.length + 1 + _ ≤ _
      rw [hmembers.length]
      omega
  admits ref v h hlarge := by
    cases v with
    | arr vs | obj ms =>
      obtain ⟨parts, hcell, -⟩ := h
      rw [hcell] at hlarge
      cases hlarge
    | _ =>
      have hcell : heap ref = _ := h
      rw [hcell] at hlarge
      cases hlarge
  settle cell h := by
    cases cell with
    | int n =>
      have hrange : require "PROXY_INTEGER_RANGE" (n.natAbs ≤ 9007199254740991) = .error (refusal "PROXY_DATA_SIZE") := h
      unfold require conform guardWith at hrange
      split at hrange <;> simp [refusal] at hrange
    | _ => cases h
  deep h := by simp [scheme, refusal] at h

end

end HarnessConformance.Admission

namespace HarnessConformance.LiveSession
open Lib Lib.Outcome Lib.Lines

variable {ρ : Type}

/-- A refusal with the module's own text. -/
def refusal (code : String) : PyError := .conformance code "invalid live-backend data; no execution authority"

/-- How `_bounded` of `live_session.py` charges objects. -/
def scheme (ρ : Type) (maximum : ℕ) : Scheme ρ PyError where
  budget := maximum
  levels := 9
  deep := refusal "SESSION_DEPTH_EXCEEDED"
  admits
    | .int n => require "SESSION_TYPE_INVALID" (-(2 ^ 53 - 1) ≤ n ∧ n ≤ 2 ^ 53 - 1)
    | .str text => require "SESSION_SIZE_EXCEEDED" (text.length ≤ maximum)
    | .list items => require "SESSION_COLLECTION_EXCEEDED" (items.length ≤ 4096)
    | .dict members => require "SESSION_COLLECTION_EXCEEDED" (members.length ≤ 4096)
    | .foreign => .error (refusal "SESSION_TYPE_INVALID")
    | _ => .ok ()
  cost
    | .str text => text.length + 2
    | .list items => 2 + (items.length - 1)
    | .dict members => 2 + (members.length - 1) + members.length
    | _ => 1
  large := refusal "SESSION_SIZE_EXCEEDED"
  settle _ := .ok ()
  key := refusal "SESSION_TYPE_INVALID"

def reader (maximum : ℕ) : Reader PyError := ⟨bounded maximum, boundedItems maximum, boundedMembers maximum⟩

theorem nonneg_of_bounded {maximum depth : ℕ} {left r : ℤ} {v : Json} (h : bounded maximum depth left v = .ok r) : 0 ≤ r := by
  cases v <;> simp only [bounded, bind_eq_ok, require_eq_ok, exists_const, pure_eq_ok] at h
  case arr vs =>
    obtain ⟨-, -, -, _, -, hr, rfl⟩ := h
    exact hr
  case obj ms =>
    obtain ⟨-, -, -, _, -, hr, rfl⟩ := h
    exact hr
  all_goals
    first
    | obtain ⟨-, hr, rfl⟩ := h
      exact hr
    | obtain ⟨-, -, hr, rfl⟩ := h
      exact hr

theorem nonneg_of_boundedItems {maximum depth : ℕ} {left r : ℤ} {vs : List Json} (hleft : 0 ≤ left)
    (h : boundedItems maximum depth left vs = .ok r) : 0 ≤ r := by
  induction vs generalizing left with
  | nil => exact hleft.trans_eq (pure_eq_ok.mp h)
  | cons v vs ih =>
    obtain ⟨left', hv, hvs⟩ := bind_eq_ok.mp h
    exact ih (nonneg_of_bounded hv) hvs

theorem nonneg_of_boundedMembers {maximum depth : ℕ} {left r : ℤ} {ms : Json.Members} (hleft : 0 ≤ left)
    (h : boundedMembers maximum depth left ms = .ok r) : 0 ≤ r := by
  induction ms generalizing left with
  | nil => exact hleft.trans_eq (pure_eq_ok.mp h)
  | cons m ms ih =>
    obtain ⟨k, v⟩ := m
    simp only [boundedMembers, bind_eq_ok, require_eq_ok, exists_const] at h
    obtain ⟨-, -, -, left', hv, hms⟩ := h
    exact ih (nonneg_of_bounded hv) hms

/-- The last check of a container cannot fail. -/
theorem settled {x : Py ℤ} (h : ∀ r, x = .ok r → 0 ≤ r) :
    (x >>= fun r => require "SESSION_SIZE_EXCEEDED" (0 ≤ r) >>= fun _ => pure r) = x := by
  cases x with
  | error e => rfl
  | ok r =>
    have hr : require "SESSION_SIZE_EXCEEDED" (0 ≤ r) = .ok () := require_eq_ok.mpr (h r rfl)
    rw [ok_bind, hr]
    rfl

theorem follows (heap : Heap ρ) (maximum : ℕ) : (scheme ρ maximum).Follows heap (reader maximum) where
  deep left v := by
    change bounded maximum 9 left v = .error (refusal "SESSION_DEPTH_EXCEEDED")
    cases v <;> rfl
  value {v ref depth} h hdepth charged := by
    have hdeep : require "SESSION_DEPTH_EXCEEDED" (depth ≤ maxDepth) = .ok () := require_eq_ok.mpr (Nat.lt_succ_iff.mp hdepth)
    have hsize {cost : ℕ} {left : ℤ} (hleft : left = maximum - (charged + cost : ℕ)) :
        require "SESSION_SIZE_EXCEEDED" (0 ≤ left) = require "SESSION_SIZE_EXCEEDED" (charged + cost ≤ maximum) := by
      have hfits : 0 ≤ left ↔ charged + cost ≤ maximum := by omega
      simp only [require, conform, guardWith, hfits]
    have hcontainer {cost : ℕ} {left : ℤ} (hleft : left = maximum - (charged + cost : ℕ)) {x : Py ℤ}
        (hx : ∀ r, 0 ≤ left → x = .ok r → 0 ≤ r) : (require "SESSION_SIZE_EXCEEDED" (0 ≤ left) >>= fun _ => x >>= fun r =>
          require "SESSION_SIZE_EXCEEDED" (0 ≤ r) >>= fun _ => pure r) =
        (require "SESSION_SIZE_EXCEEDED" (charged + cost ≤ maximum) >>= fun _ => x) := by
      rw [← hsize hleft]
      by_cases hpositive : 0 ≤ left
      · rw [settled fun r => hx r hpositive]
      · have hrefused : require "SESSION_SIZE_EXCEEDED" (0 ≤ left) = .error (refusal "SESSION_SIZE_EXCEEDED") := if_neg hpositive
        rw [hrefused]
        rfl
    change bounded maximum depth (maximum - charged) v = _
    cases v with
    | null | bool b | int n =>
      have hcell : heap ref = _ := h
      have hone : (maximum : ℤ) - charged - 1 = maximum - (charged + 1 : ℕ) := by omega
      rw [bounded, hcell, hdeep, ok_bind, hsize hone, hone]
      rfl
    | str text =>
      have hcell : heap ref = _ := h
      have hleft : (maximum : ℤ) - charged - (text.length + 2) = maximum - (charged + (text.length + 2) : ℕ) := by omega
      rw [bounded, hcell, hdeep, ok_bind, hsize hleft, hleft]
      rfl
    | arr vs =>
      obtain ⟨items, hcell, hitems⟩ := h
      have hleft : (maximum : ℤ) - charged - (2 + (vs.length - 1 : ℕ)) = maximum - (charged + (2 + (vs.length - 1)) : ℕ) := by omega
      rw [bounded, hcell, hdeep, ok_bind]
      dsimp only
      rw [hcontainer hleft fun r hpositive => nonneg_of_boundedItems hpositive, hleft, ← hitems.length]
      rfl
    | obj ms =>
      obtain ⟨members, hcell, hmembers⟩ := h
      have hleft : (maximum : ℤ) - charged - (2 + (ms.length - 1 : ℕ) + ms.length) =
          maximum - (charged + (2 + (ms.length - 1) + ms.length) : ℕ) := by omega
      rw [bounded, hcell, hdeep, ok_bind]
      dsimp only
      rw [hcontainer hleft fun r hpositive => nonneg_of_boundedMembers hpositive, hleft, ← hmembers.length]
      rfl
  items_nil depth left := rfl
  items_cons depth left v vs := rfl
  members_nil depth left := rfl
  members_cons depth left k v ms := by
    have hkey : bounded maximum depth left (.str k) = (do
        require "SESSION_DEPTH_EXCEEDED" (depth ≤ maxDepth)
        require "SESSION_SIZE_EXCEEDED" (k.length ≤ maximum)
        require "SESSION_SIZE_EXCEEDED" (0 ≤ left - (k.length + 2))
        pure (left - (k.length + 2))) := by rw [bounded]
    change boundedMembers maximum depth left ((k, v) :: ms) = bounded maximum depth left (.str k) >>= _
    rw [boundedMembers, hkey]
    simp only [bind_assoc, pure_bind]
    rfl

theorem weighs (heap : Heap ρ) (maximum : ℕ) : (scheme ρ maximum).Weighs heap Json.width where
  cost ref v h := by
    cases v with
    | null | bool b | int n =>
      have hcell : heap ref = _ := h
      rw [hcell]
      exact Admission.one_le_width _
    | str text =>
      have hcell : heap ref = _ := h
      rw [hcell]
      exact Admission.length_le_width text
    | arr vs =>
      obtain ⟨items, hcell, hitems⟩ := h
      rw [hcell, Json.width, Json.widthItems_eq, Scheme.partsWeight]
      change 2 + (items.length - 1) + _ ≤ _
      rw [hitems.length]
    | obj ms =>
      obtain ⟨members, hcell, hmembers⟩ := h
      rw [hcell, Json.width, Scheme.partsWeight, Admission.width_members]
      change 2 + (members.length - 1) + members.length + _ ≤ _
      rw [hmembers.length]
  admits ref v h hlarge := by
    have hother {code : String} {p : Prop} [Decidable p] (hcode : code ≠ "SESSION_SIZE_EXCEEDED")
        (hrefused : require code p = .error (refusal "SESSION_SIZE_EXCEEDED")) : False := by
      unfold require conform guardWith at hrefused
      split at hrefused
      · cases hrefused
      · exact hcode (PyError.conformance.inj (Except.error.inj hrefused)).1
    cases v with
    | null | bool b =>
      have hcell : heap ref = _ := h
      rw [hcell] at hlarge
      cases hlarge
    | int n =>
      have hcell : heap ref = _ := h
      rw [hcell] at hlarge
      exact (hother (by decide) hlarge).elim
    | str text =>
      have hcell : heap ref = _ := h
      rw [hcell] at hlarge
      have hlong : ¬ text.length ≤ maximum := fun hle => by
        have hok : require "SESSION_SIZE_EXCEEDED" (text.length ≤ maximum) = .ok () := require_eq_ok.mpr hle
        cases hok.symm.trans hlarge
      have hwidth := Admission.length_le_width text
      change maximum < _
      omega
    | arr vs | obj ms =>
      obtain ⟨parts, hcell, -⟩ := h
      rw [hcell] at hlarge
      exact (hother (by decide) hlarge).elim
  settle cell := nofun
  deep h := by simp [scheme, refusal] at h

end HarnessConformance.LiveSession

namespace HarnessConformance
open Lib Lib.Outcome Lib.Lines

variable [Runtime]

/-- The reasons of the strict loader beside those of the value check. -/
def loaderReasons : List String :=
  ["DOCUMENT_TOO_LARGE", "INVALID_UTF8", "INVALID_JSON", "NON_CANONICAL_NUMBER", "DUPLICATE_JSON_MEMBER", "NON_CANONICAL_JSON"]

theorem raises_requireCanonicalDocument {allowed : PyError → Bool}
    (h : ∀ reason ∈ valueReasons ++ loaderReasons, ∀ message, allowed (.conformance reason message) = true)
    (hbuiltin : allowed .unicodeEncodeError = true ∧ allowed .recursionError = true) (data : Bytes) :
    Raises allowed (requireCanonicalDocument data) := by
  have hvalue : ∀ reason ∈ valueReasons, ∀ message, allowed (.conformance reason message) = true := fun reason hreason =>
    h reason (List.mem_append_left _ hreason)
  have hloader {reason : String} (hreason : reason ∈ loaderReasons) (message : String) :
      allowed (.conformance reason message) = true := h reason (List.mem_append_right _ hreason) message
  refine Raises.bind ?_ fun v _ => (raises_canonicalBytes hvalue v).bind fun _ _ => ?_
  · refine (raises_conform (hloader (by decide) _)).bind fun _ _ => ?_
    split
    · exact raises_error (hloader (by decide) _)
    · rename_i text htext
      refine Raises.bind ?_ fun v _ => (raises_validateValue hvalue 0 v).bind fun _ _ => raises_ok
      unfold loadText
      split
      · exact raises_ok
      · rename_i e he
        refine raises_error ?_
        cases e with
        | invalid | float | duplicate key => exact hloader (by decide) _
        | surrogate => exact hbuiltin.1
        | recursion => exact hbuiltin.2
  · exact (raises_conform (hloader (by decide) _)).bind fun _ _ => raises_ok

/-- The text of a value, read back, is as long as it was. -/
theorem width_of_read {v w : Json} (h : requireCanonicalDocument (canonicalText v) = .ok w) : w.width = (canonicalText v).length := by
  rw [(requireCanonicalDocument_text h).2, length_canonicalText]

/-! ## Size refusals -/

/-- Any other exception. -/
def isNot (refused e : PyError) : Bool := e ≠ refused

section
variable {reason message : String}

omit [Runtime] in
theorem isNot_of_mem {reasons : List String} (h : reason ∉ reasons) :
    ∀ r ∈ reasons, ∀ text, isNot (.conformance reason message) (.conformance r text) = true := fun _ hr _ =>
  decide_eq_true fun heq => h ((PyError.conformance.inj heq).1 ▸ hr)

theorem isNot_read (h : reason ∉ valueReasons ++ loaderReasons) (data : Bytes) :
    Raises (isNot (.conformance reason message)) (requireCanonicalDocument data) :=
  raises_requireCanonicalDocument (isNot_of_mem h) ⟨rfl, rfl⟩ data

theorem isNot_encode (h : reason ∉ valueReasons ++ loaderReasons) (v : Json) :
    Raises (isNot (.conformance reason message)) (canonicalBytes v) :=
  raises_canonicalBytes (isNot_of_mem fun hmem => h (List.mem_append_left _ hmem)) v

end

omit [Runtime] in
/-- A reader refuses the size of nothing that weighs little enough. -/
theorem isNot_value {s : Scheme Json PyError} {b : Reader PyError} (hb : s.Follows tree b) (hw : s.Weighs tree Json.width)
    {v : Json} (hv : v.width ≤ s.budget) : Raises (isNot s.large) (b.value 0 s.budget v) := by
  intro e he
  refine decide_eq_true fun heq => ?_
  rw [heq] at he
  exact absurd (Scheme.large_of_follows hb hw he) (not_lt.mpr hv)

/-- What either entry of a data boundary is handed for a value. -/
def Spelled (v : Json) (input : Input) : Prop := input = .data v ∨ input = .bytes (canonicalText v)

theorem Admission.size_refused {v : Json} {input : Input} (hinput : Spelled v input) {maximum : ℕ}
    (h : document input maximum = .error (refusal "PROXY_DATA_SIZE")) : maximum < (canonicalText v).length := by
  by_contra hle
  rw [not_lt] at hle
  have hread := @isNot_read _ "PROXY_DATA_SIZE" "fixed proxy refused; no execution authority" (by decide)
  have hencode := @isNot_encode _ "PROXY_DATA_SIZE" "fixed proxy refused; no execution authority" (by decide)
  have hvalue {w : Json} (hw : w.width ≤ maximum) : Raises (isNot (refusal "PROXY_DATA_SIZE")) (bounded 0 maximum w) :=
    isNot_value (follows tree maximum) (weighs tree maximum) hw
  have hfits {raw : Bytes} (hraw : raw.length ≤ maximum) : require "PROXY_DATA_SIZE" (raw.length ≤ maximum) = .ok () :=
    require_eq_ok.mpr hraw
  have hraises : Raises (isNot (refusal "PROXY_DATA_SIZE")) (document input maximum) := by
    rcases hinput with rfl | rfl
    · refine (hvalue ((length_canonicalText v).symm.trans_le hle)).bind fun _ _ => (hencode v).bind fun raw hraw => ?_
      obtain ⟨-, rfl⟩ := canonicalBytes_eq_ok.mp hraw
      rw [hfits hle]
      exact hread _
    · have hpositive : 0 < (canonicalText v).length := (one_le_width v).trans_eq (length_canonicalText v).symm
      have hsize : require "PROXY_DATA_SIZE" (0 < (canonicalText v).length ∧ (canonicalText v).length ≤ maximum) = .ok () :=
        require_eq_ok.mpr ⟨hpositive, hle⟩
      rw [document, hsize]
      refine (hread _).bind fun w hw => (hencode w).bind fun raw hraw => ?_
      obtain ⟨-, rfl⟩ := canonicalBytes_eq_ok.mp hraw
      have hwidth := width_of_read hw
      refine (raises_conform (by decide)).bind fun _ _ => (hvalue (hwidth.trans_le hle)).bind fun _ _ => ?_
      rw [hfits ((length_canonicalText w).trans_le (hwidth.trans_le hle))]
      exact raises_ok
  exact absurd rfl (of_decide_eq_true (hraises _ h))

theorem LiveSession.size_refused {v : Json} {input : Input} (hinput : Spelled v input) {maximum : ℕ}
    (h : dataDocument input maximum = .error (refusal "SESSION_SIZE_EXCEEDED")) : maximum < (canonicalText v).length := by
  by_contra hle
  rw [not_lt] at hle
  have hread := @isNot_read _ "SESSION_SIZE_EXCEEDED" "invalid live-backend data; no execution authority" (by decide)
  have hencode := @isNot_encode _ "SESSION_SIZE_EXCEEDED" "invalid live-backend data; no execution authority" (by decide)
  have hvalue {w : Json} (hw : w.width ≤ maximum) :
      Raises (isNot (refusal "SESSION_SIZE_EXCEEDED")) (bounded maximum 0 maximum w) :=
    isNot_value (follows tree maximum) (weighs tree maximum) hw
  have hfits {raw : Bytes} (hraw : raw.length ≤ maximum) : require "SESSION_SIZE_EXCEEDED" (raw.length ≤ maximum) = .ok () :=
    require_eq_ok.mpr hraw
  have hmalformed {x : Py Json} (hx : Raises (isNot (refusal "SESSION_SIZE_EXCEEDED")) x) :
      Raises (isNot (refusal "SESSION_SIZE_EXCEEDED")) (malformed x) := by
    cases x with
    | ok r => exact raises_ok
    | error e =>
      cases e with
      | conformance r text => exact hx
      | _ =>
        simp only [malformed]
        split
        · exact raises_error (by decide)
        · exact hx
  have hdata : Raises (isNot (refusal "SESSION_SIZE_EXCEEDED")) (dataValue input maximum) := by
    rcases hinput with rfl | rfl
    · exact raises_ok
    · rw [dataValue, hfits hle]
      exact hread _
  have hraises : Raises (isNot (refusal "SESSION_SIZE_EXCEEDED")) (dataDocument input maximum) := by
    refine (raises_conform (by decide)).bind fun _ _ => hmalformed (hdata.bind fun w hw => ?_)
    have hwidth : w.width = (canonicalText v).length := by
      rcases hinput with rfl | rfl
      · obtain rfl := pure_eq_ok.mp hw
        exact (length_canonicalText v).symm
      · rw [dataValue, hfits hle] at hw
        exact width_of_read hw
    refine (hvalue (hwidth.trans_le hle)).bind fun _ _ => (raises_conform (by decide)).bind fun _ _ => (hencode w).bind fun raw hraw => ?_
    obtain ⟨-, rfl⟩ := canonicalBytes_eq_ok.mp hraw
    rw [hfits ((length_canonicalText w).trans_le (hwidth.trans_le hle))]
    exact hread _
  exact absurd rfl (of_decide_eq_true (hraises _ h))

/-- Either traversal looks at no more objects than the maximum and one, however they are shared; it charges no more than the text
of the value is long; a size is refused only of longer values, and no longer value is accepted. -/
theorem traversal_budgets :
    (∀ (ρ : Type) (heap : Heap ρ) (ref : ρ) (maximum : ℕ),
      ((Admission.scheme ρ maximum).run heap ref).2.nodes ≤ maximum + 1 ∧
      ((LiveSession.scheme ρ maximum).run heap ref).2.nodes ≤ maximum + 1) ∧
    (∀ (ρ : Type) (heap : Heap ρ) (ref : ρ) (maximum : ℕ) (v : Json), Unfolds heap v ref →
      (Admission.bounded 0 maximum v = ((Admission.scheme ρ maximum).run heap ref).1.map fun _ =>
        (maximum : ℤ) - ((Admission.scheme ρ maximum).run heap ref).2.charged) ∧
      (LiveSession.bounded maximum 0 maximum v = ((LiveSession.scheme ρ maximum).run heap ref).1.map fun _ =>
        (maximum : ℤ) - ((LiveSession.scheme ρ maximum).run heap ref).2.charged) ∧
      ((Admission.scheme ρ maximum).run heap ref).2.charged ≤ (canonicalText v).length ∧
      ((LiveSession.scheme ρ maximum).run heap ref).2.charged ≤ (canonicalText v).length) ∧
    ∀ (v : Json) (input : Input) (maximum : ℕ), Spelled v input →
      (Admission.document input maximum = .error (Admission.refusal "PROXY_DATA_SIZE") → maximum < (canonicalText v).length) ∧
      (LiveSession.dataDocument input maximum = .error (LiveSession.refusal "SESSION_SIZE_EXCEEDED") →
        maximum < (canonicalText v).length) ∧
      ∀ r, Admission.document input maximum = .ok r ∨ LiveSession.dataDocument input maximum = .ok r →
        (canonicalText v).length ≤ maximum := by
  have hadmission (ρ : Type) (maximum : ℕ) (cell : Cell ρ) : 1 ≤ (Admission.scheme ρ maximum).cost cell := by
    cases cell <;> simp [Admission.scheme]
  have hsession (ρ : Type) (maximum : ℕ) (cell : Cell ρ) : 1 ≤ (LiveSession.scheme ρ maximum).cost cell := by
    cases cell <;> simp [LiveSession.scheme] <;> omega
  refine ⟨fun ρ heap ref maximum => ⟨?_, ?_⟩, fun ρ heap ref maximum v hv => ⟨?_, ?_, ?_, ?_⟩, fun v input maximum hinput => ?_⟩
  · exact Scheme.nodes_le (hadmission ρ maximum) ref
  · exact Scheme.nodes_le (hsession ρ maximum) ref
  · exact Scheme.run_follows (Admission.follows heap maximum) hv
  · exact Scheme.run_follows (LiveSession.follows heap maximum) hv
  · rw [length_canonicalText]
    exact (Scheme.charged_le (Admission.weighs heap maximum) hv).1
  · rw [length_canonicalText]
    exact (Scheme.charged_le (LiveSession.weighs heap maximum) hv).1
  · refine ⟨Admission.size_refused hinput, LiveSession.size_refused hinput, fun r hr => ?_⟩
    rcases hinput with rfl | rfl
    · rcases hr with hr | hr
      · simp only [Admission.document, bind_eq_ok, Admission.require_eq_ok, exists_const, canonicalBytes_eq_ok] at hr
        obtain ⟨-, -, _, ⟨-, rfl⟩, hlength, -⟩ := hr
        exact hlength
      · simp only [LiveSession.dataDocument, LiveSession.dataValue, bind_eq_ok, LiveSession.malformed_eq_ok,
          LiveSession.require_eq_ok, exists_const, canonicalBytes_eq_ok, pure_eq_ok] at hr
        obtain ⟨-, _, rfl, -, -, -, _, ⟨-, rfl⟩, hlength, -⟩ := hr
        exact hlength
    · rcases hr with hr | hr
      · exact (Admission.document_bytes hr).2.2.1.2
      · simp only [LiveSession.dataDocument, LiveSession.dataValue, bind_eq_ok, LiveSession.malformed_eq_ok,
          LiveSession.require_eq_ok, exists_const] at hr
        obtain ⟨-, _, ⟨hlength, -⟩, -⟩ := hr
        exact hlength

omit [Runtime] in
/-- Forty lists that each hold the next one twice, under a budget of a hundred. -/
theorem traversal_budgets_doubling : let _ := Runtime.ascii; let doubling : Heap ℕ := fun n => if n < 40 then .list [n + 1, n + 1] else .null
    ((Admission.scheme ℕ 100).run doubling 0).2.nodes ≤ 101 ∧ ((LiveSession.scheme ℕ 100).run doubling 38).2.charged ≤ 25 := by
  intro _ doubling
  have hv : Unfolds doubling (.arr [.arr [.null, .null], .arr [.null, .null]]) 38 := by
    have hlast : Unfolds doubling (.arr [.null, .null]) 39 := ⟨_, rfl, 40, _, rfl, rfl, 40, _, rfl, rfl, rfl⟩
    exact ⟨_, rfl, 39, _, rfl, hlast, 39, _, rfl, hlast, rfl⟩
  have hlength : (canonicalText (.arr [.arr [.null, .null], .arr [.null, .null]])).length = 25 := by
    rw [length_canonicalText]
    decide
  refine ⟨(traversal_budgets.1 ℕ doubling 0 100).1, ?_⟩
  exact ((traversal_budgets.2.1 ℕ doubling 38 100 _ hv).2.2.2).trans hlength.le

end HarnessConformance
