import HarnessConformance.PlainData

/-! # Admission documents

The data boundary of `live_mutation_admission.py`: `document` takes canonical bytes or plain data
and returns the canonical value both spell. -/

namespace HarnessConformance
set_option autoImplicit false

/-- Plain data handed over has no repeated keys. -/
def Input.Wf : Input → Prop
  | .data value => value.Wf
  | _ => True

end HarnessConformance

namespace HarnessConformance.Admission
open Lib Lib.Outcome Lib.Lines
set_option autoImplicit false

def require (reason : String) (condition : Prop) [Decidable condition] : Py Unit :=
  conform reason "fixed proxy refused; no execution authority" condition

@[simp] theorem require_eq_ok {reason : String} {p : Prop} [Decidable p] {u : Unit} : require reason p = .ok u ↔ p :=
  conform_eq_ok

/-- A refusal with the module's own text. -/
def refusal (reason : String) : PyError := .conformance reason "fixed proxy refused; no execution authority"

/-! ## Bounded data -/

/-- Charge one node: its depth, then its cost against the budget. -/
def charge (depth : ℕ) (budget cost : ℤ) : Py ℤ := do
  require "PROXY_DATA_TYPE" (depth ≤ 16)
  require "PROXY_DATA_SIZE" (0 ≤ budget - cost)
  pure (budget - cost)

mutual
/-- `_bounded(value, maximum, depth, budget)`: what is left of the budget. -/
def bounded (depth : ℕ) (budget : ℤ) : Json → Py ℤ
  | .null => charge depth budget 1
  | .bool _ => charge depth budget 1
  | .int n => do
    let budget ← charge depth budget 1
    require "PROXY_INTEGER_RANGE" (n.natAbs ≤ 9007199254740991)
    pure budget
  | .str text => charge depth budget (text.length + 1)
  | .arr items => do
    let budget ← charge depth budget (items.length + 1)
    boundedItems (depth + 1) budget items
  | .obj members => do
    let budget ← charge depth budget (members.length + 1)
    boundedMembers (depth + 1) budget members
def boundedItems (depth : ℕ) (budget : ℤ) : List Json → Py ℤ
  | [] => pure budget
  | item :: items => do
    let budget ← bounded depth budget item
    boundedItems depth budget items
/-- A key is charged as the string it is. -/
def boundedMembers (depth : ℕ) (budget : ℤ) : Json.Members → Py ℤ
  | [] => pure budget
  | (key, item) :: members => do
    let budget ← charge depth budget (key.length + 1)
    let budget ← bounded depth budget item
    boundedMembers depth budget members
end

variable [Runtime]

/-- `document(value, maximum)` -/
def document (input : Input) (maximum : ℕ) : Py Json :=
  match input with
  | .bytes raw => do
    require "PROXY_DATA_SIZE" (0 < raw.length ∧ raw.length ≤ maximum)
    let value ← requireCanonicalDocument raw
    let encoded ← canonicalBytes value
    require "PROXY_NONCANONICAL_BYTES" (encoded = raw)
    let _ ← bounded 0 maximum value
    require "PROXY_DATA_SIZE" (encoded.length ≤ maximum)
    pure value
  | .data value => do
    let _ ← bounded 0 maximum value
    let raw ← canonicalBytes value
    require "PROXY_DATA_SIZE" (raw.length ≤ maximum)
    requireCanonicalDocument raw
  | .foreign => .error (refusal "PROXY_DATA_TYPE")

/-- Bytes are accepted exactly as the canonical text of a value, with nothing behind it. -/
theorem document_bytes {raw : Bytes} {maximum : ℕ} {v : Json} (h : document (.bytes raw) maximum = .ok v) :
    Canonical v ∧ raw = canonicalText v ∧ (0 < raw.length ∧ raw.length ≤ maximum) ∧ ∃ b, bounded 0 maximum v = .ok b := by
  simp only [document, bind_eq_ok, require_eq_ok, exists_const, canonicalBytes_eq_ok, pure_eq_ok] at h
  obtain ⟨hlength, w, hw, _, ⟨-, rfl⟩, hraw, b, hb, -, rfl⟩ := h
  exact ⟨(requireCanonicalDocument_eq_ok.mp hw).1, hraw.symm, hlength, b, hb⟩

theorem document_data {w v : Json} {maximum : ℕ} (h : document (.data w) maximum = .ok v) :
    requireCanonicalDocument (canonicalText w) = .ok v := by
  simp only [document, bind_eq_ok, require_eq_ok, exists_const, canonicalBytes_eq_ok] at h
  obtain ⟨b, hb, _, ⟨-, rfl⟩, -, h⟩ := h
  exact h

/-- Whatever a document came from, it is canonical. -/
theorem document_canonical {input : Input} {maximum : ℕ} {v : Json} (h : document input maximum = .ok v) :
    Canonical v := by
  cases input with
  | bytes raw => exact (document_bytes h).1
  | data w => exact (requireCanonicalDocument_text (document_data h)).1
  | foreign => cases h

theorem document_data_wf {w v : Json} {maximum : ℕ} (hw : w.Wf) (h : document (.data w) maximum = .ok v) :
    v = w.canon :=
  requireCanonicalDocument_text_wf hw (document_data h)

/-! ## Small documents -/

section
omit [Runtime]

theorem charge_eq_ok {depth : ℕ} {budget cost r : ℤ} :
    charge depth budget cost = .ok r ↔ depth ≤ 16 ∧ 0 ≤ budget - cost ∧ budget - cost = r := by
  simp only [charge, bind_eq_ok, require_eq_ok, exists_const, pure_eq_ok]

/-- What `bounded` does to a value whose text fits the budget. -/
def Fits (depth : ℕ) (v : Json) : Prop := ∀ budget : ℤ, v.width ≤ budget →
  ∃ r, bounded depth budget v = .ok r ∧ budget - v.width ≤ r

theorem boundedItems_of_width {depth : ℕ} {items : List Json} (h : ∀ v ∈ items, Fits depth v) (budget : ℤ)
    (hwidth : Json.widthItems items ≤ budget) :
    ∃ r, boundedItems depth budget items = .ok r ∧ budget - Json.widthItems items ≤ r := by
  induction items generalizing budget with
  | nil => exact ⟨budget, rfl, by simp [Json.widthItems]⟩
  | cons v vs ih =>
    rw [List.forall_mem_cons] at h
    rw [Json.widthItems] at hwidth ⊢
    push_cast at hwidth ⊢
    obtain ⟨r, hr, hlow⟩ := h.1 budget (by omega)
    obtain ⟨t, ht, hlow'⟩ := ih h.2 r (by omega)
    exact ⟨t, bind_eq_ok.mpr ⟨r, hr, ht⟩, by omega⟩

theorem boundedMembers_of_width {depth : ℕ} {members : Json.Members} (hdepth : members ≠ [] → depth ≤ 16)
    (h : ∀ m ∈ members, Fits depth m.2) (budget : ℤ) (hwidth : Json.widthMembers members ≤ budget) :
    ∃ r, boundedMembers depth budget members = .ok r ∧ budget - Json.widthMembers members ≤ r := by
  induction members generalizing budget with
  | nil => exact ⟨budget, rfl, by simp [Json.widthMembers]⟩
  | cons m ms ih =>
    obtain ⟨k, v⟩ := m
    rw [List.forall_mem_cons] at h
    rw [Json.widthMembers] at hwidth ⊢
    push_cast at hwidth ⊢
    have hkey := Json.length_le_textWidth k
    have hcharge := charge_eq_ok.mpr ⟨hdepth (List.cons_ne_nil _ _), show 0 ≤ budget - (k.length + 1) by omega, rfl⟩
    obtain ⟨r, hr, hlow⟩ := h.1 (budget - (k.length + 1)) (by dsimp only; omega)
    obtain ⟨t, ht, hlow'⟩ := ih (fun _ => hdepth (List.cons_ne_nil _ _)) h.2 r (by dsimp only at hlow; omega)
    refine ⟨t, ?_, by dsimp only at hlow; omega⟩
    rw [boundedMembers, bind_eq_ok]
    exact ⟨_, hcharge, bind_eq_ok.mpr ⟨r, hr, ht⟩⟩

end

/-- The walk charges at most the bytes of the text, so a text within the budget is not refused. -/
theorem bounded_of_width {v : Json} {depth valid : ℕ} (hvalid : ValidAt valid v) (hheight : v.height + depth ≤ 16) :
    Fits depth v := by
  have hdepth : depth ≤ 16 := (Nat.le_add_left _ _).trans hheight
  induction v generalizing depth valid with
  | null =>
    intro budget hwidth
    rw [Json.width] at hwidth ⊢
    exact ⟨budget - 1, charge_eq_ok.mpr ⟨hdepth, by omega, rfl⟩, by omega⟩
  | bool b =>
    intro budget hwidth
    have hpos : 1 ≤ Json.width (.bool b) := by cases b <;> decide
    exact ⟨budget - 1, charge_eq_ok.mpr ⟨hdepth, by omega, rfl⟩, by omega⟩
  | int n =>
    intro budget hwidth
    simp only [ValidAt, validateValue, bind_eq_ok, checkDepth_eq_ok, conform_eq_ok, exists_const] at hvalid
    have hpos := Json.one_le_width_int n
    have hrange := hvalid.2
    rw [maxSafeInteger] at hrange
    have hcharge := charge_eq_ok.mpr ⟨hdepth, show 0 ≤ budget - 1 by omega, rfl⟩
    refine ⟨budget - 1, ?_, by omega⟩
    simp only [bounded, bind_eq_ok, require_eq_ok, exists_const, pure_eq_ok]
    exact ⟨_, hcharge, by omega, rfl⟩
  | str s =>
    intro budget hwidth
    have hlength := Json.length_le_textWidth s
    rw [Json.width] at hwidth ⊢
    push_cast at hwidth ⊢
    exact ⟨budget - (s.length + 1), charge_eq_ok.mpr ⟨hdepth, by omega, rfl⟩, by omega⟩
  | arr items ih =>
    intro budget hwidth
    obtain ⟨-, -, hitems⟩ := validAt_arr.mp hvalid
    rw [Json.height] at hheight
    rw [Json.width] at hwidth ⊢
    push_cast at hwidth ⊢
    have hfits : ∀ v ∈ items, Fits (depth + 1) v := by
      intro v hv
      have hle := Json.heightItems_le.mp le_rfl v hv
      exact ih v hv (hitems v hv) (by omega) (by omega)
    have hcharge := charge_eq_ok.mpr ⟨hdepth, show 0 ≤ budget - (items.length + 1) by omega, rfl⟩
    obtain ⟨r, hr, hlow⟩ := boundedItems_of_width hfits (budget - (items.length + 1)) (by omega)
    refine ⟨r, ?_, by omega⟩
    rw [bounded, bind_eq_ok]
    exact ⟨_, hcharge, hr⟩
  | obj members ih =>
    intro budget hwidth
    obtain ⟨-, -, hmembers⟩ := validAt_obj.mp hvalid
    rw [Json.height] at hheight
    rw [Json.width] at hwidth ⊢
    push_cast at hwidth ⊢
    have hdeep : ∀ m ∈ members, m.2.height + (depth + 1) ≤ 16 := by
      intro m hm
      have hle := Json.heightMembers_le.mp le_rfl m hm
      omega
    have hfits : ∀ m ∈ members, Fits (depth + 1) m.2 := fun m hm =>
      ih m hm (hmembers m hm).2.2 (hdeep m hm) ((Nat.le_add_left _ _).trans (hdeep m hm))
    have hnext : members ≠ [] → depth + 1 ≤ 16 := by
      intro hne
      obtain ⟨m, ms, rfl⟩ := List.exists_cons_of_ne_nil hne
      exact (Nat.le_add_left _ _).trans (hdeep m List.mem_cons_self)
    have hcharge := charge_eq_ok.mpr ⟨hdepth, show 0 ≤ budget - (members.length + 1) by omega, rfl⟩
    obtain ⟨r, hr, hlow⟩ := boundedMembers_of_width hnext hfits (budget - (members.length + 1)) (by omega)
    refine ⟨r, ?_, by omega⟩
    rw [bounded, bind_eq_ok]
    exact ⟨_, hcharge, hr⟩

section
omit [Runtime]

theorem height_of_boundedItems {depth : ℕ} {items : List Json}
    (h : ∀ v ∈ items, ∀ budget r, bounded depth budget v = .ok r → v.height + depth ≤ 16) {budget r : ℤ}
    (hr : boundedItems depth budget items = .ok r) : ∀ v ∈ items, v.height + depth ≤ 16 := by
  induction items generalizing budget with
  | nil => nofun
  | cons v vs ih =>
    obtain ⟨left, hleft, hrest⟩ := bind_eq_ok.mp hr
    rw [List.forall_mem_cons] at h ⊢
    exact ⟨h.1 budget left hleft, ih h.2 hrest⟩

theorem height_of_boundedMembers {depth : ℕ} {members : Json.Members}
    (h : ∀ m ∈ members, ∀ budget r, bounded depth budget m.2 = .ok r → m.2.height + depth ≤ 16) {budget r : ℤ}
    (hr : boundedMembers depth budget members = .ok r) : ∀ m ∈ members, m.2.height + depth ≤ 16 := by
  induction members generalizing budget with
  | nil => nofun
  | cons m ms ih =>
    obtain ⟨key, -, hr⟩ := bind_eq_ok.mp hr
    obtain ⟨left, hleft, hrest⟩ := bind_eq_ok.mp hr
    rw [List.forall_mem_cons] at h ⊢
    exact ⟨h.1 key left hleft, ih h.2 hrest⟩

/-- The walk goes no deeper than 16. -/
theorem height_of_bounded {v : Json} {depth : ℕ} {budget r : ℤ} (h : bounded depth budget v = .ok r) : v.height + depth ≤ 16 := by
  induction v generalizing depth budget r with
  | null | bool | str => exact (Nat.zero_add depth).trans_le (charge_eq_ok.mp h).1
  | int n =>
    obtain ⟨left, hcharge, -⟩ := bind_eq_ok.mp h
    exact (Nat.zero_add depth).trans_le (charge_eq_ok.mp hcharge).1
  | arr items ih =>
    obtain ⟨left, hcharge, hitems⟩ := bind_eq_ok.mp h
    have hdepth := (charge_eq_ok.mp hcharge).1
    have hall := height_of_boundedItems (fun v hv _ _ => ih v hv) hitems
    have hle : Json.heightItems items ≤ 16 - depth := Json.heightItems_le.mpr fun v hv => by
      have hv := hall v hv
      omega
    rw [Json.height]
    omega
  | obj members ih =>
    obtain ⟨left, hcharge, hmembers⟩ := bind_eq_ok.mp h
    have hdepth := (charge_eq_ok.mp hcharge).1
    have hall := height_of_boundedMembers (fun m hm _ _ => ih m hm) hmembers
    have hle : Json.heightMembers members ≤ 16 - depth := Json.heightMembers_le.mpr fun m hm => by
      have hm := hall m hm
      omega
    rw [Json.height]
    omega

end

/-- How deep a valid value may lie depends on its height alone. -/
theorem validAt_of_height {v : Json} {valid depth : ℕ} (h : ValidAt valid v) (hheight : v.height + depth ≤ maxDepth) :
    ValidAt depth v := by
  have hdepth : depth ≤ maxDepth := (Nat.le_add_left _ _).trans hheight
  induction v generalizing valid depth with
  | null | bool => exact checkDepth_eq_ok.mpr hdepth
  | int n =>
    simp only [ValidAt, validateValue, bind_eq_ok, checkDepth_eq_ok, conform_eq_ok, exists_const] at h ⊢
    exact ⟨hdepth, h.2⟩
  | str s => exact validAt_str.mpr ⟨hdepth, (validAt_str.mp h).2⟩
  | arr items ih =>
    obtain ⟨-, hcount, hitems⟩ := validAt_arr.mp h
    rw [Json.height] at hheight
    refine validAt_arr.mpr ⟨hdepth, hcount, fun v hv => ?_⟩
    have hle := Json.heightItems_le.mp le_rfl v hv
    exact ih v hv (hitems v hv) (by omega) (by omega)
  | obj members ih =>
    obtain ⟨-, hcount, hmembers⟩ := validAt_obj.mp h
    rw [Json.height] at hheight
    refine validAt_obj.mpr ⟨hdepth, hcount, fun m hm => ?_⟩
    have hle := Json.heightMembers_le.mp le_rfl m hm
    obtain ⟨-, hkey, hvalue⟩ := hmembers m hm
    exact ⟨by omega, hkey, ih m hm hvalue (by omega) (by omega)⟩

/-- Data is accepted exactly when it is valid, shallow and small, and comes back with its members sorted. -/
theorem document_data_iff {w v : Json} {maximum : ℕ} (hw : w.Wf) : document (.data w) maximum = .ok v ↔
    Valid w ∧ w.height ≤ 16 ∧ (w.width ≤ maximum ∧ w.width ≤ maxFileBytes) ∧ v = w.canon := by
  constructor
  · intro h
    have hv := document_data_wf hw h
    obtain ⟨-, -, hfile⟩ := requireCanonicalDocument_eq_ok.mp (document_data h)
    simp only [document, bind_eq_ok, require_eq_ok, exists_const, canonicalBytes_eq_ok] at h
    obtain ⟨r, hr, _, ⟨hvalid, rfl⟩, hlength, -⟩ := h
    rw [length_canonicalText] at hlength hfile
    exact ⟨hvalid, height_of_bounded hr, ⟨hlength, hfile⟩, hv⟩
  · rintro ⟨hvalid, hheight, ⟨hwidth, hfile⟩, rfl⟩
    have hfits : Fits 0 w := bounded_of_width hvalid hheight
    obtain ⟨r, hr, -⟩ := hfits maximum (Int.ofNat_le.mpr hwidth)
    have hlength : (canonicalText w).length ≤ maximum := (length_canonicalText w).trans_le hwidth
    have hread : requireCanonicalDocument (canonicalText w) = .ok w.canon :=
      requireCanonicalDocument_eq_ok.mpr ⟨canonical_canon hw hvalid, .inl (canonicalText_canon w).symm,
        (length_canonicalText w).trans_le hfile⟩
    simp only [document, bind_eq_ok, require_eq_ok, exists_const]
    exact ⟨r, hr, _, canonicalBytes_eq_ok.mpr ⟨hvalid, rfl⟩, hlength, hread⟩

/-- Under a limit below that of the loader. -/
theorem document_data_eq_ok {w v : Json} {maximum : ℕ} (hmaximum : maximum ≤ maxFileBytes) (hw : w.Wf) :
    document (.data w) maximum = .ok v ↔ Valid w ∧ w.height ≤ 16 ∧ w.width ≤ maximum ∧ v = w.canon := by
  rw [document_data_iff hw, and_iff_left_of_imp fun h : w.width ≤ maximum => h.trans hmaximum]

/-- Valid data whose text fits is accepted. -/
theorem document_of_width {v : Json} {maximum : ℕ} (hmaximum : maximum ≤ maxFileBytes) (hwf : v.Wf) (hvalid : Valid v)
    (hheight : v.height ≤ 16) (hwidth : v.width ≤ maximum) : document (.data v) maximum = .ok v.canon :=
  (document_data_eq_ok hmaximum hwf).mpr ⟨hvalid, hheight, hwidth, rfl⟩

omit [Runtime] in
theorem one_le_width (v : Json) : 1 ≤ v.width := by
  cases v with
  | int n => exact Json.one_le_width_int n
  | bool b => cases b <;> decide
  | null => decide
  | str s => exact Nat.le_add_left 1 _
  | arr items | obj members =>
    rw [Json.width]
    omega

/-- Bytes are accepted exactly when they are the text of a shallow and small canonical value. -/
theorem document_bytes_iff {raw : Bytes} {v : Json} {maximum : ℕ} : document (.bytes raw) maximum = .ok v ↔
    Canonical v ∧ raw = canonicalText v ∧ v.height ≤ 16 ∧ v.width ≤ maximum ∧ v.width ≤ maxFileBytes := by
  constructor
  · intro h
    obtain ⟨hcanonical, rfl, ⟨-, hlength⟩, r, hr⟩ := document_bytes h
    have hfile : (canonicalText v).length ≤ maxFileBytes := by
      simp only [document, bind_eq_ok] at h
      obtain ⟨-, -, w, hw, -⟩ := h
      exact (requireCanonicalDocument_eq_ok.mp hw).2.2
    rw [length_canonicalText] at hlength hfile
    exact ⟨hcanonical, rfl, height_of_bounded hr, hlength, hfile⟩
  · rintro ⟨hcanonical, rfl, hheight, hwidth, hfile⟩
    have hfits : Fits 0 v := bounded_of_width hcanonical.valid hheight
    obtain ⟨r, hr, -⟩ := hfits maximum (Int.ofNat_le.mpr hwidth)
    have hlength : (canonicalText v).length ≤ maximum := (length_canonicalText v).trans_le hwidth
    have hread : requireCanonicalDocument (canonicalText v) = .ok v :=
      requireCanonicalDocument_eq_ok.mpr ⟨hcanonical, .inl rfl, (length_canonicalText v).trans_le hfile⟩
    have hpositive : 0 < (canonicalText v).length := by
      rw [length_canonicalText]
      exact one_le_width v
    simp only [document, bind_eq_ok, require_eq_ok, exists_const, pure_eq_ok]
    exact ⟨⟨hpositive, hlength⟩, v, hread, _, canonicalBytes_eq_ok.mpr ⟨hcanonical.valid, rfl⟩, rfl, r, hr, hlength, rfl⟩

/-- Under a limit below that of the loader. -/
theorem document_bytes_eq_ok {raw : Bytes} {v : Json} {maximum : ℕ} (hmaximum : maximum ≤ maxFileBytes) :
    document (.bytes raw) maximum = .ok v ↔ Canonical v ∧ raw = canonicalText v ∧ v.height ≤ 16 ∧ v.width ≤ maximum := by
  rw [document_bytes_iff, and_iff_left_of_imp fun h : v.width ≤ maximum => h.trans hmaximum]

/-- An accepted document may lie one level down. -/
theorem validAt_one_of_document {input : Input} {v : Json} {maximum : ℕ} (hmaximum : maximum ≤ maxFileBytes) (hwf : input.Wf)
    (h : document input maximum = .ok v) : ValidAt 1 v := by
  have hcanonical := document_canonical h
  have hheight : v.height ≤ 16 := by
    cases input with
    | bytes raw => exact ((document_bytes_eq_ok hmaximum).mp h).2.2.1
    | data w =>
      obtain ⟨-, hheight, -, rfl⟩ := (document_data_eq_ok hmaximum hwf).mp h
      rwa [Json.height_canon]
    | foreign => cases h
  exact validAt_of_height hcanonical.valid ((Nat.add_le_add_right hheight 1).trans (by decide))

/-- A slim dictionary within the limit is always accepted. -/
theorem document_slim {members : Json.Members} {maximum wide high : ℕ} (hmaximum : maximum ≤ maxFileBytes)
    (hwf : (Json.obj members).Wf) (h : ∀ m ∈ members, Slim wide high m)
    (hsize : high < 16 ∧ members.length ≤ maxCollectionItems ∧ wide ≤ maxCollectionItems ∧
      2 + members.length * (wide + 36) ≤ maximum) :
    document (.data (.obj members)) maximum = .ok (Json.obj members).canon := by
  obtain ⟨hhigh, hcount, hwide, hfits⟩ := hsize
  have hvalid : Valid (.obj members) := validAt_slim h hcount hwide (Nat.le_trans hhigh (by decide))
  exact document_of_width hmaximum hwf hvalid ((height_slim h).trans hhigh) ((width_slim h).trans hfits)

end HarnessConformance.Admission
