import HarnessConformance.Lib.Outcome
import HarnessConformance.Lib.Sha256
import HarnessConformance.Lib.JsonText
import HarnessConformance.Lib.Lines
import Mathlib

/-! # What the sources take from Python

The exceptions, the dictionary and equality operations on plain data, and the two library
functions that stay parameters: SHA-256 and Unicode normalization. -/

namespace HarnessConformance
open Lib Lib.Outcome Lib.Lines
set_option autoImplicit false

/-- `ConformanceError(reason, message)` and the built-in exceptions the sources can meet. -/
inductive PyError where
  | conformance (reason message : String)
  | keyError (key : String)
  | indexError
  | typeError
  | attributeError
  | valueError
  | unicodeEncodeError
  | recursionError
  | stopIteration
  | osError
  | overflowError
  | structError
  deriving DecidableEq

abbrev Py := Except PyError

/-- `ConformanceError` is a `ValueError`, and so is `UnicodeEncodeError`. -/
def PyError.isValueError : PyError → Bool
  | .conformance _ _ | .valueError | .unicodeEncodeError => true
  | _ => false

/-- Library functions of the interpreter that the development does not look into. -/
class Runtime where
  /-- `hashlib.sha256(data).hexdigest()` -/
  hexdigest : Bytes → String
  hexdigest_hex : ∀ data, Regex.fullmatch (.times (.one fun c => c.isDigit || ('a' ≤ c && c ≤ 'f')) 64) (hexdigest data)
  /-- `unicodedata.normalize("NFC", text)` -/
  normalize : String → String
  normalize_ascii : ∀ text, (∀ c ∈ text.toList, c.toNat < 128) → normalize text = text
  /-- `repr(text)` -/
  repr : String → String

/-- The interpreter on ASCII text, where normalization changes nothing. -/
abbrev Runtime.ascii : Runtime where
  hexdigest := Sha256.hexdigest
  hexdigest_hex := Sha256.hexdigest_hex
  normalize := id
  normalize_ascii _ _ := rfl
  repr text := "'" ++ text ++ "'"

/-- A value handed to the sources: a byte string, plain data, or an object of any other type. -/
inductive Input where
  | bytes (raw : Bytes)
  | data (value : Json)
  | foreign
  deriving DecidableEq

/-- `if not condition: raise ConformanceError(reason, message)` -/
def conform (reason message : String) (condition : Prop) [Decidable condition] : Py Unit :=
  guardWith (.conformance reason message) condition

@[simp] theorem conform_eq_ok {reason message : String} {p : Prop} [Decidable p] {u : Unit} :
    conform reason message p = .ok u ↔ p := guardWith_eq_ok

/-- `except ConformanceError: raise`, then `except (…) as exc: raise ConformanceError(reason, message)`. -/
def reraise {α : Type} (caught : PyError → Bool) (reason message : String) : Py α → Py α
  | .ok a => .ok a
  | .error (.conformance r m) => .error (.conformance r m)
  | .error e => .error (if caught e then .conformance reason message else e)

@[simp] theorem reraise_eq_ok {α : Type} {caught : PyError → Bool} {reason message : String} {x : Py α} {a : α} :
    reraise caught reason message x = .ok a ↔ x = .ok a := by
  cases x with
  | ok b => rfl
  | error e => cases e <;> simp [reraise]

/-! ## Dictionaries -/

/-- A dictionary of the program's own bookkeeping. -/
abbrev Dict (κ ν : Type) := AList fun _ : κ => ν

/-- `type(value) is dict` -/
def isObject : Json → Bool
  | .obj _ => true
  | _ => false

/-- `value[key]` -/
def item (value : Json) (key : String) : Py Json :=
  match value with
  | .obj members =>
    match members.lookup key with
    | some v => .ok v
    | none => .error (.keyError key)
  | _ => .error .typeError

/-- `value.get(key)`, with `None` for an absent key. -/
def getItem (value : Json) (key : String) : Py Json :=
  match value with
  | .obj members => .ok ((members.lookup key).getD .null)
  | _ => .error .attributeError

/-- `value[key]`, where a checked shape makes it a string. -/
def textItem (value : Json) (key : String) : Py String := do
  match ← item value key with
  | .str text => pure text
  | _ => .error .typeError

/-- `value[key]`, where a checked shape makes it an integer. -/
def intItem (value : Json) (key : String) : Py ℤ := do
  match ← item value key with
  | .int n => pure n
  | _ => .error .typeError

/-- `value.items()` -/
def membersOf (value : Json) : Py Json.Members :=
  match value with
  | .obj members => .ok members
  | _ => .error .attributeError

/-- `{k: v for k, v in value.items() if k != key}` -/
def without (value : Json) (key : String) : Py Json := do
  pure (.obj ((← membersOf value).filter fun m => m.1 ≠ key))

/-- `value[0]` -/
def firstItem (value : Json) : Py Json :=
  match value with
  | .arr (first :: _) => .ok first
  | .arr [] => .error .indexError
  | _ => .error .typeError

theorem item_eq_ok {v w : Json} {k : String} : item v k = .ok w ↔ v.get? k = some w := by
  cases v with
  | obj members =>
    simp only [item, Json.get?]
    cases members.lookup k <;> simp
  | _ => simp [item, Json.get?]

theorem textItem_eq_ok {v : Json} {k t : String} : textItem v k = .ok t ↔ v.get? k = some (.str t) := by
  simp only [textItem, bind_eq_ok, item_eq_ok]
  constructor
  · rintro ⟨w, hw, h⟩
    cases w with
    | str s => rw [hw, pure_eq_ok.mp h]
    | _ => cases h
  · exact fun h => ⟨.str t, h, rfl⟩

theorem intItem_eq_ok {v : Json} {k : String} {n : ℤ} : intItem v k = .ok n ↔ v.get? k = some (.int n) := by
  simp only [intItem, bind_eq_ok, item_eq_ok]
  constructor
  · rintro ⟨w, hw, h⟩
    cases w with
    | int m => rw [hw, pure_eq_ok.mp h]
    | _ => cases h
  · exact fun h => ⟨.int n, h, rfl⟩

theorem membersOf_eq_ok {v : Json} {members : Json.Members} : membersOf v = .ok members ↔ v = .obj members := by
  cases v <;> simp [membersOf]

theorem without_eq_ok {v w : Json} {k : String} :
    without v k = .ok w ↔ ∃ members, v = .obj members ∧ w = .obj (members.filter fun m => m.1 ≠ k) := by
  simp only [without, bind_eq_ok, membersOf_eq_ok, pure_eq_ok]
  exact exists_congr fun members => and_congr_right fun _ => eq_comm

theorem firstItem_eq_ok {v w : Json} : firstItem v = .ok w ↔ ∃ rest, v = .arr (w :: rest) := by
  cases v with
  | arr items => cases items <;> simp [firstItem]
  | _ => simp [firstItem]

theorem getItem_eq_ok {v w : Json} {k : String} :
    getItem v k = .ok w ↔ ∃ members, v = .obj members ∧ (members.lookup k).getD .null = w := by
  cases v <;> simp [getItem]

theorem getItem_of_get? {v w : Json} {k : String} (h : v.get? k = some w) : getItem v k = .ok w := by
  cases v with
  | obj members =>
    rw [getItem, show members.lookup k = some w from h]
    rfl
  | _ => cases h

/-- `value in names`, for a tuple of strings. -/
def isOneOf (value : Json) (names : List String) : Bool :=
  match value with
  | .str s => names.contains s
  | _ => false

theorem isOneOf_iff {v : Json} {names : List String} : isOneOf v names = true ↔ ∃ s ∈ names, v = .str s := by
  cases v <;> simp [isOneOf]

/-! ## Checked text -/

/-- A string that passed a check. -/
@[ext] structure Text (p : String → Bool) where
  text : String
  valid : p text = true
  deriving DecidableEq

/-- The string a value holds, if it is one and passes `p`. -/
def requireText (e : PyError) (p : String → Bool) (value : Json) : Py (Text p) :=
  match value with
  | .str s => if h : p s = true then .ok ⟨s, h⟩ else .error e
  | _ => .error e

@[simp] theorem requireText_eq_ok {e : PyError} {p : String → Bool} {v : Json} {t : Text p} :
    requireText e p v = .ok t ↔ v = .str t.text := by
  cases v with
  | str s =>
    rw [requireText, Json.str.injEq]
    split
    · rw [Except.ok.injEq]
      exact ⟨fun h => h ▸ rfl, fun h => Text.ext h⟩
    · rename_i h
      exact ⟨nofun, fun heq => absurd (heq ▸ t.valid) h⟩
  | _ => simp [requireText]

/-! ## Equality -/

mutual
/-- `v == w`: a boolean equals the integer it counts as, and member order does not matter. -/
def pyEq : Json → Json → Bool
  | .null, .null => true
  | .bool a, .bool b => a == b
  | .bool a, .int n => n == a.toInt
  | .int n, .bool a => n == a.toInt
  | .int m, .int n => m == n
  | .str s, .str t => s == t
  | .arr xs, .arr ys => pyEqItems xs ys
  | .obj ms, .obj ns => ms.length == ns.length && pyEqMembers ms ns
  | _, _ => false
def pyEqItems : List Json → List Json → Bool
  | [], [] => true
  | x :: xs, y :: ys => pyEq x y && pyEqItems xs ys
  | _, _ => false
def pyEqMembers : Json.Members → Json.Members → Bool
  | [], _ => true
  | (k, v) :: ms, ns => (match ns.lookup k with | some w => pyEq v w | none => false) && pyEqMembers ms ns
end

@[simp] theorem pyEq_str {v : Json} {s : String} : pyEq v (.str s) = true ↔ v = .str s := by
  cases v <;> simp [pyEq]

@[simp] theorem str_pyEq {v : Json} {s : String} : pyEq (.str s) v = true ↔ v = .str s := by
  cases v with
  | str t =>
    simp only [pyEq, beq_iff_eq, Json.str.injEq]
    exact eq_comm
  | _ => simp [pyEq]

@[simp] theorem pyEq_null {v : Json} : pyEq v .null = true ↔ v = .null := by
  cases v <;> simp [pyEq]

mutual
/-- No number and no boolean inside: Python's equality then tells all values apart. -/
def isTextual : Json → Bool
  | .null | .str _ => true
  | .bool _ | .int _ => false
  | .arr items => areTextual items
  | .obj members => areTextualMembers members
def areTextual : List Json → Bool
  | [] => true
  | v :: vs => isTextual v && areTextual vs
def areTextualMembers : Json.Members → Bool
  | [] => true
  | (_, v) :: ms => isTextual v && areTextualMembers ms
end

theorem areTextual_iff {items : List Json} : areTextual items = true ↔ ∀ v ∈ items, isTextual v = true := by
  induction items with
  | nil => simp [areTextual]
  | cons v vs ih => simp [areTextual, ih]

theorem areTextualMembers_iff {members : Json.Members} :
    areTextualMembers members = true ↔ ∀ m ∈ members, isTextual m.2 = true := by
  induction members with
  | nil => simp [areTextualMembers]
  | cons m ms ih => simp [areTextualMembers, ih]

theorem isTextual_canon (v : Json) : isTextual v.canon = isTextual v := by
  induction v with
  | arr items ih =>
    rw [Json.canon_arr, Bool.eq_iff_iff, isTextual, isTextual, areTextual_iff, areTextual_iff, List.forall_mem_map]
    exact forall₂_congr fun v hv => by rw [ih v hv]
  | obj members ih =>
    have hmem (m : String × Json) : m ∈ Json.sortMembers (members.map Json.canonMember) ↔ m ∈ members.map Json.canonMember :=
      (Json.sortMembers_perm _).mem_iff
    rw [Json.canon_obj, Bool.eq_iff_iff, isTextual, isTextual, areTextualMembers_iff, areTextualMembers_iff]
    simp only [hmem, List.forall_mem_map]
    exact forall₂_congr fun m hm => by rw [Json.canonMember, ih m hm]
  | _ => rfl

theorem pyEqItems_iff {xs ys : List Json} :
    pyEqItems xs ys = true ↔ List.Forall₂ (fun x y => pyEq x y = true) xs ys := by
  induction xs generalizing ys with
  | nil => cases ys <;> simp [pyEqItems]
  | cons x xs ih => cases ys <;> simp [pyEqItems, ih]

theorem pyEqMembers_iff {ms ns : Json.Members} :
    pyEqMembers ms ns = true ↔ ∀ m ∈ ms, ∃ w, ns.lookup m.1 = some w ∧ pyEq m.2 w = true := by
  induction ms with
  | nil => simp [pyEqMembers]
  | cons m ms ih =>
    obtain ⟨k, v⟩ := m
    simp only [pyEqMembers, Bool.and_eq_true, ih, List.forall_mem_cons]
    cases ns.lookup k <;> simp

theorem pyEq_refl {v : Json} (h : v.Wf) : pyEq v v = true := by
  induction v with
  | arr items ih =>
    rw [pyEq, pyEqItems_iff, List.forall₂_same]
    exact fun v hv => ih v hv (Json.wf_arr.mp h v hv)
  | obj members ih =>
    rw [Json.wf_obj] at h
    rw [pyEq, Bool.and_eq_true, beq_iff_eq, pyEqMembers_iff]
    exact ⟨rfl, fun m hm => ⟨m.2, Json.lookup_of_mem h.1 hm, ih m hm (h.2 m hm)⟩⟩
  | _ => simp [pyEq]

/-- Text equal under `==` is the same text up to member order. -/
theorem canon_eq_of_pyEq {v w : Json} (hw : isTextual w = true) (hvd : v.Wf) (hwd : w.Wf)
    (h : pyEq v w = true) : v.canon = w.canon := by
  induction w generalizing v with
  | null => rw [pyEq_null.mp h]
  | bool b => simp [isTextual] at hw
  | int n => simp [isTextual] at hw
  | str s => rw [pyEq_str.mp h]
  | arr ys ih =>
    cases v with
    | arr xs =>
      rw [isTextual, areTextual_iff] at hw
      rw [Json.wf_arr] at hvd hwd
      rw [pyEq, pyEqItems_iff] at h
      have hmap : xs.map Json.canon = ys.map Json.canon := by
        induction h with
        | nil => rfl
        | @cons x y xs ys hxy _ ihs =>
          rw [List.forall_mem_cons] at hw hvd hwd ih
          rw [List.map_cons, List.map_cons, ih.1 hw.1 hvd.1 hwd.1 hxy, ihs ih.2 hw.2 hwd.2 hvd.2]
      rw [Json.canon_arr, Json.canon_arr, hmap]
    | _ => simp [pyEq] at h
  | obj ns ih =>
    cases v with
    | obj ms =>
      rw [isTextual, areTextualMembers_iff] at hw
      rw [Json.wf_obj] at hvd hwd
      rw [pyEq, Bool.and_eq_true, beq_iff_eq, pyEqMembers_iff] at h
      obtain ⟨hlength, hmembers⟩ := h
      have hsub : ms.map Json.canonMember ⊆ ns.map Json.canonMember := by
        intro c hc
        obtain ⟨m, hm, rfl⟩ := List.mem_map.mp hc
        obtain ⟨w, hlookup, heq⟩ := hmembers m hm
        have hn := Json.lookup_mem hlookup
        have hcanon := ih _ hn (hw _ hn) (hvd.2 m hm) (hwd.2 _ hn) heq
        exact List.mem_map.mpr ⟨(m.1, w), hn, by rw [Json.canonMember, Json.canonMember, hcanon]⟩
      have hnd : (Json.keys (ms.map Json.canonMember)).Nodup := by
        rw [Json.keys_canonMember]
        exact hvd.1
      have hperm : (ms.map Json.canonMember).Perm (ns.map Json.canonMember) :=
        ((List.Nodup.of_map _ hnd).subperm hsub).perm_of_length_le (by simp [hlength])
      rw [Json.canon_obj, Json.canon_obj, Json.sortMembers_eq_of_perm hperm hnd]
    | _ => simp [pyEq] at h

/-! ## Numbers and iteration -/

/-- `int(text)`, for the ASCII digits that a checked pattern admits. -/
def intOf (text : String) : Py ℕ :=
  if text ≠ "" ∧ ∀ c ∈ text.toList, c.isDigit = true then .ok (Json.natOfDigits text.toList) else .error .valueError

/-- `for item in value` -/
def iterate (value : Json) : Py (List Json) :=
  match value with
  | .arr items => .ok items
  | .obj members => .ok ((Json.keys members).map .str)
  | .str s => .ok (s.toList.map fun c => .str (String.singleton c))
  | _ => .error .typeError

/-- `value in container` -/
def contains (container value : Json) : Py Bool :=
  match container, value with
  | .arr items, _ => .ok (items.any fun item => pyEq item value)
  | .obj members, .str key => .ok ((Json.keys members).contains key)
  | .obj _, .arr _ | .obj _, .obj _ => .error .typeError
  | .obj _, _ => .ok false
  | .str s, .str t => .ok (decide (t.toList <:+: s.toList))
  | _, _ => .error .typeError

/-! ## Refusals -/

/-- Nothing but the allowed exceptions is raised. -/
def Raises {α : Type} (allowed : PyError → Bool) (x : Py α) : Prop := ∀ e, x = .error e → allowed e = true

/-- Nothing but a `ConformanceError` is raised. -/
def Conforms {α : Type} (x : Py α) : Prop := ∀ e, x = .error e → ∃ reason message, e = .conformance reason message

def PyError.isConformance : PyError → Bool
  | .conformance _ _ => true
  | _ => false

section
variable {α β σ : Type} {allowed : PyError → Bool}

theorem conforms_iff_raises {x : Py α} : Conforms x ↔ Raises PyError.isConformance x := by
  refine forall₂_congr fun e _ => ?_
  cases e <;> simp [PyError.isConformance]

theorem raises_ok {a : α} : Raises allowed (.ok a : Py α) := nofun

theorem raises_error {e : PyError} (h : allowed e = true) : Raises allowed (.error e : Py α) := by
  rintro e' ⟨⟩
  exact h

theorem Raises.bind {x : Py α} {f : α → Py β} (hx : Raises allowed x) (hf : ∀ a, x = .ok a → Raises allowed (f a)) :
    Raises allowed (x >>= f) := by
  intro e h
  cases x with
  | ok a => exact hf a rfl e h
  | error e' => exact hx e (congrArg Except.error (Except.error.inj h))

theorem raises_conform {reason message : String} {p : Prop} [Decidable p] (h : allowed (.conformance reason message) = true) :
    Raises allowed (conform reason message p) := by
  unfold conform guardWith
  split
  · exact raises_ok
  · exact raises_error h

theorem raises_requireText {e : PyError} {p : String → Bool} {v : Json} (h : allowed e = true) :
    Raises allowed (requireText e p v) := by
  unfold requireText
  split
  · split
    · exact raises_ok
    · exact raises_error h
  · exact raises_error h

theorem raises_item {v w : Json} {k : String} (h : v.get? k = some w) : Raises allowed (item v k) := by
  rw [item_eq_ok.mpr h]
  exact raises_ok

theorem raises_forM {f : α → Py Unit} {xs : List α} (h : ∀ x ∈ xs, Raises allowed (f x)) : Raises allowed (xs.forM f) := by
  induction xs with
  | nil => exact raises_ok
  | cons x xs ih =>
    rw [List.forall_mem_cons] at h
    exact h.1.bind fun _ _ => ih h.2

theorem raises_mapM {f : α → Py β} {xs : List α} (h : ∀ x ∈ xs, Raises allowed (f x)) : Raises allowed (xs.mapM f) := by
  induction xs with
  | nil => exact raises_ok
  | cons x xs ih =>
    rw [List.forall_mem_cons] at h
    rw [List.mapM_cons]
    exact h.1.bind fun _ _ => (ih h.2).bind fun _ _ => raises_ok

theorem raises_reraise {caught : PyError → Bool} {reason message : String} {x : Py α}
    (h : allowed (.conformance reason message) = true) (hx : Raises allowed x) : Raises allowed (reraise caught reason message x) := by
  cases x with
  | ok a => exact raises_ok
  | error e =>
    have he := hx e rfl
    cases e with
    | conformance r m => exact raises_error he
    | _ =>
      refine raises_error ?_
      split
      · exact h
      · exact he

theorem conforms_ok {a : α} : Conforms (.ok a : Py α) := nofun

theorem conforms_conformance {reason message : String} : Conforms (.error (.conformance reason message) : Py α) := by
  rintro e ⟨⟩
  exact ⟨reason, message, rfl⟩

theorem conforms_conform {reason message : String} {p : Prop} [Decidable p] : Conforms (conform reason message p) :=
  conforms_iff_raises.mpr (raises_conform rfl)

theorem Conforms.bind {x : Py α} {f : α → Py β} (hx : Conforms x) (hf : ∀ a, x = .ok a → Conforms (f a)) :
    Conforms (x >>= f) :=
  conforms_iff_raises.mpr ((conforms_iff_raises.mp hx).bind fun a ha => conforms_iff_raises.mp (hf a ha))

theorem conforms_forM {f : α → Py Unit} {xs : List α} (h : ∀ x ∈ xs, Conforms (f x)) : Conforms (xs.forM f) :=
  conforms_iff_raises.mpr (raises_forM fun x hx => conforms_iff_raises.mp (h x hx))

theorem conforms_mapM {f : α → Py β} {xs : List α} (h : ∀ x ∈ xs, Conforms (f x)) : Conforms (xs.mapM f) :=
  conforms_iff_raises.mpr (raises_mapM fun x hx => conforms_iff_raises.mp (h x hx))

end

end HarnessConformance
