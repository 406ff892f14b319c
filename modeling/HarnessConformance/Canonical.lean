import HarnessConformance.Lib.JsonRoundTrip
import HarnessConformance.Lib.Utf8
import HarnessConformance.Python

/-! # Canonical JSON documents

The bounded value check, the strict loader and the canonical encoding of `canonical.py`. A byte
string passes `requireCanonicalDocument` exactly when it is the canonical text of a valid value,
with or without one line feed behind it. -/

namespace HarnessConformance
open Lib Lib.Outcome Lib.Lines Lib.Utf8
set_option autoImplicit false

def maxFileBytes : ℕ := 4 * 1024 * 1024
def maxCollectionItems : ℕ := 4096
def maxDepth : ℕ := 32
def maxSafeInteger : ℕ := 2 ^ 53 - 1

def checkDepth (depth : ℕ) : Py Unit :=
  conform "DOCUMENT_TOO_DEEP" "document nesting exceeds the bound" (depth ≤ maxDepth)

@[simp] theorem checkDepth_eq_ok {depth : ℕ} {u : Unit} : checkDepth depth = .ok u ↔ depth ≤ maxDepth := conform_eq_ok

/-! ## Digests -/

def hexDigit : Regex := .one fun c => c.isDigit || ('a' ≤ c && c ≤ 'f')

/-- `^sha256:[0-9a-f]{64}$` -/
def digestPattern : Regex := .seq (.literal "sha256:") (.times hexDigit 64)

abbrev Digest := Text digestPattern.fullmatch

/-- `"sha256:" + "0" * 64` -/
def zero : Digest := ⟨"sha256:" ++ String.ofList (List.replicate 64 '0'), by decide⟩

/-! ## The canonical text -/

/-- `json.dumps` with sorted keys and no space, as UTF-8. -/
def canonicalText (value : Json) : Bytes := encodeText (Json.encode value.canon)

theorem clean_canonicalText (value : Json) : Clean (canonicalText value) :=
  clean_encodeText (Json.printable_encode value.canon)

theorem canonicalText_injective {v w : Json} (hv : v.Wf) (hw : w.Wf) :
    canonicalText v = canonicalText w ↔ v.canon = w.canon := by
  rw [← Json.encode_canon_inj hv hw]
  exact ⟨fun h => encodeText_injective h, fun h => congrArg encodeText h⟩

theorem canonicalText_canon (value : Json) : canonicalText value.canon = canonicalText value := by
  rw [canonicalText, canonicalText, Json.canon_canon]

/-- The text, with or without a line feed behind it, is read back as the value. -/
theorem decode_canonicalText {value : Json} (h : value.Wf) {tail : List Char} (htail : ∀ c ∈ tail, Json.isSpace c = true) :
    decodeText (canonicalText value ++ encodeText tail) = some (Json.encode value.canon ++ tail) ∧
      Json.decode (Json.encode value.canon ++ tail) = .ok value.canon := by
  rw [canonicalText, ← encodeText_append]
  exact ⟨decodeText_encodeText _, Json.decode_encode h.canon htail⟩

variable [Runtime]

/-! ## The value check -/

def validateText (text : String) : Py Unit := do
  conform "NON_NORMALIZED_STRING" "strings must use Unicode NFC" (Runtime.normalize text = text)
  conform "STRING_TOO_LARGE" "string exceeds the local size bound" ((encodeText text.toList).length ≤ maxFileBytes)

mutual
/-- `_validate_value(value, depth)` -/
def validateValue (depth : ℕ) : Json → Py Unit
  | .null => checkDepth depth
  | .bool _ => checkDepth depth
  | .int n => do
    checkDepth depth
    conform "INTEGER_OUT_OF_RANGE" "integer exceeds the canonical safe range" (n.natAbs ≤ maxSafeInteger)
  | .str text => do
    checkDepth depth
    validateText text
  | .arr items => do
    checkDepth depth
    conform "COLLECTION_TOO_LARGE" "array exceeds the item bound" (items.length ≤ maxCollectionItems)
    validateItems (depth + 1) items
  | .obj members => do
    checkDepth depth
    conform "COLLECTION_TOO_LARGE" "object exceeds the member bound" (members.length ≤ maxCollectionItems)
    validateMembers (depth + 1) members
def validateItems (depth : ℕ) : List Json → Py Unit
  | [] => pure ()
  | item :: items => do
    validateValue depth item
    validateItems depth items
/-- A key is checked as the string it is, at the depth of the values. -/
def validateMembers (depth : ℕ) : Json.Members → Py Unit
  | [] => pure ()
  | (key, item) :: members => do
    checkDepth depth
    validateText key
    validateValue depth item
    validateMembers depth members
end

/-- What `validateText` lets through. -/
def TextValid (text : String) : Prop :=
  Runtime.normalize text = text ∧ (encodeText text.toList).length ≤ maxFileBytes

/-- `validateValue depth value` returns. -/
def ValidAt (depth : ℕ) (value : Json) : Prop := validateValue depth value = .ok ()

/-- What the canonical encoder accepts. -/
abbrev Valid (value : Json) : Prop := ValidAt 0 value

instance (depth : ℕ) (value : Json) : Decidable (ValidAt depth value) := inferInstanceAs (Decidable (_ = _))

@[simp] theorem validateText_eq_ok {text : String} {u : Unit} : validateText text = .ok u ↔ TextValid text := by
  simp only [validateText, bind_eq_ok, conform_eq_ok, exists_const, TextValid]

theorem validateItems_eq_ok {depth : ℕ} {items : List Json} {u : Unit} :
    validateItems depth items = .ok u ↔ ∀ v ∈ items, ValidAt depth v := by
  induction items with
  | nil => simp [validateItems, pure_eq_ok]
  | cons v vs ih =>
    simp only [validateItems, bind_eq_ok, ih, List.forall_mem_cons, exists_and_right, ValidAt]
    exact ⟨fun ⟨⟨_, hv⟩, hvs⟩ => ⟨hv, hvs⟩, fun ⟨hv, hvs⟩ => ⟨⟨(), hv⟩, hvs⟩⟩

theorem validateMembers_eq_ok {depth : ℕ} {members : Json.Members} {u : Unit} :
    validateMembers depth members = .ok u ↔
      ∀ m ∈ members, depth ≤ maxDepth ∧ TextValid m.1 ∧ ValidAt depth m.2 := by
  induction members with
  | nil => simp [validateMembers, pure_eq_ok]
  | cons m ms ih =>
    obtain ⟨key, v⟩ := m
    simp only [validateMembers, bind_eq_ok, ih, List.forall_mem_cons, checkDepth_eq_ok, validateText_eq_ok,
      exists_const, ValidAt]
    exact ⟨fun ⟨hd, ht, _, hv, hms⟩ => ⟨⟨hd, ht, hv⟩, hms⟩, fun ⟨⟨hd, ht, hv⟩, hms⟩ => ⟨hd, ht, (), hv, hms⟩⟩

theorem validAt_str {depth : ℕ} {text : String} : ValidAt depth (.str text) ↔ depth ≤ maxDepth ∧ TextValid text := by
  simp only [ValidAt, validateValue, bind_eq_ok, checkDepth_eq_ok, validateText_eq_ok, exists_const]

theorem validAt_arr {depth : ℕ} {items : List Json} : ValidAt depth (.arr items) ↔
    depth ≤ maxDepth ∧ items.length ≤ maxCollectionItems ∧ ∀ v ∈ items, ValidAt (depth + 1) v := by
  simp only [ValidAt, validateValue, bind_eq_ok, checkDepth_eq_ok, conform_eq_ok, validateItems_eq_ok, exists_const]

theorem validAt_obj {depth : ℕ} {members : Json.Members} : ValidAt depth (.obj members) ↔
    depth ≤ maxDepth ∧ members.length ≤ maxCollectionItems ∧
      ∀ m ∈ members, depth + 1 ≤ maxDepth ∧ TextValid m.1 ∧ ValidAt (depth + 1) m.2 := by
  simp only [ValidAt, validateValue, bind_eq_ok, checkDepth_eq_ok, conform_eq_ok, validateMembers_eq_ok, exists_const]

/-- The check does not see the order of members. -/
theorem validAt_canon {depth : ℕ} {value : Json} : ValidAt depth value.canon ↔ ValidAt depth value := by
  induction value generalizing depth with
  | arr items ih =>
    rw [Json.canon_arr, validAt_arr, validAt_arr, List.length_map, List.forall_mem_map]
    exact and_congr_right' (and_congr_right' (forall₂_congr fun v hv => ih v hv))
  | obj members ih =>
    have hperm := Json.sortMembers_perm (members.map Json.canonMember)
    rw [Json.canon_obj, validAt_obj, validAt_obj, hperm.length_eq, List.length_map]
    refine and_congr_right' (and_congr_right' ?_)
    simp only [hperm.mem_iff, List.forall_mem_map]
    exact forall₂_congr fun m hm => and_congr_right' (and_congr_right' (ih m hm))
  | _ => rfl

/-- What is valid inside a document is valid on its own. -/
theorem ValidAt.mono {depth shallow : ℕ} {value : Json} (h : ValidAt depth value) (hle : shallow ≤ depth) :
    ValidAt shallow value := by
  induction value generalizing depth shallow with
  | null => exact checkDepth_eq_ok.mpr (hle.trans (checkDepth_eq_ok.mp h))
  | bool b => exact checkDepth_eq_ok.mpr (hle.trans (checkDepth_eq_ok.mp h))
  | int n =>
    simp only [ValidAt, validateValue, bind_eq_ok, checkDepth_eq_ok, exists_const] at h ⊢
    exact ⟨hle.trans h.1, h.2⟩
  | str s =>
    rw [validAt_str] at h ⊢
    exact ⟨hle.trans h.1, h.2⟩
  | arr items ih =>
    rw [validAt_arr] at h ⊢
    exact ⟨hle.trans h.1, h.2.1, fun v hv => ih v hv (h.2.2 v hv) (Nat.succ_le_succ hle)⟩
  | obj members ih =>
    rw [validAt_obj] at h ⊢
    refine ⟨hle.trans h.1, h.2.1, fun m hm => ?_⟩
    obtain ⟨hdepth, htext, hvalid⟩ := h.2.2 m hm
    exact ⟨(Nat.succ_le_succ hle).trans hdepth, htext, ih m hm hvalid (Nat.succ_le_succ hle)⟩

theorem ValidAt.get? {v w : Json} {k : String} (h : Valid v) (hk : v.get? k = some w) : Valid w := by
  cases v with
  | obj members => exact ((validAt_obj.mp h).2.2 _ (Json.lookup_mem hk)).2.2.mono (Nat.zero_le _)
  | _ => cases hk

/-! ## Loading and encoding -/

/-- The exception `load_json_bytes` raises for what the reader reports. -/
def loadError : JsonError → PyError
  | .invalid => .conformance "INVALID_JSON" "document is not valid strict JSON"
  | .float => .conformance "NON_CANONICAL_NUMBER" "floating-point values are not permitted"
  | .duplicate key => .conformance "DUPLICATE_JSON_MEMBER" ("duplicate member " ++ Runtime.repr key)
  | .surrogate => .unicodeEncodeError
  | .recursion => .recursionError

def loadText (text : List Char) : Py Json :=
  match Json.decode text with
  | .ok value => .ok value
  | .error e => .error (loadError e)

def loadJsonBytes (data : Bytes) : Py Json := do
  conform "DOCUMENT_TOO_LARGE" "document exceeds the local size bound" (data.length ≤ maxFileBytes)
  match decodeText data with
  | none => .error (.conformance "INVALID_UTF8" "document is not UTF-8")
  | some text => do
    let value ← loadText text
    validateValue 0 value
    pure value

def canonicalBytes (value : Json) : Py Bytes := do
  validateValue 0 value
  pure (canonicalText value)

/-- `byte_digest(data)` -/
def byteDigest (data : Bytes) : Digest :=
  ⟨"sha256:" ++ Runtime.hexdigest data, by
    rw [Regex.fullmatch_iff, digestPattern, String.toList_append]
    exact .seq (Regex.matches_literal.mpr rfl) (Regex.fullmatch_iff.mp (Runtime.hexdigest_hex data))⟩

/-- SHA-256 taken as injective, on the byte strings that are hashed. -/
def CollisionFree (hashed : Set Bytes) : Prop := Set.InjOn Runtime.hexdigest hashed

theorem byteDigest_inj {hashed : Set Bytes} (h : CollisionFree hashed) {x y : Bytes} (hx : x ∈ hashed) (hy : y ∈ hashed)
    (hxy : byteDigest x = byteDigest y) : x = y := by
  refine h hx hy ?_
  have htext := congrArg (fun d : Digest => d.text.toList) hxy
  simp only [byteDigest, String.toList_append, List.append_cancel_left_eq] at htext
  exact String.toList_injective htext

/-- The bytes a domain puts in front of the text that is hashed. -/
def domainPrefix : Option String → Bytes
  | none => []
  | some domain => encodeText domain.toList ++ [0]

def canonicalDigest (value : Json) (domain : Option String) : Py Digest := do
  let data ← canonicalBytes value
  pure (byteDigest (domainPrefix domain ++ data))

def requireCanonicalDocument (data : Bytes) : Py Json := do
  let value ← loadJsonBytes data
  let encoded ← canonicalBytes value
  conform "NON_CANONICAL_JSON" "document bytes are not canonical JSON" (encoded ++ [lineFeed] = data ∨ encoded = data)
  pure value

/-- A document in the form the loader returns: sorted distinct keys, within the bounds. -/
structure Canonical (value : Json) : Prop where
  wf : value.Wf
  canon : value.canon = value
  valid : Valid value

theorem canonicalBytes_eq_ok {value : Json} {data : Bytes} :
    canonicalBytes value = .ok data ↔ Valid value ∧ canonicalText value = data := by
  simp only [canonicalBytes, bind_eq_ok, pure_eq_ok, exists_and_right, ValidAt]
  exact and_congr_left' ⟨fun ⟨_, h⟩ => h, fun h => ⟨(), h⟩⟩

/-- The reasons of the value check. -/
def valueReasons : List String :=
  ["DOCUMENT_TOO_DEEP", "INTEGER_OUT_OF_RANGE", "NON_NORMALIZED_STRING", "STRING_TOO_LARGE", "COLLECTION_TOO_LARGE"]

section
variable {allowed : PyError → Bool} (h : ∀ reason ∈ valueReasons, ∀ message, allowed (.conformance reason message) = true)
include h

theorem raises_validateText (text : String) : Raises allowed (validateText text) :=
  (raises_conform (h _ (by decide) _)).bind fun _ _ => raises_conform (h _ (by decide) _)

theorem raises_validateValue (depth : ℕ) (v : Json) : Raises allowed (validateValue depth v) := by
  have hdepth (depth : ℕ) : Raises allowed (checkDepth depth) := raises_conform (h _ (by decide) _)
  have hlarge {message : String} {p : Prop} [Decidable p] : Raises allowed (conform "COLLECTION_TOO_LARGE" message p) :=
    raises_conform (h _ (by decide) _)
  induction v generalizing depth with
  | null => exact hdepth depth
  | bool b => exact hdepth depth
  | int n => exact (hdepth depth).bind fun _ _ => raises_conform (h _ (by decide) _)
  | str s => exact (hdepth depth).bind fun _ _ => raises_validateText h s
  | arr items ih =>
    refine (hdepth depth).bind fun _ _ => hlarge.bind fun _ hlength => ?_
    clear hlength
    generalize depth + 1 = depth
    induction items with
    | nil => exact raises_ok
    | cons v vs ihs =>
      rw [List.forall_mem_cons] at ih
      exact (ih.1 depth).bind fun _ _ => ihs ih.2
  | obj members ih =>
    refine (hdepth depth).bind fun _ _ => hlarge.bind fun _ hlength => ?_
    clear hlength
    generalize depth + 1 = depth
    induction members with
    | nil => exact raises_ok
    | cons m ms ihs =>
      rw [List.forall_mem_cons] at ih
      exact (hdepth depth).bind fun _ _ => (raises_validateText h m.1).bind fun _ _ => (ih.1 depth).bind fun _ _ => ihs ih.2

theorem raises_canonicalBytes (v : Json) : Raises allowed (canonicalBytes v) :=
  (raises_validateValue h 0 v).bind fun _ _ => raises_ok

theorem raises_canonicalDigest (v : Json) (domain : Option String) : Raises allowed (canonicalDigest v domain) :=
  (raises_canonicalBytes h v).bind fun _ _ => raises_ok

end

theorem conforms_validateValue (depth : ℕ) (v : Json) : Conforms (validateValue depth v) :=
  conforms_iff_raises.mpr (raises_validateValue (fun _ _ _ => rfl) depth v)

theorem conforms_canonicalBytes (v : Json) : Conforms (canonicalBytes v) :=
  (conforms_validateValue 0 v).bind fun _ _ => conforms_ok

theorem conforms_canonicalDigest (v : Json) (domain : Option String) : Conforms (canonicalDigest v domain) :=
  (conforms_canonicalBytes v).bind fun _ _ => conforms_ok

/-- The digest of a value that passes the check. -/
def digestOf (value : Json) : Digest := byteDigest (canonicalText value)

theorem digestOf_canon (v : Json) : digestOf v.canon = digestOf v := by
  rw [digestOf, digestOf, canonicalText_canon]

theorem canonicalDigest_eq_ok {value : Json} {domain : Option String} {digest : Digest} :
    canonicalDigest value domain = .ok digest ↔
      Valid value ∧ byteDigest (domainPrefix domain ++ canonicalText value) = digest := by
  simp only [canonicalDigest, bind_eq_ok, pure_eq_ok, canonicalBytes_eq_ok, and_assoc, exists_and_left,
    exists_eq_left']

theorem canonicalDigest_none {value : Json} {digest : Digest} :
    canonicalDigest value none = .ok digest ↔ Valid value ∧ digestOf value = digest := canonicalDigest_eq_ok

/-! ## What is accepted -/

theorem loadJsonBytes_eq_ok {data : Bytes} {value : Json} : loadJsonBytes data = .ok value ↔
    data.length ≤ maxFileBytes ∧ ∃ text, decodeText data = some text ∧ Json.decode text = .ok value ∧ Valid value := by
  simp only [loadJsonBytes, bind_eq_ok, conform_eq_ok, exists_const]
  refine and_congr_right' ?_
  cases decodeText data with
  | none => simp
  | some text =>
    simp only [Option.some.injEq, exists_eq_left', bind_eq_ok, pure_eq_ok, loadText]
    cases hdecode : Json.decode text with
    | error e => simp
    | ok w =>
      simp only [Except.ok.injEq, exists_eq_left', ValidAt]
      constructor
      · rintro ⟨_, hvalid, rfl⟩
        exact ⟨rfl, hvalid⟩
      · rintro ⟨rfl, hvalid⟩
        exact ⟨(), hvalid, rfl⟩

theorem Canonical.text {value : Json} (h : Canonical value) : canonicalText value = encodeText (Json.encode value) := by
  rw [canonicalText, h.canon]

/-- A document is accepted exactly when it spells a canonical value, with or without a line feed. -/
theorem requireCanonicalDocument_eq_ok {data : Bytes} {value : Json} :
    requireCanonicalDocument data = .ok value ↔ Canonical value ∧
      (data = canonicalText value ∨ data = canonicalText value ++ [lineFeed]) ∧ data.length ≤ maxFileBytes := by
  simp only [requireCanonicalDocument, bind_eq_ok, pure_eq_ok, conform_eq_ok, exists_const]
  constructor
  · rintro ⟨v, hload, encoded, hencoded, hspelling, rfl⟩
    obtain ⟨hlength, text, htext, hdecode, hvalid⟩ := loadJsonBytes_eq_ok.mp hload
    obtain ⟨-, rfl⟩ := canonicalBytes_eq_ok.mp hencoded
    have hwf := Json.decode_wf hdecode
    have hcanon : v.canon = v := by
      obtain ⟨tail, htail, hdata⟩ : ∃ tail : List Char, (∀ c ∈ tail, Json.isSpace c = true) ∧
          canonicalText v ++ encodeText tail = data := by
        rcases hspelling with h | h
        · exact ⟨['\n'], by simp [Json.isSpace], h⟩
        · exact ⟨[], by simp, (List.append_nil _).trans h⟩
      obtain ⟨hread, hvalue⟩ := decode_canonicalText hwf htail
      rw [hdata, htext] at hread
      rw [← Option.some.inj hread, hdecode] at hvalue
      exact (Except.ok.inj hvalue).symm
    exact ⟨⟨hwf, hcanon, hvalid⟩, hspelling.symm.imp Eq.symm Eq.symm, hlength⟩
  · rintro ⟨hvalue, hspelling, hlength⟩
    obtain ⟨tail, htail, hdata⟩ : ∃ tail : List Char, (∀ c ∈ tail, Json.isSpace c = true) ∧
        canonicalText value ++ encodeText tail = data := by
      rcases hspelling with rfl | rfl
      · exact ⟨[], by simp, List.append_nil _⟩
      · exact ⟨['\n'], by simp [Json.isSpace], rfl⟩
    obtain ⟨hread, hdecode⟩ := decode_canonicalText hvalue.wf htail
    rw [hvalue.canon] at hread hdecode
    rw [hdata] at hread
    exact ⟨value, loadJsonBytes_eq_ok.mpr ⟨hlength, _, hread, hdecode, hvalue.valid⟩, canonicalText value,
      canonicalBytes_eq_ok.mpr ⟨hvalue.valid, rfl⟩, hspelling.symm.imp Eq.symm Eq.symm, rfl⟩

/-- Two canonical values with one text are one value. -/
theorem Canonical.eq_of_text {v w : Json} (hv : Canonical v) (hw : Canonical w)
    (h : canonicalText v = canonicalText w) : v = w := by
  rw [← hv.canon, ← hw.canon]
  exact (canonicalText_injective hv.wf hw.wf).mp h

/-- The text of a valid dictionary is a document, whose value is the dictionary with sorted keys. -/
theorem canonical_canon {value : Json} (hwf : value.Wf) (hvalid : Valid value) : Canonical value.canon :=
  ⟨hwf.canon, Json.canon_canon value, validAt_canon.mpr hvalid⟩

/-- A canonical text is read as the value it spells. -/
theorem requireCanonicalDocument_text {v w : Json} (h : requireCanonicalDocument (canonicalText w) = .ok v) :
    Canonical v ∧ canonicalText w = canonicalText v := by
  obtain ⟨hv, hspelling | hspelling, -⟩ := requireCanonicalDocument_eq_ok.mp h
  · exact ⟨hv, hspelling⟩
  · have hmem : lineFeed ∈ canonicalText w := by
      rw [hspelling]
      simp
    exact absurd hmem (clean_canonicalText w).not_mem.1

theorem requireCanonicalDocument_text_wf {v w : Json} (hw : w.Wf) (h : requireCanonicalDocument (canonicalText w) = .ok v) :
    v = w.canon := by
  obtain ⟨hv, htext⟩ := requireCanonicalDocument_text h
  rw [← hv.canon]
  exact ((canonicalText_injective hw hv.wf).mp htext).symm

end HarnessConformance
